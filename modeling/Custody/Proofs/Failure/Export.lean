import Custody.Proofs.Failure.Registration
import Custody.Proofs.Report

/-!
# The registry as a text

A registry that is published tells a host all that it needs to understand failures: a reader finds
every condition under its name, and nothing else.  What was registered decides the text, up to the
ids; in which order it was registered decides the ids only.

- `Registry.Exported`: what a host can rely on in the text of a registry.
- `Registry.Accepts.exists_perm`: conditions that are accepted in one order are accepted in every
  order, and then the same conditions are registered.
- `Registry.export_is_faithful`: all of it, for every sequence of calls.
-/

namespace Custody

open SessionM Text

/-- What a reader finds of a condition: under its name, its id and its message. -/
def Condition.entry (c : Condition) : String × JsonValue :=
  (c.name, .object [("id", .number c.id 0), ("message", .string c.message)])

namespace Registry

/-! ## What is registered, apart from the ids -/

/-- The conditions without their ids. -/
def messages (r : Registry) : List (String × String) :=
  r.conditions.map fun c => (c.name, c.message)

/-- The registry with other ids. -/
def renumber (r : Registry) (ids : String → Int) : Registry :=
  { r with conditions := r.conditions.map fun c => { c with id := ids c.name } }

/-- The id that a registry gives a name. -/
def idOf (r : Registry) (name : String) : Int := ((r.byName? name).map (·.id)).getD 0

variable {r last : Registry}

theorem map_messages (r : Registry) : r.messages.map (·.1) = r.names := by
  rw [messages, List.map_map]
  rfl

theorem Numbered.nodup_messages (h : r.Numbered) : r.messages.Nodup :=
  List.Nodup.of_map (·.1) (by rw [map_messages]; exact h.nodup)

/-- A name has one message. -/
theorem Numbered.message_unique (h : r.Numbered) {name message other : String}
    (hmessage : (name, message) ∈ r.messages) (hother : (name, other) ∈ r.messages) :
    message = other := by
  have hinj := List.inj_on_of_nodup_map (f := Prod.fst) (by rw [map_messages]; exact h.nodup)
    hmessage hother rfl
  exact congrArg Prod.snd hinj

/-- A registry is itself under its own ids. -/
theorem Numbered.renumber_idOf (h : r.Numbered) : r.renumber r.idOf = r := by
  have hsame : r.conditions.map (fun c => { c with id := r.idOf c.name }) = r.conditions := by
    conv_rhs => rw [← List.map_id r.conditions]
    refine List.map_congr_left fun c hc => ?_
    rw [idOf, h.byName?_eq_some_iff.mpr ⟨hc, rfl⟩]
    rfl
  rw [renumber, hsame]

/-! ## The text -/

/-- What is written of a named message under an id. -/
private def member (id : Int) (name message : String) : String × Json :=
  (name, Json.object [("id", .int id), ("message", .str message)])

private theorem value_member (c : Condition) :
    ((member c.id c.name c.message).1, (member c.id c.name c.message).2.value) = c.entry := by
  have hobject : (member c.id c.name c.message).2 =
      .obj [("id", .int c.id), ("message", .str c.message)] := by
    have hless : ¬ "message" < "id" := by decide
    simp [member, Json.object, Json.insertMember, hless]
  rw [hobject]
  rfl

private theorem toJson_eq (r : Registry) :
    r.toJson = Json.object (r.conditions.map fun c => member c.id c.name c.message) := rfl

/-- Under ids that depend on names only, the text does not depend on the order of registration. -/
theorem Numbered.render_renumber {r' : Registry} (h : r.Numbered)
    (hsame : r.messages.Perm r'.messages) (ids : String → Int) :
    (r.renumber ids).toJson.render = (r'.renumber ids).toJson.render := by
  have hmembers : ∀ q : Registry, ((q.renumber ids).conditions.map fun c =>
      member c.id c.name c.message) = q.messages.map fun p => member (ids p.1) p.1 p.2 := by
    intro q
    rw [renumber, messages, List.map_map, List.map_map]
    rfl
  rw [toJson_eq, toJson_eq, hmembers, hmembers]
  congr 1
  refine Json.object_perm ?_ (hsame.map _)
  rw [List.map_map]
  show (r.messages.map (·.1)).Nodup
  rw [map_messages]
  exact h.nodup

/-! ## Registering in another order -/

/-- What is registered after conditions were accepted: what there was, and these. -/
theorem Accepts.mem_messages_iff {conditions : List (String × String)}
    (h : Accepts r conditions last) {p : String × String} :
    p ∈ last.messages ↔ p ∈ r.messages ∨ p ∈ conditions := by
  induction h with
  | nil r => simp
  | @cons r next last name message id rest first _ ih =>
    rw [ih, List.mem_cons, ← or_assoc]
    refine or_congr_left ?_
    rw [register] at first
    split at first
    case h_1 condition hfound =>
      -- the condition was there, with this message
      split at first
      case isTrue hmessage =>
        obtain ⟨-, rfl⟩ := Prod.mk.inj first
        have hmem : (name, message) ∈ r.messages := by
          refine List.mem_map.mpr ⟨condition, List.mem_of_find?_eq_some hfound, ?_⟩
          have hname : condition.name = name := by simpa using List.find?_some hfound
          rw [hname, hmessage]
        exact ⟨.inl, fun hp => hp.elim (fun hold => hold) fun heq => heq ▸ hmem⟩
      case isFalse => simp at first
    case h_2 =>
      obtain ⟨-, rfl⟩ := Prod.mk.inj first
      simp [messages, append]

/-- Conditions are accepted if no name is given two messages. -/
private theorem exists_accepts {conditions : List (String × String)}
    (h : ∀ name message other, (name, message) ∈ r.messages ∨ (name, message) ∈ conditions →
      (name, other) ∈ r.messages ∨ (name, other) ∈ conditions → message = other) :
    ∃ last, Accepts r conditions last := by
  induction conditions generalizing r with
  | nil => exact ⟨r, .nil r⟩
  | cons condition rest ih =>
    obtain ⟨name, message⟩ := condition
    -- this one is accepted, and what there is then is part of what there is in the end
    obtain ⟨id, next, hfirst⟩ : ∃ id next, r.register name message = (.ok id, next) := by
      rw [register]
      cases hfound : r.byName? name with
      | none => exact ⟨_, _, rfl⟩
      | some condition =>
        have hname : condition.name = name := by simpa using List.find?_some hfound
        have hmem : (name, condition.message) ∈ r.messages :=
          List.mem_map.mpr ⟨condition, List.mem_of_find?_eq_some hfound, by rw [hname]⟩
        have hmessage := h name condition.message message (.inl hmem) (.inr List.mem_cons_self)
        exact ⟨condition.id, r, if_pos hmessage⟩
    have hnext : ∀ p, p ∈ next.messages ∨ p ∈ rest →
        p ∈ r.messages ∨ p ∈ (name, message) :: rest := by
      intro p hp
      have hiff := (Accepts.cons hfirst (.nil next)).mem_messages_iff (p := p)
      rw [hiff, List.mem_singleton, or_assoc] at hp
      rwa [List.mem_cons]
    obtain ⟨last, hlast⟩ := ih fun name message other hmessage hother =>
      h name message other (hnext _ hmessage) (hnext _ hother)
    exact ⟨last, .cons hfirst hlast⟩

theorem Accepts.reachable {conditions : List (String × String)} (h : Accepts r conditions last)
    (hr : r.Reachable) : last.Reachable := by
  induction h with
  | nil => exact hr
  | @cons r next last name message id rest first _ ih =>
    have hnext := hr.register name message
    rw [first] at hnext
    exact ih hnext

/-- Conditions that are accepted in one order are accepted in every order, and then the same
messages are registered under the same names. -/
theorem Accepts.exists_perm {conditions others : List (String × String)}
    (h : Accepts r conditions last) (hr : r.Reachable) (hperm : conditions.Perm others) :
    ∃ last', Accepts r others last' ∧ last.messages.Perm last'.messages := by
  have hnumbered := (h.reachable hr).numbered
  have hmem : ∀ p, p ∈ r.messages ∨ p ∈ others → p ∈ last.messages := by
    intro p hp
    rwa [h.mem_messages_iff, hperm.mem_iff]
  obtain ⟨last', h'⟩ : ∃ last', Accepts r others last' :=
    exists_accepts fun name message other hmessage hother =>
      hnumbered.message_unique (hmem _ hmessage) (hmem _ hother)
  refine ⟨last', h', ?_⟩
  refine (List.perm_ext_iff_of_nodup hnumbered.nodup_messages
    (h'.reachable hr).numbered.nodup_messages).mpr fun p => ?_
  rw [h.mem_messages_iff, h'.mem_messages_iff, hperm.mem_iff]

/-! ## Every sequence of calls -/

/-- What a host can rely on in the text of a registry. -/
structure Exported (r : Registry) : Prop where
  /-- A reader finds an object with one member for each condition, in increasing order of the bytes
  of their names. -/
  read : ∃ members, JsonValue.read? r.toJson.render = some (.object members) ∧
    members.Perm (r.conditions.map Condition.entry) ∧
    members.Pairwise fun a b => utf8 a.1 < utf8 b.1
  printable : ∀ c ∈ r.toJson.render.toList, 0x20 ≤ c.toNat
  /-- Apart from the ids, the text is that of every registry with the same conditions. -/
  unordered : ∀ r' : Registry, r.messages.Perm r'.messages → ∀ ids,
    (r.renumber ids).toJson.render = (r'.renumber ids).toJson.render
  own : r.renumber r.idOf = r
  /-- A host that is installed is given the text, under every symbol that can cross. -/
  published : ∀ (s : Session) (host : Host) (symbol : String),
    s.registry = r → s.host = some host → Crosses symbol →
      publishConditions symbol s =
        if (host.assign symbol r.toJson.render s.memory).1 then
          .ok () (s.assigned host symbol r.toJson.render)
        else .error (.failure (.reportRefused symbol)) (s.assigned host symbol r.toJson.render)
  /-- Where a host that keeps its symbols accepts the text, the symbol holds it as it is. -/
  kept : ∀ (s s' : Session) (host : Host) (symbol : String),
    s.registry = r → s.host = some host → host.KeepsSymbols → Crosses symbol →
      publishConditions symbol s = .ok () s' →
        s' = { s with memory := s.memory.setSymbol symbol r.toJson.render } ∧
          s'.memory.symbol? symbol = some r.toJson.render

theorem Numbered.exported (h : r.Numbered) : r.Exported where
  read := by
    have hnames : ((r.conditions.map fun c => member c.id c.name c.message).map (·.1)).Nodup := by
      rw [List.map_map]
      exact h.nodup
    obtain ⟨members, hread, hperm, hsorted⟩ := Json.read?_object hnames
    refine ⟨members, hread, ?_, hsorted⟩
    rw [List.map_map] at hperm
    rwa [List.map_congr_left fun c _ => (value_member c).symm]
  printable := Json.printable_render _
  unordered _ hsame ids := h.render_renumber hsame ids
  own := h.renumber_idOf
  published := by
    rintro s host symbol rfl hhost hsymbol
    exact publishConditions_apply hhost hsymbol
  kept := by
    rintro s s' host symbol rfl hhost hkeeps hsymbol hpublished
    rw [publishConditions_apply hhost hsymbol] at hpublished
    rcases hkeeps.assign symbol s.registry.toJson.render s.memory with hrefused | haccepted
    · rw [hrefused] at hpublished
      cases hpublished
    · rw [Session.assigned, haccepted, if_pos rfl] at hpublished
      cases hpublished
      exact ⟨rfl, Memory.symbol?_setSymbol _ _ _⟩

/-- **The text of a registry is faithful**, whatever was registered with whatever names and
messages: a host reads in it exactly the conditions, and gets it as it is.  Registering conditions
in another order gives another text only if ids differ. -/
theorem export_is_faithful (cs : List Call) :
    (fresh.calls cs).Exported ∧
      ∀ conditions others last, conditions.Perm others →
        Accepts (fresh.calls cs) conditions last →
          ∃ last', Accepts (fresh.calls cs) others last' ∧ ∀ ids,
            (last.renumber ids).toJson.render = (last'.renumber ids).toJson.render := by
  have hreachable := reachable_calls cs
  refine ⟨hreachable.numbered.exported, fun conditions others last hperm haccepts => ?_⟩
  obtain ⟨last', haccepts', hsame⟩ := haccepts.exists_perm hreachable hperm
  refine ⟨last', haccepts', fun ids => ?_⟩
  exact (haccepts.reachable hreachable).numbered.render_renumber hsame ids

/-- A condition whose name and message have to be escaped. -/
def escapedCondition : Condition := ⟨fresh.nextId, "\"\\\x7f", "é\x00\n"⟩

/-- The reference host is given it with all others, and holds a text in which a reader finds it. -/
theorem export_of_escaped :
    ∃ registry symbols members text,
      registry = fresh.calls [.one escapedCondition.name escapedCondition.message] ∧
      escapedCondition ∈ registry.conditions ∧
      publishConditions "Conditions" { registry, host := some .reference } =
        .ok () { registry, host := some .reference, memory := symbols } ∧
      symbols.symbol? "Conditions" = some text ∧
      JsonValue.read? text = some (.object members) ∧ escapedCondition.entry ∈ members := by
  obtain ⟨hexported, -⟩ := export_is_faithful [.one escapedCondition.name escapedCondition.message]
  have hmem : escapedCondition ∈
      (fresh.calls [.one escapedCondition.name escapedCondition.message]).conditions := by
    have hnew : escapedCondition.name ∉ fresh.names := by decide
    rw [calls, List.foldl_cons, call, numbered_fresh.registers.new _ _ hnew]
    exact List.mem_append_right _ List.mem_cons_self
  generalize fresh.calls [.one escapedCondition.name escapedCondition.message] = registry at *
  obtain ⟨members, hread, hperm, -⟩ := hexported.read
  have hpublished := hexported.published { registry, host := some .reference } .reference
    "Conditions" rfl rfl (by decide)
  rw [Host.reference_assign, if_pos rfl] at hpublished
  obtain ⟨hsession, hsymbol⟩ := hexported.kept _ _ .reference "Conditions" rfl rfl
    Host.reference_keepsSymbols (by decide) hpublished
  rw [hsession] at hpublished hsymbol
  exact ⟨registry, _, members, _, rfl, hmem, hpublished, hsymbol, hread,
    hperm.mem_iff.mpr (List.mem_map_of_mem hmem)⟩

end Registry

end Custody
