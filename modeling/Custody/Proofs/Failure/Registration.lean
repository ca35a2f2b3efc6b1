import Custody.Proofs.Failure.Registry
import Mathlib.Algebra.Group.Int.Defs
import Mathlib.Algebra.Group.Nat.Defs

/-!
# Registering and looking up, call after call

A registry only grows: every call that registers keeps the conditions that are there and adds new
ones behind them.  Since ids count down and no name stands twice, the condition that is found first
is the only one, and what was found once is found for ever.

- `Registry.Found`: looking up by name and by id, in a registry whose ids count down.
- `Registry.Kept`: what a registry keeps of an earlier one.
- `Registry.registerAll_ok_iff`, `Registry.registerAll_error_iff`: several conditions at once are
  the same conditions one by one.
- `Registry.calls_reliable`: all of it, for every sequence of calls.
-/

namespace Custody

namespace Registry

/-! ## Calls -/

/-- A call that registers conditions. -/
inductive Call where
  | one (name message : String)
  | all (conditions : List (String × String))

/-- The registry after a call, whether it was refused or not. -/
def call (r : Registry) : Call → Registry
  | .one name message => (r.register name message).2
  | .all conditions => (r.registerAll conditions).2

def calls (r : Registry) (cs : List Call) : Registry := cs.foldl call r

theorem calls_append (r : Registry) (before later : List Call) :
    r.calls (before ++ later) = (r.calls before).calls later :=
  List.foldl_append

/-- What registering one condition preserves is preserved by every call. -/
theorem call_induction {P : Registry → Prop}
    (hone : ∀ r name message, P r → P (r.register name message).2)
    {r : Registry} (h : P r) (c : Call) : P (r.call c) := by
  cases c with
  | one name message => exact hone r name message h
  | all conditions =>
    show P (r.registerAll conditions).2
    induction conditions generalizing r with
    | nil => exact h
    | cons condition rest ih =>
      have hnext := hone r condition.1 condition.2 h
      rw [registerAll]
      -- a refusal ends the call with the registry of this condition, else the rest follows
      split
      case h_1 next hregister =>
        rw [hregister] at hnext
        exact ih hnext
      case h_2 next hregister =>
        rw [hregister] at hnext
        exact hnext

theorem calls_induction {P : Registry → Prop}
    (hone : ∀ r name message, P r → P (r.register name message).2)
    {r : Registry} (h : P r) (cs : List Call) : P (r.calls cs) := by
  induction cs generalizing r with
  | nil => exact h
  | cons c rest ih => exact ih (call_induction hone h c)

theorem reachable_calls (cs : List Call) : (fresh.calls cs).Reachable :=
  calls_induction (fun _ name message h => h.register name message) .fresh cs

/-! ## Looking up -/

/-- Looking up finds exactly what is registered, by its name and by its id. -/
structure Found (r : Registry) : Prop where
  byName : ∀ name condition,
    r.findByName name = .ok condition ↔ condition ∈ r.conditions ∧ condition.name = name
  unknownName : ∀ name, name ∉ r.names → r.findByName name = .error (.unknownName name)
  byId : ∀ id condition,
    r.findById id = .ok condition ↔ condition ∈ r.conditions ∧ condition.id = id
  unknownId : ∀ id, id ∉ r.conditions.map (·.id) → r.findById id = .error (.unknownId id)

theorem mem_names_iff {r : Registry} {name : String} :
    name ∈ r.names ↔ ∃ condition ∈ r.conditions, condition.name = name :=
  List.mem_map

theorem Numbered.nodup_ids {r : Registry} (h : r.Numbered) :
    (r.conditions.map (·.id)).Nodup := by
  rw [List.nodup_iff_getElem?_ne_getElem?]
  intro i j hij hj hsame
  rw [List.length_map] at hj
  have hi : i < r.conditions.length := Nat.lt_trans hij hj
  have hidI := h.id i _ (List.getElem?_eq_getElem hi)
  have hidJ := h.id j _ (List.getElem?_eq_getElem hj)
  -- equal ids stand at equal places, since the place can be read off the id
  have hids : r.conditions[i].id = r.conditions[j].id := by simpa [hi, hj] using hsame
  omega

/-- Where keys differ, the condition that is found first is the only one with its key. -/
private theorem find?_eq_some_iff_of_nodup {κ : Type} [DecidableEq κ] {key : Condition → κ}
    {conditions : List Condition} (hnodup : (conditions.map key).Nodup) {k : κ}
    {condition : Condition} :
    conditions.find? (key · == k) = some condition ↔
      condition ∈ conditions ∧ key condition = k := by
  constructor
  · intro hfound
    exact ⟨List.mem_of_find?_eq_some hfound, by simpa using List.find?_some hfound⟩
  · rintro ⟨hmem, rfl⟩
    cases hfound : conditions.find? (key · == key condition) with
    | none => simpa using List.find?_eq_none.mp hfound condition hmem
    | some other =>
      have hkey : key other = key condition := by simpa using List.find?_some hfound
      rw [List.inj_on_of_nodup_map hnodup (List.mem_of_find?_eq_some hfound) hmem hkey]

theorem Numbered.byName?_eq_some_iff {r : Registry} (h : r.Numbered) {name : String}
    {condition : Condition} :
    r.byName? name = some condition ↔ condition ∈ r.conditions ∧ condition.name = name :=
  find?_eq_some_iff_of_nodup h.nodup

theorem Numbered.byId?_eq_some_iff {r : Registry} (h : r.Numbered) {id : Int}
    {condition : Condition} :
    r.byId? id = some condition ↔ condition ∈ r.conditions ∧ condition.id = id :=
  find?_eq_some_iff_of_nodup h.nodup_ids

theorem findByName_eq_ok_iff {r : Registry} {name : String} {condition : Condition} :
    r.findByName name = .ok condition ↔ r.byName? name = some condition := by
  rw [findByName]
  cases r.byName? name <;> simp

theorem findById_eq_ok_iff {r : Registry} {id : Int} {condition : Condition} :
    r.findById id = .ok condition ↔ r.byId? id = some condition := by
  rw [findById]
  cases r.byId? id <;> simp

theorem Numbered.found {r : Registry} (h : r.Numbered) : r.Found where
  byName _ _ := findByName_eq_ok_iff.trans h.byName?_eq_some_iff
  unknownName name hname := by rw [findByName, byName?_eq_none_iff.mpr hname]
  byId _ _ := findById_eq_ok_iff.trans h.byId?_eq_some_iff
  unknownId id hid := by
    have hnone : r.byId? id = none := by simpa [byId?] using hid
    rw [findById, hnone]

/-! ## Registering one condition -/

/-- The three ways in which registering ends. -/
structure Registers (r : Registry) : Prop where
  known : ∀ condition ∈ r.conditions,
    r.register condition.name condition.message = (.ok condition.id, r)
  conflict : ∀ condition ∈ r.conditions, ∀ message, message ≠ condition.message →
    r.register condition.name message = (.error (.nameConflict condition.name), r)
  new : ∀ name message, name ∉ r.names → r.register name message =
    (.ok r.nextId, ⟨r.conditions ++ [⟨r.nextId, name, message⟩], r.nextId - 1⟩)

theorem Numbered.registers {r : Registry} (h : r.Numbered) : r.Registers where
  known condition hmem := by
    simp [register, h.byName?_eq_some_iff.mpr ⟨hmem, rfl⟩]
  conflict condition hmem message hmessage := by
    simp [register, h.byName?_eq_some_iff.mpr ⟨hmem, rfl⟩, hmessage.symm]
  new name message hname := by
    rw [register, byName?_eq_none_iff.mpr hname]
    rfl

/-- Registering is refused in one way, and then nothing has changed. -/
theorem register_error {r next : Registry} {name message : String} {failure : Failure}
    (h : r.register name message = (.error failure, next)) :
    failure = .nameConflict name ∧ next = r := by
  rw [register] at h
  split at h
  case h_1 =>
    split at h
    case isTrue => simp at h
    case isFalse => exact ⟨by simpa using (Prod.mk.inj h).1.symm, (Prod.mk.inj h).2.symm⟩
  case h_2 => simp at h

/-! ## Registering several conditions -/

/-- Registering conditions one by one, all of them accepted, leads from one registry to another. -/
inductive Accepts : Registry → List (String × String) → Registry → Prop where
  | nil (r : Registry) : Accepts r [] r
  | cons {r next last : Registry} {name message : String} {id : Int}
    {rest : List (String × String)} (first : r.register name message = (.ok id, next))
    (others : Accepts next rest last) : Accepts r ((name, message) :: rest) last

/-- Several conditions at once are accepted if they are accepted one by one. -/
theorem registerAll_ok_iff {r last : Registry} {conditions : List (String × String)} :
    r.registerAll conditions = (.ok (), last) ↔ Accepts r conditions last := by
  constructor
  · intro h
    induction conditions generalizing r with
    | nil =>
      obtain rfl : r = last := congrArg Prod.snd h
      exact .nil r
    | cons condition rest ih =>
      -- only if the first is accepted, the others are registered, in what it leads to
      rw [registerAll] at h
      split at h
      case h_1 id next hregister => exact .cons hregister (ih h)
      case h_2 => simp at h
  · intro h
    induction h with
    | nil r => rfl
    | cons first _ ih => rw [registerAll, first]; exact ih

/-- Several conditions at once are refused at the first of them that is refused: those before it
stay registered, and those behind it are not looked at. -/
theorem registerAll_error_iff {r last : Registry} {conditions : List (String × String)}
    {failure : Failure} :
    r.registerAll conditions = (.error failure, last) ↔
      ∃ front name message back, conditions = front ++ (name, message) :: back ∧
        Accepts r front last ∧ last.register name message = (.error failure, last) := by
  constructor
  · intro h
    induction conditions generalizing r with
    | nil => simp [registerAll] at h
    | cons condition rest ih =>
      rw [registerAll] at h
      split at h
      case h_1 id next hregister =>
        obtain ⟨front, name, message, back, rfl, hfront, hrefused⟩ := ih h
        exact ⟨_ :: front, name, message, back, rfl, .cons hregister hfront, hrefused⟩
      case h_2 cause next hregister =>
        obtain ⟨hcause, rfl⟩ := Prod.mk.inj h
        cases hcause
        obtain ⟨-, rfl⟩ := register_error hregister
        exact ⟨[], condition.1, condition.2, rest, rfl, .nil _, hregister⟩
  · rintro ⟨front, name, message, back, rfl, hfront, hrefused⟩
    induction hfront with
    | nil => rw [List.nil_append, registerAll, hrefused]
    | cons first _ ih => rw [List.cons_append, registerAll, first]; exact ih hrefused

/-! ## What stays -/

theorem isPrefix_calls (r : Registry) (cs : List Call) :
    r.conditions <+: (r.calls cs).conditions := by
  refine calls_induction (P := fun r' => r.conditions <+: r'.conditions) ?_ List.prefix_rfl cs
  intro r' name message h
  rcases register_snd r' name message with hsame | ⟨-, happend⟩
  · rwa [hsame]
  · rw [happend]
    exact h.trans (List.prefix_append _ _)

/-- What a registry keeps of an earlier one: its conditions at their places, all that was found in
it, and the ids of failures whose names were found.  The failures of the library are among these
from the start. -/
structure Kept (r r' : Registry) : Prop where
  conditions : r.conditions <+: r'.conditions
  byName : ∀ name condition, r.findByName name = .ok condition →
    r'.findByName name = .ok condition
  byId : ∀ id condition, r.findById id = .ok condition → r'.findById id = .ok condition
  id : ∀ failure : Failure, failure.name ∈ r.names → failure.id r' = failure.id r
  own : ∀ failure : Failure, (∀ name message, failure ≠ .custom name message) →
    failure.id r' = failure.id r ∧ failure.id r < 0

theorem Reachable.kept {r : Registry} (h : r.Reachable) {r' : Registry} (h' : r'.Reachable)
    (hfront : r.conditions <+: r'.conditions) : r.Kept r' := by
  have hfound := h.numbered.found
  have hfound' := h'.numbered.found
  have hid (failure : Failure) (hname : failure.name ∈ r.names) :
      failure.id r' = failure.id r := by
    -- the condition of this name is still there, and no later one has the name
    obtain ⟨condition, hmem, hcondition⟩ := mem_names_iff.mp hname
    rw [Failure.id_eq_of_byName? (h.numbered.byName?_eq_some_iff.mpr ⟨hmem, hcondition⟩),
      Failure.id_eq_of_byName?
        (h'.numbered.byName?_eq_some_iff.mpr ⟨hfront.subset hmem, hcondition⟩)]
  refine ⟨hfront, ?byName, ?byId, hid, ?own⟩
  case byName =>
    intro name condition hok
    obtain ⟨hmem, hname⟩ := (hfound.byName name condition).mp hok
    exact (hfound'.byName name condition).mpr ⟨hfront.subset hmem, hname⟩
  case byId =>
    intro id condition hok
    obtain ⟨hmem, hcondition⟩ := (hfound.byId id condition).mp hok
    exact (hfound'.byId id condition).mpr ⟨hfront.subset hmem, hcondition⟩
  case own =>
    intro failure hown
    -- the names of the library's failures are among those that every registry starts with
    have hname : failure.name ∈ r.names := by
      apply h.builtin_isPrefix.subset
      rw [builtin, List.append_assoc, List.map_append]
      exact List.mem_append_right _ (Failure.name_mem_own hown)
    exact ⟨hid failure hname, Failure.id_neg h hown⟩

/-! ## Every sequence of calls -/

/-- Registries are reliable whatever is registered: ids count down from 7 and names differ, and as
long as there are fewer than 2^31 conditions the ids fit in 32 bits; looking up by name and by id
are inverse to each other on what is registered and fail on everything else; registering has its
three outcomes; several conditions are registered one by one, up to the first that is refused; and
later calls change nothing of what is there. -/
theorem calls_reliable (before later : List Call) :
    (fresh.calls before).Numbered ∧
      ((fresh.calls before).conditions.length < 2 ^ 31 →
        -2 ^ 31 ≤ (fresh.calls before).nextId ∧
          ∀ condition ∈ (fresh.calls before).conditions, -2 ^ 31 ≤ condition.id) ∧
      (fresh.calls before).Found ∧
      (∀ condition, (fresh.calls before).findByName condition.name = .ok condition ↔
        (fresh.calls before).findById condition.id = .ok condition) ∧
      (fresh.calls before).Registers ∧
      (∀ conditions last, (fresh.calls before).registerAll conditions = (.ok (), last) ↔
        Accepts (fresh.calls before) conditions last) ∧
      (∀ conditions failure last,
        (fresh.calls before).registerAll conditions = (.error failure, last) ↔
          ∃ front name message back, conditions = front ++ (name, message) :: back ∧
            Accepts (fresh.calls before) front last ∧ failure = .nameConflict name ∧
            last.register name message = (.error failure, last)) ∧
      (fresh.calls before).Kept ((fresh.calls before).calls later) := by
  have hreachable := reachable_calls before
  have hnumbered := hreachable.numbered
  have hfound := hnumbered.found
  refine ⟨hnumbered, ?range, hfound, ?inverse, hnumbered.registers,
    fun _ _ => registerAll_ok_iff, ?refused, ?kept⟩
  case range =>
    intro hfew
    refine ⟨by rw [hnumbered.next]; omega, fun condition hmem => ?_⟩
    obtain ⟨place, hplace⟩ := List.mem_iff_getElem?.mp hmem
    have hlast := (List.getElem?_eq_some_iff.mp hplace).1
    rw [hnumbered.id place condition hplace]
    omega
  case inverse =>
    intro condition
    rw [hfound.byName, hfound.byId]
    simp
  case refused =>
    intro conditions failure last
    rw [registerAll_error_iff]
    refine exists_congr fun front => exists_congr fun name => exists_congr fun message =>
      exists_congr fun back => and_congr_right fun _ => and_congr_right fun _ => ?_
    exact ⟨fun hrefused => ⟨(register_error hrefused).1, hrefused⟩, And.right⟩
  case kept =>
    -- what all calls lead to is reached like any other registry
    refine hreachable.kept ?_ (isPrefix_calls _ later)
    rw [← calls_append]
    exact reachable_calls (before ++ later)

end Registry

end Custody
