import Custody.Call.Arguments
import Custody.Proofs.Call.TextResult
import Custody.Proofs.Journal.DropOrder
import Custody.Proofs.Journal.Heirs

/-!
# Texts cross unchanged or not at all

Texts cross between library and host as arguments and results of calls, as names and values in
lists, and as the names of symbols.  On every way the library writes a text down before it touches
anything else.  So a text without NUL is the same on the other side, for as long as it is kept there
(`Text.CrossesUnchanged`), and a text with a NUL leaves nothing behind but the failure
(`Text.Refused`).

An append looks at its kind, at its handle and at the list before it looks at the name; these can be
what it fails for.  A container is used up by an append however that ends, so the refusal of a name
releases what the container stands for.

- `Arguments.text_eq_ok_iff`: an argument is read as the text whose bytes it holds.
- `Container.push_plain_eq_ok_iff`: when a list accepts a plain value.
- `Container.pushAs_of_firstNul`, `Container.push_container_of_firstNul`: names with a NUL.
- `texts_cross_unchanged_or_not_at_all`: all the ways, for all texts.
-/

namespace Custody

open SessionM Memory Text

/-! ## Arguments -/

theorem Arguments.text_eq_ok_iff {args : Arguments} {index : Nat} {bytes : Bytes} {s : String}
    (h : args.payloads[index]? = some (.text bytes)) :
    args.text index = .ok s ↔ bytes = utf8 s := by
  have hpayload : args.payload index = .ok (.text bytes) := by rw [payload, h]
  have htext : args.text index = (decode bytes).mapError fun flaw => .badText flaw.reason := by
    rw [text, hpayload]
    rfl
  rw [htext, ← decode_eq_ok_iff]
  cases decode bytes <;> simp [Except.mapError]

/-! ## Values -/

namespace Plain

theorem payload_of_firstNul {s : String} {position : Nat} (h : FirstNul s position) :
    (text s).payload = .error (.badText (Flaw.nul position).reason) := by
  rw [payload, h.encodeText_eq]
  rfl

/-- Lists may store all plain values. -/
theorem storable_stored (value : Plain) (m : Memory) (list : Nat) :
    m.storable list value.kind.code value.stored = true := by
  cases value <;> rfl

end Plain

namespace Container

variable {k : Container .list} {position : Nat} {s : Session}

/-- A list accepts a plain value if it is live and everything can cross. -/
theorem push_plain_eq_ok_iff (hhost : k.host = .reference) {name : Option String}
    {value : Plain} :
    (∃ s', k.push name (.plain value) s = .ok () s') ↔
      (∃ list l, k.handle = .ofId list ∧ s.memory.object? list = some (.list l)) ∧
        (∀ text ∈ name, Crosses text) ∧ value.Crosses := by
  show (∃ s', k.addPlain name value s = .ok () s') ↔ _
  unfold addPlain
  cases hpayload : value.payload with
  | error cause =>
    -- the value is the first to be written down
    have hnot : ¬ value.Crosses := by
      intro hcrosses
      rw [Plain.payload_eq_ok_iff.mpr ⟨hcrosses, rfl⟩] at hpayload
      cases hpayload
    constructor
    · rintro ⟨s', hok⟩
      cases hok
    · exact fun h => absurd h.2.2 hnot
  | ok p =>
    obtain ⟨hcrosses, rfl⟩ := Plain.payload_eq_ok_iff.mp hpayload
    rw [ofExcept_ok, pure_bind, addNode_eq_ok_iff hhost]
    constructor
    · rintro ⟨list, l, hlist, hl, hname, -⟩
      exact ⟨⟨list, l, hlist, hl⟩, hname, hcrosses⟩
    · rintro ⟨⟨list, l, hlist, hl⟩, hname, -⟩
      exact ⟨list, l, hlist, hl, hname, value.storable_stored s.memory list⟩

/-- A text with a NUL is refused before its name or the list is looked at. -/
theorem push_text_of_firstNul {text : String} (h : FirstNul text position) (name : Option String)
    (s : Session) :
    k.push name (.plain (.text text)) s =
      .error (.failure (.badText (Flaw.nul position).reason)) s := by
  rw [push, addPlain, Plain.payload_of_firstNul h]
  rfl

end Container

/-! ## Names -/

/-- There is something to be stored: a value that can cross, or a handle. -/
def RawItem.Offers : RawItem → Prop
  | plain value => value.Crosses
  | array h | image h | list h => h.isNull = false

namespace Container

variable {k : Container .list} {name : String} {position : Nat} {s : Session}

/-- A name with a NUL is looked at after the list and the kind, and before the host is asked. -/
theorem addNode_of_firstNul (h : FirstNul name position) (hempty : k.isEmpty = false)
    {kind : ArgumentKind} (hkind : (kind.isPrimitive || kind.isWrapper) = true) (value : Payload)
    (s : Session) :
    k.addNode (some name) kind value s =
      .error (.failure (.badText (Flaw.nul position).reason)) s := by
  have hrequire : k.require = .ok k.handle := by
    rw [require, hempty]
    rfl
  have hname : (some name).mapM encodeText = .error (.badText (Flaw.nul position).reason) := by
    show (encodeText name).map some = _
    rw [h.encodeText_eq]
    rfl
  rw [addNode, hrequire, ofExcept_ok, pure_bind, if_pos hkind, hname]
  rfl

theorem addPlain_of_firstNul (h : FirstNul name position) (hempty : k.isEmpty = false)
    {value : Plain} (hvalue : value.Crosses) (s : Session) :
    k.addPlain (some name) value s =
      .error (.failure (.badText (Flaw.nul position).reason)) s := by
  have hkind : (value.kind.isPrimitive || value.kind.isWrapper) = true := by
    cases value <;> rfl
  rw [addPlain, Plain.payload_eq_ok_iff.mpr ⟨hvalue, rfl⟩, ofExcept_ok, pure_bind]
  exact addNode_of_firstNul h hempty hkind _ s

theorem addHandle_of_firstNul (h : FirstNul name position) (hempty : k.isEmpty = false)
    {kind : ArgumentKind} (hkind : kind.isWrapper = true) {handle : Handle}
    (hhandle : handle.isNull = false) (s : Session) :
    k.addHandle (some name) kind handle s =
      .error (.failure (.badText (Flaw.nul position).reason)) s := by
  rw [addHandle, if_neg (by simp [hhandle])]
  exact addNode_of_firstNul h hempty (by simp [hkind]) _ s

/-- Under a kind that it allows, an item is refused for its name. -/
theorem pushAs_of_firstNul (h : FirstNul name position) (hempty : k.isEmpty = false)
    {item : RawItem} (hitem : item.Offers) {kind : ArgumentKind}
    (hallows : item.allows kind = true) (s : Session) :
    k.pushAs (some name) kind item s =
      .error (.failure (.badText (Flaw.nul position).reason)) s := by
  -- only an array goes under a kind that is not its own
  cases item with
  | array handle =>
    have hwrapper : kind.isWrapper = true := hallows
    rw [pushAs, if_pos hwrapper]
    exact addHandle_of_firstNul h hempty hwrapper hitem s
  | plain value =>
    obtain rfl : value.kind = kind := by simpa [RawItem.allows, RawItem.kind?] using hallows
    rw [pushAs_of_kind rfl]
    exact addPlain_of_firstNul h hempty hitem s
  | image handle =>
    obtain rfl : ArgumentKind.image = kind := by
      simpa [RawItem.allows, RawItem.kind?] using hallows
    rw [pushAs_of_kind rfl]
    exact addHandle_of_firstNul h hempty rfl hitem s
  | list handle =>
    obtain rfl : ArgumentKind.dataList = kind := by
      simpa [RawItem.allows, RawItem.kind?] using hallows
    rw [pushAs_of_kind rfl]
    exact addHandle_of_firstNul h hempty rfl hitem s

/-- A container that is refused for its name is dropped. -/
theorem push_container_of_firstNul (h : FirstNul name position) (hempty : k.isEmpty = false)
    {c : Category} {held : Container c} (hheld : held.isEmpty = false) (s : Session) :
    k.push (some name) (.container held) s =
      .error (.failure (.badText (Flaw.nul position).reason))
        { s with memory := held.releaseIn s.memory } := by
  have hkind : c.argumentKind.isWrapper = true := by
    rcases c with ((_ | _) | _) | _ <;> rfl
  have hrefused := addHandle_of_firstNul h hempty hkind hheld s
  rw [push, bind_of_ok (attempt_of_failure hrefused)]
  rfl

private theorem lost_subset_under (m : Memory) (whole : Bool) (h : Handle) :
    m.lost whole h ⊆ m.under h := fun _ ⟨root, hroot, _, hreach⟩ => ⟨root, hroot, hreach⟩

/-- Releasing a container kills nothing but what its handle reaches, and changes nothing else. -/
theorem Fit.exists_kills {c : Category} {held : Container c} (hfit : held.Fit) (m : Memory) :
    ∃ gone ⊆ m.under held.handle, m.Kills gone (held.releaseIn m) := by
  -- nothing is released, or the handle is given up as a whole, or one share of it
  rcases releaseIn_cases hfit m with ⟨-, hsame⟩ | ⟨-, hfreed | hdisowned⟩
  · rw [hsame]
    exact ⟨∅, Set.empty_subset _, .refl m⟩
  · rw [hfreed]
    exact ⟨_, lost_subset_under m true held.handle, kills_giveUp m true held.handle⟩
  · rw [hdisowned]
    exact ⟨_, lost_subset_under m false held.handle, kills_giveUp m false held.handle⟩

end Container

/-! ## Every way across -/

namespace Text

/-- The text is the same on the other side, whichever way it crosses. -/
structure CrossesUnchanged (s : String) : Prop where
  argument : ∀ (args : Arguments) (index : Nat),
    args.payloads[index]? = some (.text (utf8 s)) → args.text index = .ok s
  /-- The host reads the text from the slot, whatever happens, until another text is set. -/
  result : ∀ session slot, ∃ session' slot',
    CallM.setText s ⟨session, slot⟩ = .ok () ⟨session', slot'⟩ ∧
      ∀ n later, Course session' n later →
        slot'.payload? later = if n = 0 then some (.text (utf8 s)) else none
  /-- A live list accepts the text under any name that can cross, and as the name of any value that
  can. -/
  accepted : ∀ (k : Container .list) session list l, k.host = .reference →
    k.handle = .ofId list → session.memory.object? list = some (.list l) →
      (∀ name : Option String, (∀ text ∈ name, Crosses text) →
        ∃ session', k.push name (.plain (.text s)) session = .ok () session') ∧
      ∀ value : Plain, value.Crosses →
        ∃ session', k.push (some s) (.plain value) session = .ok () session'
  /-- Whatever a list accepts under the name, the list and all that descends from it show it under
  the name. -/
  name : ∀ k stored, Journal.HandedDown k (some s) stored fun m n => n.name m = .ok (some s)
  /-- If a list accepts the text as a value, the list and all that descends from it show the
  text. -/
  value : ∀ k name, Journal.HandedDown k name (some (.plain (.text s)))
    fun m n => n.value m = .ok (.plain (.text s))

/-- Whichever way the text was to cross, the cause is the same and nothing has changed, except that
a container that was to go under the name has been released. -/
structure Refused (s : String) (cause : Failure) : Prop where
  result : ∀ state, CallM.setText s state = .error (.failure cause) state
  symbol : ∀ session host, session.host = some host →
    publishConditions s session = .error (.failure cause) session
  value : ∀ (k : Container .list) name session,
    k.push name (.plain (.text s)) session = .error (.failure cause) session ∧
    k.pushRaw name (.plain (.text s)) session = .error (.failure cause) session ∧
    k.pushAs name .text (.plain (.text s)) session = .error (.failure cause) session
  /-- Under the name, plain values that can cross are refused by every list with a handle. -/
  name : ∀ (k : Container .list) session, k.isEmpty = false → ∀ value : Plain, value.Crosses →
    k.push (some s) (.plain value) session = .error (.failure cause) session
  /-- Under the name, so are items that are given by their handles, each under a kind that it
  allows. -/
  nameRaw : ∀ (k : Container .list) session, k.isEmpty = false →
    ∀ item : RawItem, item.Offers →
      (∀ kind, item.allows kind = true →
        k.pushAs (some s) kind item session = .error (.failure cause) session) ∧
      (item.kind?.isSome → k.pushRaw (some s) item session = .error (.failure cause) session)
  /-- Under the name, so are containers with a handle.  What the handle reaches may be released. -/
  nameContainer : ∀ (k : Container .list) session, k.isEmpty = false →
    ∀ {c : Category} (held : Container c), held.isEmpty = false → held.Fit →
      k.push (some s) (.container held) session =
        .error (.failure cause) { session with memory := held.releaseIn session.memory } ∧
      ∃ gone ⊆ session.memory.under held.handle,
        session.memory.Kills gone (held.releaseIn session.memory)

theorem Crosses.unchanged {s : String} (h : Crosses s) : CrossesUnchanged s where
  argument args index hargument := (Arguments.text_eq_ok_iff hargument).mpr rfl
  result session slot := CallM.payload?_of_setText h session slot
  accepted k session list l hhost hlist hl := by
    have haccepts : ∀ (name : Option String) (value : Plain), (∀ text ∈ name, Crosses text) →
        value.Crosses → ∃ session', k.push name (.plain value) session = .ok () session' :=
      fun name value hname hvalue => (Container.push_plain_eq_ok_iff hhost).mpr
        ⟨⟨list, l, hlist, hl⟩, hname, hvalue⟩
    refine ⟨fun name hname => haccepts name (.text s) hname h, fun value hvalue => ?_⟩
    refine haccepts (some s) value ?_ hvalue
    rintro _ ⟨⟩
    exact h
  name k stored := (Journal.handedDown k (some s) stored).imp fun _ _ hshown => hshown.1
  value k name := (Journal.handedDown k name _).imp fun _ _ hshown => hshown.2 _ rfl

theorem FirstNul.refused {s : String} {position : Nat} (h : FirstNul s position) :
    Refused s (.badText (Flaw.nul position).reason) where
  result state := CallM.setText_of_firstNul h state
  symbol session host hhost := by
    rw [publishConditions, bind_of_ok (installedHost_apply hhost)]
    exact setSymbol_of_firstNul host session _ h
  value k name session := by
    have hpush := Container.push_text_of_firstNul (k := k) h name session
    refine ⟨hpush, hpush, ?_⟩
    rw [Container.pushAs_of_kind rfl]
    exact hpush
  name k session hempty value hvalue := Container.addPlain_of_firstNul h hempty hvalue session
  nameRaw k session hempty item hitem := by
    refine ⟨fun kind hallows => Container.pushAs_of_firstNul h hempty hitem hallows session,
      fun hkind => ?_⟩
    obtain ⟨kind, hkind⟩ := Option.isSome_iff_exists.mp hkind
    rw [← Container.pushAs_of_kind hkind]
    exact Container.pushAs_of_firstNul h hempty hitem (by simp [RawItem.allows, hkind]) session
  nameContainer k session hempty _ held hheld hfit :=
    ⟨Container.push_container_of_firstNul h hempty hheld session, hfit.exists_kills session.memory⟩

end Text

/-- **Texts cross unchanged or not at all.**  A text without NUL is the same on the other side,
whichever way it crosses and for as long as it is kept there.  An argument is read exactly if its
bytes are well-formed UTF-8, and they are then the bytes of what is read.  A text with a NUL is
refused, for the first one that it has, before anything has changed. -/
theorem texts_cross_unchanged_or_not_at_all :
    (∀ s, Crosses s → CrossesUnchanged s) ∧
    (∀ (args : Arguments) (index : Nat) (bytes : Bytes),
      args.payloads[index]? = some (.text bytes) →
        ((∃ s, args.text index = .ok s) ↔ bytes.toByteArray.IsValidUTF8) ∧
        ∀ s, args.text index = .ok s → utf8 s = bytes) ∧
    ∀ s, ¬ Crosses s →
      ∃ position, FirstNul s position ∧ Refused s (.badText (Flaw.nul position).reason) := by
  refine ⟨fun s h => h.unchanged, fun args index bytes hargument => ⟨?wellFormed, ?exact⟩,
    fun s h => ?refused⟩
  case wellFormed =>
    rw [← exists_decode_iff]
    exact exists_congr fun s => (Arguments.text_eq_ok_iff hargument).trans decode_eq_ok_iff.symm
  case exact => exact fun s hs => ((Arguments.text_eq_ok_iff hargument).mp hs).symm
  case refused =>
    obtain ⟨position, hnul⟩ := exists_firstNul h
    exact ⟨position, hnul, hnul.refused⟩

/-- A new list holds an integer under a name with umlauts. -/
def umlauts : Session :=
  endState ((Estate.ownList 0).push (some "grüße") (.plain (.integer 5))
    (endState (Container.newList Estate.freshHost)))

/-- The list was copied. -/
def umlautsCopied : Session := endState ((Estate.ownList 0).tryClone umlauts)

/-- The list was released, and the copy is left. -/
def umlautsLeft : Session := endState ((Estate.ownList 0).drop umlautsCopied)

/-- A name with umlauts is read from the copy of a list after the list was released.  A text with a
NUL is not set. -/
theorem umlauts_cross :
    Crosses "grüße" ∧ ¬ Crosses "a\x00b" ∧
      (⟨[.text (utf8 "grüße")]⟩ : Arguments).text 0 = .ok "grüße" ∧
      ¬ umlautsLeft.memory.Live 0 ∧
      (∃ n, ((Estate.ownList 1).nodes umlautsLeft.memory)[0]? = some n ∧
        n.name umlautsLeft.memory = .ok (some "grüße")) ∧
      CallM.setText "a\x00b" ⟨umlauts, .empty⟩ =
        .error (.failure (.badText (Flaw.nul 1).reason)) ⟨umlauts, .empty⟩ := by
  obtain ⟨hunchanged, -, hrefused⟩ := texts_cross_unchanged_or_not_at_all
  have hcrosses : Crosses "grüße" := by decide
  have hnul : ¬ Crosses "a\x00b" := by decide
  refine ⟨hcrosses, hnul, (hunchanged _ hcrosses).argument _ _ rfl, by decide, ?inherited,
    ?notSet⟩
  case inherited =>
    let list := (Estate.ownList 0).any
    have hmade : Journal.Run ∅ (Journal.fresh {} {})
        ⟨endState (Container.newList Estate.freshHost), 0 + {list}, []⟩ :=
      (Journal.Run.refl _).step (.make .newList)
    have hpushed : (Estate.ownList 0).push (some "grüße") (.plain (.integer 5))
        (endState (Container.newList Estate.freshHost)) = .ok () umlauts := rfl
    obtain ⟨id, place, value, hid, hplace, -, hdown⟩ := (hunchanged _ hcrosses).name _ _
      (.push (.plain (.integer 5))) hmade (Multiset.mem_singleton_self _) hpushed
    obtain rfl : 0 = id := Handle.ofId_injective hid
    obtain rfl : 0 = place := Int.natCast_inj.mp hplace
    have hcopied : (Estate.ownList 0).tryClone umlauts =
        .ok (Estate.ownList 1) umlautsCopied := rfl
    have hdescends := fun (ps : List Posting) =>
      Journal.Descends.copied (Journal.Descends.refl (v := ⟨umlauts, {list}, ps⟩))
        (Multiset.mem_singleton_self list) rfl hcopied rfl
    have hswap : (Estate.ownList 1).any ::ₘ {list} = list ::ₘ {(Estate.ownList 1).any} :=
      Multiset.cons_swap _ _ 0
    rw [hswap] at hdescends
    exact hdown _ 1 ((hdescends _).later ((Journal.Run.refl _).step (.drop (Estate.ownList 0))))
      (Estate.ownList 1) _ rfl rfl rfl
  case notSet =>
    obtain ⟨position, hfirst, hnot⟩ := hrefused _ hnul
    obtain rfl : 1 = position := by
      have hone : FirstNul "a\x00b" 1 := by decide
      exact Option.some.inj (hone.symm.trans hfirst)
    exact hnot.result _

/-- What is looked at before a text can be what an append fails for, and a container that is refused
takes along what it stands for, be it the list. -/
theorem refused_before_the_name :
    let k : Container .list := ⟨.ofId 1, .library, .reference⟩
    let again : Container .list := ⟨.ofId 1, .library, .reference⟩
    let abandoned : Container .list := ⟨.null, .library, .reference⟩
    let s : Session := { memory := shelf }
    ¬ Crosses "a\x00b" ∧ k.isEmpty = false ∧ s.memory.Live 1 ∧
      k.pushAs none .integer (.plain (.text "a\x00b")) s =
        .error (.failure (.unstorable ArgumentKind.integer.code)) s ∧
      k.push (some "a\x00b") (.container abandoned) s = .error (.failure .nullNode) s ∧
      ∃ s', k.push (some "a\x00b") (.container again) s =
        .error (.failure (.badText (Flaw.nul 1).reason)) s' ∧ ¬ s'.memory.Live 1 := by
  intro k again abandoned s
  refine ⟨by decide, rfl, by decide, rfl, rfl, ?_⟩
  refine ⟨_, Container.push_container_of_firstNul (by decide) rfl rfl s, by decide⟩

end Custody
