import Custody.Proofs.Memory.Evolve

/-!
# Requests only add

A request for a new object changes nothing that was there before, whether it succeeds or not.
`Memory.Expands` says so of a sequence of changes: only what is new can die again, and each node
that is appended is a copy of another one, in a list that is new and with something new in place of
what the other holds.

Copying a list is such a request on every memory, also where the copy stops half way.  Where it
succeeds, the new list has one node for each node of the source, in the same order
(`Memory.transcribed_copy`).
-/

namespace Custody

/-- An array or an image. -/
def Object.IsBuffer (object : Object) : Prop := ∀ l, object ≠ .list l

/-- What is of the category of a buffer is an array of this category, or an image. -/
theorem Object.buffer_cases {object : Object} {b : BufferCategory}
    (hcategory : object.category = .buffer b) :
    (∃ a, object = .array a ∧ b = .array a.category) ∨ ∃ i, object = .image i ∧ b = .image := by
  cases object with
  | list l => cases hcategory
  | array a => exact .inl ⟨a, rfl, by simpa [Object.category, eq_comm] using hcategory⟩
  | image i =>
    cases hcategory
    exact .inr ⟨i, rfl, rfl⟩

theorem Object.isBuffer_of_category {object : Object} {b : BufferCategory}
    (hcategory : object.category = .buffer b) : object.IsBuffer := by
  rintro l rfl
  cases hcategory

namespace Object.IsBuffer

theorem setStorage {object : Object} (h : object.IsBuffer) (storage : Storage) :
    (object.setStorage storage).IsBuffer := by
  cases object with
  | list l => exact absurd rfl (h l)
  | array a => simp [IsBuffer, Object.setStorage]
  | image i => simp [IsBuffer, Object.setStorage]

theorem exists_storage {object : Object} (h : object.IsBuffer) :
    ∃ storage, object.storage? = some storage := by
  cases object with
  | list l => exact absurd rfl (h l)
  | array a => exact ⟨a.storage, rfl⟩
  | image i => exact ⟨i.storage, rfl⟩

end Object.IsBuffer

namespace Memory

/-! ## Copies of nodes -/

/-- A node that was copied from another, into a list that is new, and with something new in place of
what the other holds. -/
structure CopyOf (base : Nat) (old node : Node) : Prop where
  list : base ≤ node.list
  name : node.name = old.name
  code : node.code = old.code
  plain : nestedCategory? old.code = none → node.value = old.value
  held : nestedCategory? old.code ≠ none → ∃ id, base ≤ id ∧ node.value = .handle (.ofId id)

namespace CopyOf

variable {base base' : Nat} {oldest old node : Node}

theorem trans (h : CopyOf base oldest old) (h' : CopyOf base old node) :
    CopyOf base oldest node where
  list := h'.list
  name := h'.name.trans h.name
  code := h'.code.trans h.code
  plain hplain := (h'.plain (by rwa [h.code])).trans (h.plain hplain)
  held hheld := h'.held (by rwa [h.code])

theorem weaken (h : CopyOf base old node) (hbase : base' ≤ base) : CopyOf base' old node where
  list := hbase.trans h.list
  name := h.name
  code := h.code
  plain := h.plain
  held hheld := by
    obtain ⟨id, hid, hvalue⟩ := h.held hheld
    exact ⟨id, hbase.trans hid, hvalue⟩

/-- A copy names nothing that was there before. -/
theorem nestedIn_ne (h : CopyOf base old node) {id : Nat} (hid : id < base) :
    nestedIn node ≠ some id := by
  intro hnested
  obtain ⟨category, hcategory, hvalue⟩ := Option.bind_eq_some_iff.mp hnested
  have hcode : nestedCategory? old.code ≠ none := by
    rw [← h.code, hcategory]
    exact Option.some_ne_none _
  obtain ⟨other, hother, hhandle⟩ := h.held hcode
  rw [hhandle] at hvalue
  obtain rfl : other = id := by simpa [Payload.asHandle] using hvalue
  omega

end CopyOf

/-! ## Expanding -/

/-- A sequence of changes in which only objects from `base` on die and all nodes that are appended
are copies. -/
structure Expands (base : Nat) (m : Memory) (added : List Node) (gone : Set Nat) (m' : Memory) :
    Prop where
  evolves : m.Evolves added gone m'
  new : ∀ id ∈ gone, base ≤ id
  copied : ∀ node ∈ added, ∃ old ∈ m.nodes.toList, CopyOf base old node

namespace Expands

variable {base base' : Nat} {m m' m'' : Memory} {added more : List Node} {gone dead : Set Nat}

theorem refl (m : Memory) : Expands base m [] ∅ m := ⟨.refl, by simp, by simp⟩

theorem of_quiet (h : m.Evolves [] ∅ m') : Expands base m [] ∅ m' := ⟨h, by simp, by simp⟩

theorem trans (h : Expands base m added gone m') (h' : Expands base m' more dead m'') :
    Expands base m (added ++ more) (gone ∪ dead) m'' where
  evolves := h.evolves.trans h'.evolves
  new id hid := hid.elim (h.new id) (h'.new id)
  copied node hnode := by
    rcases List.mem_append.mp hnode with hnode | hnode
    · exact h.copied node hnode
    · obtain ⟨old, hold, hcopy⟩ := h'.copied node hnode
      -- a copy of a copy is a copy of what was copied first
      rw [h.evolves.nodes_eq, List.mem_append] at hold
      rcases hold with hold | hold
      · exact ⟨old, hold, hcopy⟩
      · obtain ⟨oldest, holdest, hfirst⟩ := h.copied old hold
        exact ⟨oldest, holdest, hfirst.trans hcopy⟩

theorem weaken (h : Expands base m added gone m') (hbase : base' ≤ base) :
    Expands base' m added gone m' where
  evolves := h.evolves
  new id hid := hbase.trans (h.new id hid)
  copied node hnode := by
    obtain ⟨old, hold, hcopy⟩ := h.copied node hnode
    exact ⟨old, hold, hcopy.weaken hbase⟩

end Expands

/-! ## Copying -/

/-- A buffer is copied by issuing it once more. -/
theorem copy_of_buffer {m : Memory} {id : Nat} {object : Object}
    (hobject : m.object? id = some object) (hbuffer : object.IsBuffer) :
    m.copy id = (some m.allocations.size, (m.issue object).2) := by
  have hissued : id < m.allocations.size := (Live.of_object hobject).lt_size
  obtain ⟨depth, hdepth⟩ : ∃ depth, m.allocations.size = depth + 1 :=
    Nat.exists_eq_add_one_of_ne_zero (by omega)
  rw [copy, hdepth, copyWithin, hobject]
  cases object with
  | list l => exact absurd rfl (hbuffer l)
  | array a => rw [← hdepth]; rfl
  | image i => rw [← hdepth]; rfl

/-- What copying an object gives, on any memory.  Where a list was copied, the copy has one node for
each node of the list. -/
structure Transcribed (m : Memory) (id : Nat) (r : Option Nat × Memory) (added : List Node) :
    Prop where
  expands : Expands m.allocations.size m added ∅ r.2
  made : ∀ made, r.1 = some made → made = m.allocations.size ∧ r.2.Live made
  entries : ∀ made l, r.1 = some made → m.object? id = some (.list l) →
    List.Forall₂
      (fun n node => ∃ old, r.2.nodes[n]? = some old ∧ CopyOf m.allocations.size old node)
      l.nodes (added.filter (·.list = made))

/-- An action that, on any memory, copies an object or stops half way. -/
def Transcribes (copy : Nat → Memory → Option Nat × Memory) : Prop :=
  ∀ m id, ∃ added, Transcribed m id (copy id m) added

section Copying

variable {copy : Nat → Memory → Option Nat × Memory} {base target : Nat}

/-- One node copied, or not: what is appended goes to the target or to lists that are newer. -/
private theorem expands_copyNode (hcopy : Transcribes copy)
    {m : Memory} (hbase : base ≤ target) (htarget : target < m.allocations.size) {node : Node}
    (hnode : node ∈ m.nodes.toList) :
    ∃ added, Expands base m added ∅ (copyNode copy target node m).2 ∧
      (∀ new ∈ added, new.list = target ∨ m.allocations.size ≤ new.list) ∧
      ((copyNode copy target node m).1 = true →
        ∃ new, added.filter (·.list = target) = [new] ∧ CopyOf base node new) := by
  cases hcategory : nestedCategory? node.code with
  | none =>
    have hcopied : copyNode copy target node m =
        (true, m.pushNode { node with list := target }) := by simp only [copyNode, hcategory]
    have hnew : CopyOf base node { node with list := target } :=
      { list := hbase
        name := rfl
        code := rfl
        plain := fun _ => rfl
        held := fun hheld => absurd hcategory hheld }
    rw [hcopied]
    refine ⟨[{ node with list := target }], ⟨.append .refl _ htarget, by simp, ?_⟩, by simp,
      fun _ => ⟨_, by simp, hnew⟩⟩
    intro new hmem
    obtain rfl := List.mem_singleton.mp hmem
    exact ⟨node, hnode, hnew⟩
  | some category =>
    cases hid : node.value.asHandle.id? with
    | none =>
      have hcopied : copyNode copy target node m = (false, m) := by
        simp only [copyNode, hcategory, hid]
      rw [hcopied]
      exact ⟨[], .refl m, by simp, by simp⟩
    | some held =>
      obtain ⟨added, transcribed⟩ := hcopy m held
      have hlater : ∀ new ∈ added, m.allocations.size ≤ new.list := by
        intro new hmem
        obtain ⟨old, -, hcopyOf⟩ := transcribed.expands.copied new hmem
        exact hcopyOf.list
      have hexpands := transcribed.expands.weaken (hbase.trans htarget.le)
      have hmade := transcribed.made
      rcases hresult : copy held m with ⟨_ | made, m'⟩
      · have hcopied : copyNode copy target node m = (false, m') := by
          simp only [copyNode, hcategory, hid, hresult]
        rw [hresult] at hexpands
        rw [hcopied]
        exact ⟨added, hexpands, fun new hmem => .inr (hlater new hmem), by simp⟩
      · rw [hresult] at hexpands hmade
        obtain ⟨rfl, -⟩ := hmade made rfl
        let new : Node := { node with list := target, value := .handle (.ofId m.allocations.size) }
        have hcopied : copyNode copy target node m = (true, m'.pushNode new) := by
          simp only [copyNode, hcategory, hid, hresult, new]
        have hnew : CopyOf base node new :=
          { list := hbase
            name := rfl
            code := rfl
            plain := fun hplain => by rw [hcategory] at hplain; cases hplain
            held := fun _ => ⟨_, by omega, rfl⟩ }
        have hissued : target < m'.allocations.size := htarget.trans_le hexpands.evolves.size_le
        -- of what was appended on the way nothing went to the target
        have hother : added.filter (·.list = target) = [] := by
          apply List.filter_eq_nil_iff.mpr
          intro node hmem
          have := hlater node hmem
          simp only [decide_eq_true_eq]
          omega
        rw [hcopied]
        refine ⟨added ++ [new], ⟨.append hexpands.evolves new hissued, by simp, ?_⟩, ?_,
          fun _ => ⟨new, ?_, hnew⟩⟩
        · intro node' hmem
          rcases List.mem_append.mp hmem with hmem | hmem
          · exact hexpands.copied node' hmem
          · obtain rfl := List.mem_singleton.mp hmem
            exact ⟨node, hnode, hnew⟩
        · intro node' hmem
          rcases List.mem_append.mp hmem with hmem | hmem
          · exact .inr (hlater node' hmem)
          · exact .inl (by rw [List.mem_singleton.mp hmem])
        · simp [List.filter_append, hother, new]

/-- Nodes copied up to the first that cannot be copied. -/
theorem expands_copyNodes (hcopy : Transcribes copy)
    (hbase : base ≤ target) (ns : List Nat) {m : Memory} (htarget : target < m.allocations.size) :
    ∃ added, Expands base m added ∅ (copyNodes copy target ns m).2 ∧
      (∀ new ∈ added, new.list = target ∨ m.allocations.size ≤ new.list) ∧
      ((copyNodes copy target ns m).1 = true →
        List.Forall₂ (fun n new => ∃ old, (copyNodes copy target ns m).2.nodes[n]? = some old ∧
          CopyOf base old new) ns (added.filter (·.list = target))) := by
  induction ns generalizing m with
  | nil => exact ⟨[], .refl m, by simp, fun _ => .nil⟩
  | cons n ns ih =>
    cases hnode : m.nodes[n]? with
    | none =>
      have hcopied : copyNodes copy target (n :: ns) m = (false, m) := by
        simp only [copyNodes, hnode]
      rw [hcopied]
      exact ⟨[], .refl m, by simp, by simp⟩
    | some node =>
      have hmem : node ∈ m.nodes.toList :=
        Array.mem_toList_iff.mpr (Array.mem_of_getElem? hnode)
      obtain ⟨added, hexpands, hlists, hnew⟩ := expands_copyNode hcopy hbase htarget hmem
      rcases hresult : copyNode copy target node m with ⟨_ | _, m'⟩
      · have hcopied : copyNodes copy target (n :: ns) m = (false, m') := by
          simp only [copyNodes, hnode, hresult]
        rw [hresult] at hexpands
        rw [hcopied]
        exact ⟨added, hexpands, hlists, by simp⟩
      · have hcopied : copyNodes copy target (n :: ns) m = copyNodes copy target ns m' := by
          simp only [copyNodes, hnode, hresult]
        rw [hresult] at hexpands hnew
        have hsize : m.allocations.size ≤ m'.allocations.size := hexpands.evolves.size_le
        obtain ⟨more, hexpands', hlists', hentries⟩ := ih (htarget.trans_le hsize)
        have hboth := hexpands.trans hexpands'
        rw [Set.union_empty] at hboth
        rw [hcopied]
        refine ⟨added ++ more, hboth, fun new hmem => ?_, fun hok => ?_⟩
        · rcases List.mem_append.mp hmem with hmem | hmem
          · exact hlists new hmem
          · exact (hlists' new hmem).imp_right hsize.trans
        · obtain ⟨new, hfilter, hcopyOf⟩ := hnew rfl
          rw [List.filter_append, hfilter, List.singleton_append]
          exact .cons ⟨node, hboth.evolves.nodesIn n node hnode, hcopyOf⟩ (hentries hok)

end Copying

/-- Copying within any number of levels, whether they are enough or not. -/
theorem transcribes_copyWithin (depth : Nat) : Transcribes (copyWithin depth) := by
  induction depth with
  | zero =>
    intro m id
    exact ⟨[], .refl m, by simp [copyWithin], by simp [copyWithin]⟩
  | succ depth ih =>
    intro m id
    unfold copyWithin
    cases hobject : m.object? id with
    | none => exact ⟨[], .refl m, by simp, by simp⟩
    | some object =>
      rcases list_or_buffer object with ⟨l, rfl⟩ | hbuffer
      · have hissued : m.Evolves [] ∅ (m.issue (.list ⟨[]⟩)).2 :=
          .issue .refl _ (by rintro l ⟨⟩; rfl)
        have htarget : m.allocations.size < (m.issue (.list ⟨[]⟩)).2.allocations.size := by simp
        obtain ⟨added, hexpands, -, hentries⟩ := expands_copyNodes ih le_rfl l.nodes htarget
        have hboth : Expands m.allocations.size m added ∅ _ :=
          ⟨by simpa using hissued.trans hexpands.evolves, by simp, hexpands.copied⟩
        have hmade : (m.issue (.list ⟨[]⟩)).2.Live m.allocations.size := by
          rw [Live, object?_issue_self]
          rfl
        refine ⟨added, ?_⟩
        simp only [issue_fst]
        rcases hresult : copyNodes (copyWithin depth) m.allocations.size l.nodes
          (m.issue (.list ⟨[]⟩)).2 with ⟨_ | _, m'⟩
        · rw [hresult] at hboth
          exact ⟨hboth, by simp, by simp⟩
        · rw [hresult] at hboth hexpands hentries
          refine ⟨hboth, ?_, ?_⟩
          · rintro made ⟨⟩
            exact ⟨rfl, hexpands.evolves.live hmade (Set.notMem_empty _)⟩
          · rintro made l' ⟨⟩ hl'
            obtain rfl : l = l' := by simpa [hobject] using hl'
            exact hentries rfl
      · -- a buffer is issued once more
        have hissued : Expands m.allocations.size m [] ∅ (m.issue object).2 :=
          .of_quiet (.issue .refl object fun l hl => absurd hl (hbuffer l))
        have htranscribed : Transcribed m id (some m.allocations.size, (m.issue object).2) [] := by
          refine ⟨hissued, ?_, ?_⟩
          · rintro made ⟨⟩
            exact ⟨rfl, .of_object (object?_issue_self m object)⟩
          · intro made l _ hl
            exact absurd (Option.some.inj (hobject.symm.trans hl)) (hbuffer l)
        refine ⟨[], ?_⟩
        cases object with
        | list l => exact absurd rfl (hbuffer l)
        | array a => exact htranscribed
        | image i => exact htranscribed

theorem transcribed_copy (m : Memory) (id : Nat) : ∃ added, Transcribed m id (m.copy id) added :=
  transcribes_copyWithin m.allocations.size m id

/-! ## Requests -/

/-- The answer to a request only adds; an object that is given is new and satisfies `P`. -/
structure Answered (P : Object → Prop) (m : Memory) (r : Option Handle × Memory) : Prop where
  expands : ∃ added, Expands m.allocations.size m added ∅ r.2
  given : ∀ h, r.1 = some h → ∃ id object, h = .ofId id ∧ m.allocations.size ≤ id ∧
    r.2.object? id = some object ∧ P object

namespace Answered

variable {P : Object → Prop}

theorem refused {m m' : Memory} (h : m.Evolves [] ∅ m') : Answered P m (none, m') :=
  ⟨⟨[], .of_quiet h⟩, by simp⟩

/-- An object that is issued, and counted in some way. -/
theorem issued (m : Memory) {object : Object} (hempty : ∀ l, object = .list l → l.nodes = [])
    (hP : P object) (f : Counters → Counters) :
    Answered P m (some (.ofId m.allocations.size), (m.issue object).2.count f) := by
  refine ⟨⟨[], .of_quiet (evolves_issued m hempty f)⟩, ?_⟩
  rintro h ⟨⟩
  exact ⟨_, object, rfl, le_rfl, object?_issue_self m object, hP⟩

theorem allocate (m : Memory) {object : Option Object}
    (hempty : ∀ l, object = some (.list l) → l.nodes = []) (hP : ∀ o, object = some o → P o) :
    Answered P m (m.allocate object) := by
  unfold Memory.allocate
  split
  · exact .refused (evolves_arm m false m.failNextClone m.failConversions)
  · cases object with
    | none => exact .refused .refl
    | some object =>
      exact .issued m (fun l hl => hempty l (congrArg some hl)) (hP object rfl) _

/-- A buffer is not a list. -/
theorem allocate_buffer (m : Memory) {object : Option Object}
    (hbuffer : ∀ l, object ≠ some (.list l)) :
    Answered Object.IsBuffer m (m.allocate object) :=
  .allocate m (fun l hl => absurd hl (hbuffer l)) fun o ho l hl => hbuffer l (by rw [ho, hl])

theorem allocateImage (m : Memory) (request : ImageRequest) :
    Answered Object.IsBuffer m (m.allocateImage request) := by
  unfold Memory.allocateImage
  split
  · exact .refused .refl
  · exact .allocate_buffer m (by simp)

theorem issueConverted (m : Memory) {object : Option Object}
    (hbuffer : ∀ l, object ≠ some (.list l)) :
    Answered Object.IsBuffer m (m.issueConverted object) := by
  unfold Memory.issueConverted
  split
  · exact .refused .refl
  · cases object with
    | none => exact .refused .refl
    | some object =>
      have hne : object.IsBuffer := fun l hl => hbuffer l (by rw [hl])
      exact .issued m (fun l hl => absurd hl (hne l)) hne _

/-- A copy, whether it is refused, stops half way, or succeeds. -/
theorem cloneIf (m : Memory) (accepts : Object → Bool) (h : Handle) :
    Answered (fun _ => True) m (m.cloneIf accepts h) := by
  unfold Memory.cloneIf
  split
  · exact .refused (evolves_arm m m.failNextAllocation false m.failConversions)
  · split
    case h_2 => exact .refused .refl
    case h_1 id object hid hobject =>
      obtain ⟨added, transcribed⟩ := transcribed_copy m id
      have hexpands := transcribed.expands
      rcases hresult : m.copy id with ⟨_ | made, m'⟩
      · rw [hresult] at hexpands
        exact ⟨⟨added, hexpands⟩, by simp⟩
      · have hmade := transcribed.made
        rw [hresult] at hexpands hmade
        obtain ⟨rfl, hlive⟩ := hmade made rfl
        obtain ⟨copied, hcopied⟩ := live_iff.mp hlive
        have hcounted : m.Evolves added ∅
            (m'.count fun c => { c with clones := c.clones + 1 }) :=
          hexpands.evolves.then_quiet (evolves_count m' _)
        refine ⟨⟨added, hcounted, hexpands.new, hexpands.copied⟩, ?_⟩
        rintro h ⟨⟩
        exact ⟨_, copied, rfl, le_rfl, hcopied, trivial⟩

end Answered

end Memory

end Custody
