import Custody.Proofs.Memory.Accounts
import Custody.Memory.Build

/-!
# The accounts of the reference host

What each entry of the table of the reference host, and each way in which the host makes objects by
itself, does to the accounts of the memory.  A refusal moves nothing; an object that is given is a
new root; a release takes a root away, and is never a double one where the root is one.
-/

namespace Custody

namespace Memory

variable {m : Memory} {roots : Multiset Nat}

namespace Accounted

/-! ## What does not move the accounts -/

theorem count (h : m.Accounted roots) {f : Counters → Counters}
    (hclean : (f m.counters).doubleFrees = m.counters.doubleFrees) : (m.count f).Accounted roots :=
  h.congr (fun _ => .rfl) (fun _ _ => .rfl) rfl (fun _ _ => rfl) hclean

/-- Arming and disarming failures. -/
theorem arm (h : m.Accounted roots) (allocation clone conversions : Bool) :
    { m with
      failNextAllocation := allocation
      failNextClone := clone
      failConversions := conversions }.Accounted roots :=
  h.congr (fun _ => .rfl) (fun _ _ => .rfl) rfl (fun _ _ => rfl) rfl

/-- Replacing an object by another, where neither or both are the same list. -/
theorem modifyObject (h : m.Accounted roots) {id : Nat} {f : Object → Object}
    (hlists : ∀ object l, m.object? id = some object → (f object = .list l ↔ object = .list l)) :
    (m.modifyObject id f).Accounted roots := by
  refine h.congr (fun other => ?_) (fun other l => ?_) rfl (fun other _ => ?_) rfl
  · rw [Live, Live, object?_modifyObject]
    split
    · rw [Option.isSome_map]
    · rfl
  · rw [object?_modifyObject]
    split
    case isTrue hother =>
      subst hother
      cases hobject : m.object? id with
      | none => rfl
      | some object =>
        rw [Option.map_some, Option.some.injEq, Option.some.injEq]
        exact hlists object l hobject
    case isFalse => rfl
  · rw [shares_ofId, shares_ofId, getElem?_modifyObject]
    split
    · cases m.allocations[other]? <;> rfl
    · rfl

/-- Writing into a buffer. -/
theorem setStorage (h : m.Accounted roots) (handle : Handle) (storage : Storage) :
    (m.setStorage handle storage).Accounted roots := by
  unfold Memory.setStorage
  cases handle.id? with
  | none => exact h
  | some id =>
    apply h.modifyObject
    intro object l _
    cases object <;> simp [Object.setStorage]

/-! ## Releasing -/

/-- A root that is freed is a root no longer. -/
theorem free {root : Nat} (h : m.Accounted (root ::ₘ roots)) :
    (m.free (.ofId root)).Accounted roots := by
  have hlive := h.live_of_root (Multiset.mem_cons_self root roots)
  refine h.cut (kills_free hlive) (fun id _ => ?_) ?_
  · rw [free_of_live hlive]
    exact shares_clearAll m _ (.ofId id)
  · rw [counters_free hlive]

/-- Nothing that is live has a share left, so giving one up kills. -/
theorem kills_disown {root : Nat} (h : m.Accounted (root ::ₘ roots)) :
    m.Kills (m.reach root) (m.disown (.ofId root)) := by
  have hlive := h.live_of_root (Multiset.mem_cons_self root roots)
  -- the count is 0, so lowered by one it is below every count that keeps an object
  have hkills := Memory.kills_disown hlive (by rw [h.unshared root hlive]; decide)
  rwa [h.unshared root hlive, if_pos (by decide)] at hkills

/-- A root that is disowned is a root no longer. -/
theorem disown {root : Nat} (h : m.Accounted (root ::ₘ roots)) :
    (m.disown (.ofId root)).Accounted roots := by
  have hlive := h.live_of_root (Multiset.mem_cons_self root roots)
  refine h.cut h.kills_disown (fun id hid => ?_) ?_
  · have hother : Handle.ofId id ≠ .ofId root := by
      intro hsame
      obtain rfl := Handle.ofId_injective hsame
      exact hid (.root hlive)
    rw [shares_disown hlive, if_neg hother]
  · rw [counters_disown hlive]

end Accounted

/-! ## Appending -/

theorem nestedCategory?_code (kind : ArgumentKind) :
    nestedCategory? kind.code = kind.category? := by
  cases kind <;> rfl

/-- A list appends a node or leaves everything as it is. -/
theorem addNode_cases (m : Memory) (list : Nat) (name : Option Text.Bytes) (code : Int)
    (value : Payload) :
    m.addNode list name code value = (false, m) ∨
      (∃ l, m.object? list = some (.list l)) ∧
        m.addNode list name code value = (true, m.pushNode ⟨list, name, code, value⟩) := by
  unfold addNode
  split
  case h_1 l hl =>
    split
    · exact .inr ⟨⟨l, hl⟩, rfl⟩
    · exact .inl rfl
  case h_2 => exact .inl rfl

/-- A list does not append itself. -/
theorem addNode_self (m : Memory) (list : Nat) (name : Option Text.Bytes) {kind : ArgumentKind}
    (hkind : kind.category? ≠ none) :
    m.addNode list name kind.code (.handle (.ofId list)) = (false, m) := by
  unfold addNode
  split
  case h_1 l hl =>
    have hrefused : m.storable list kind.code (.handle (.ofId list)) = false := by
      cases kind <;>
        simp_all [storable, ArgumentKind.category?, ArgumentKind.ofCode?, ArgumentKind.all,
          ArgumentKind.code, Payload.asHandle, find?_ofId, Object.category]
    rw [if_neg (by simp [hrefused])]
  case h_2 => rfl

namespace Accounted

variable {list : Nat} {name : Option Text.Bytes} {code : Int}

/-- A plain value moves nothing. -/
theorem addNode_plain (h : m.Accounted roots) (hcode : nestedCategory? code = none)
    (value : Payload) : (m.addNode list name code value).2.Accounted roots := by
  rcases addNode_cases m list name code value with hrefused | ⟨⟨l, hl⟩, hadded⟩
  · rwa [hrefused]
  · have hnone : nestedIn ⟨list, name, code, value⟩ = none := by simp [nestedIn, hcode]
    rw [hadded]
    apply pushNode _ hl (fun hnested => absurd hcode hnested)
    · intro held hheld
      rw [hnone] at hheld
      cases hheld
    · rwa [hnone, Option.toList_none, Multiset.coe_nil, zero_add]

/-- An object that a root accepts goes from the roots to the nodes. -/
theorem addNode_object {held : Nat} (h : m.Accounted (held ::ₘ roots)) (hlist : list ∈ roots)
    (hcode : nestedCategory? code ≠ none) :
    (m.addNode list name code (.handle (.ofId held)) = (false, m)) ∨
      ∃ m', m.addNode list name code (.handle (.ofId held)) = (true, m') ∧ m'.Accounted roots := by
  rcases addNode_cases m list name code (.handle (.ofId held)) with hrefused | ⟨⟨l, hl⟩, hadded⟩
  · exact .inl hrefused
  · obtain ⟨category, hcategory⟩ := Option.ne_none_iff_exists'.mp hcode
    have hnested : nestedIn ⟨list, name, code, .handle (.ofId held)⟩ = some held := by
      simp [nestedIn, hcategory, Payload.asHandle]
    refine .inr ⟨_, hadded, pushNode ?_ hl (fun _ => ⟨held, hnested⟩) fun _ _ => hlist⟩
    rwa [hnested]

end Accounted

/-- A library that appends a plain value, under whatever handle, moves nothing. -/
theorem Accounted.reference_addNode_plain (h : m.Accounted roots) (list : Handle)
    (name : Option Text.Bytes) {code : Int} (hcode : nestedCategory? code = none)
    (value : Payload) : (Host.reference.addNode list name code value m).2.Accounted roots := by
  cases hid : list.id? with
  | none => simpa only [Host.reference, hid] using h
  | some id => simpa only [Host.reference, hid] using h.addNode_plain hcode value

/-- The host appends a node to a list by itself as a library does, or not at all. -/
theorem buildNode_cases (m : Memory) (list : Handle) (name : Option String) (kind : ArgumentKind)
    (value : Payload) :
    m.buildNode list name kind value = (false, m) ∨
      ∃ id bytes, list = .ofId id ∧
        m.buildNode list name kind value = m.addNode id bytes kind.code value := by
  unfold buildNode
  split
  case h_1 id bytes hid hbytes =>
    exact .inr ⟨id, bytes, Handle.id?_eq_some_iff.mp hid, rfl⟩
  case h_2 => exact .inl rfl

/-! ## Giving objects -/

/-- The answer to a request for an object: the object is a new root, or nothing has moved. -/
def Offered (roots : Multiset Nat) : Option Handle × Memory → Prop
  | (some h, m) => ∃ id, h = .ofId id ∧ m.Accounted (id ::ₘ roots)
  | (none, m) => m.Accounted roots

namespace Accounted

theorem allocate (h : m.Accounted roots) {object : Option Object}
    (hleaf : ∀ l, object = some (.list l) → l.nodes = []) : Offered roots (m.allocate object) := by
  unfold Memory.allocate
  split
  · exact h.arm false m.failNextClone m.failConversions
  · cases object with
    | none => exact h
    | some object =>
      have hissued := h.issue fun l hl => hleaf l (congrArg some hl)
      exact ⟨_, rfl, hissued.count rfl⟩

theorem allocateImage (h : m.Accounted roots) (request : ImageRequest) :
    Offered roots (m.allocateImage request) := by
  unfold Memory.allocateImage
  split
  · exact h
  · apply h.allocate
    intro l hl
    simp at hl

theorem issueConverted (h : m.Accounted roots) {object : Option Object}
    (hleaf : ∀ l, object ≠ some (.list l)) : Offered roots (m.issueConverted object) := by
  unfold Memory.issueConverted
  split
  · exact h
  · cases object with
    | none => exact h
    | some object =>
      have hissued := h.issue fun l hl => absurd (congrArg some hl) (hleaf l)
      exact ⟨_, rfl, hissued.count rfl⟩

/-- A copy is refused, or made of the whole object. -/
theorem cloneIf (h : m.Accounted roots) (accepts : Object → Bool) (handle : Handle) :
    Offered roots (m.cloneIf accepts handle) := by
  by_cases harmed : m.failNextClone = true
  · rw [Memory.cloneIf, if_pos harmed]
    exact h.arm m.failNextAllocation false m.failConversions
  · cases hfound : (m.find? handle).filter accepts with
    | none =>
      have hrefused : m.cloneIf accepts handle = (none, m) := by
        rw [Memory.cloneIf, if_neg harmed, hfound]
        cases handle.id? <;> rfl
      rwa [hrefused]
    | some object =>
      obtain ⟨hobject, haccepts⟩ := Option.filter_eq_some_iff.mp hfound
      obtain ⟨id, hid, hplace⟩ := Option.bind_eq_some_iff.mp hobject
      obtain rfl := Handle.id?_eq_some_iff.mp hid
      obtain ⟨unfolding, m', hunfold, hcopy, hcopied⟩ := h.exists_copy (Live.of_object hplace)
      rw [cloneIf_of_object (by simpa using harmed) hplace haccepts, hcopy]
      exact ⟨_, rfl, (h.copied hunfold hcopied).count rfl⟩

end Accounted

/-! ## Objects that the host makes by itself -/

/-- The ways in which a host makes an object by itself, and the memory then.  An object that was
issued before a mistake was noticed stays issued. -/
inductive Builds (m : Memory) : Memory → Prop where
  | array (category : ArrayCategory) (code : Int) (extents : List Int) (width : Nat)
    (values : List (BitVec (8 * width))) :
    Builds m (m.buildArray category code extents width values).2
  | blankImage (code slices width height channels : Int) :
    Builds m (m.buildBlankImage code slices width height channels).2
  | image (kind : PixelKind) (slices width height channels : Int) (colorSpace : ColorSpace)
    (interleaved : Bool) (values : List kind.element.Word) :
    Builds m (m.buildImage kind slices width height channels colorSpace interleaved values).2
  | list : Builds m m.buildList.2

/-- However the host goes about it, at most one object is issued, and a list is issued empty. -/
theorem Builds.eq_or_issue {m' : Memory} (h : m.Builds m') :
    m' = m ∨ ∃ object : Object, (∀ l, object = .list l → l.nodes = []) ∧
      m' = (m.issue object).2 := by
  cases h with
  | array category code extents width values =>
    unfold buildArray
    cases ArrayObject.sized? category code extents width with
    | none => exact .inl rfl
    | some a =>
      simp only
      split
      · refine .inr ⟨.array { a with storage := a.storage.writeFrom width 0 values }, by simp, ?_⟩
        simp only [issue_fst, setStorage, Handle.id?_ofId]
        exact modifyObject_issue m _ _
      · exact .inr ⟨.array a, by simp, rfl⟩
  | blankImage code slices width height channels =>
    unfold buildBlankImage
    cases ImageObject.zeroed? code slices height width channels ColorSpace.undefined.code true with
    | none => exact .inl rfl
    | some image => exact .inr ⟨.image image, by simp, rfl⟩
  | image kind slices width height channels colorSpace interleaved values =>
    unfold buildImage buildBlankImage
    cases ImageObject.zeroed? kind.code slices height width channels ColorSpace.undefined.code
        true with
    | none => exact .inl rfl
    | some image =>
      simp only
      split
      · exact .inr ⟨.image image, by simp, rfl⟩
      · split
        · -- the image is given its values and its layout in the place where it was issued
          simp only [issue_fst, Handle.id?_ofId, Option.map_some, Option.getD_some]
          rw [modifyObject_issue]
          exact .inr ⟨_, by simp, rfl⟩
        · exact .inr ⟨.image image, by simp, rfl⟩
  | list => exact .inr ⟨.list ⟨[]⟩, by rintro l ⟨⟩; rfl, rfl⟩

/-- What the host makes by itself is a new root. -/
theorem Accounted.builds (h : m.Accounted roots) {m' : Memory} (hbuilds : m.Builds m') :
    m'.Accounted ((m.issuedUntil m').val + roots) := by
  rcases hbuilds.eq_or_issue with rfl | ⟨object, hempty, rfl⟩
  · rwa [issuedUntil, Finset.Ico_self, Finset.empty_val, zero_add]
  · rw [issuedUntil, size_issue, Nat.Ico_succ_singleton, Finset.singleton_val,
      Multiset.singleton_add]
    exact h.issue hempty

end Memory

end Custody
