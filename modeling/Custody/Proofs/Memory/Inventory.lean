import Custody.Proofs.Container.Make
import Custody.Proofs.Memory.Shape
import Mathlib.Logic.Relation

/-!
# Where objects come from

`Memory.Evolves` says that a memory changes by elementary changes; here each of them says also what
it makes of what.  Storage is overwritten in place, a copy is a copy of a live object, and a new
object is what the host makes of a request.  What a memory has come to hold can then be followed
back to where it came from.

One thing cannot be seen in an array itself: whether the host built it under a code of its choice,
with elements of eight bytes whatever the code says.  An inventory is a memory with the numbers of
these arrays and of their copies.

- `Inventory.Step`: the elementary changes.
- `Memory.Leads`: one memory leads to another, whatever the inventory of the first is.
- `Memory.leads_cloneIf`, `Memory.Builds.leads` and others: all that a host does is of this kind.
-/

namespace Custody

/-! ## Elementary changes -/

/-- A memory, with the numbers of the arrays that the host built under a code of its choice, and of
their copies. -/
structure Inventory where
  memory : Memory
  coded : Set Nat

/-- An elementary change.  Where it is `strict`, the host builds arrays with elements of the size
that their code asks for, and only numeric arrays are converted as such. -/
inductive Inventory.Step (strict : Prop) : Inventory → Inventory → Prop where
  /-- Neither an object nor a node changes. -/
  | aside {m m' coded} (objects : ∀ id, m'.object? id = m.object? id) (nodes : m'.nodes = m.nodes)
    (size : m'.allocations.size = m.allocations.size) : Step strict ⟨m, coded⟩ ⟨m', coded⟩
  | clear {m coded} (gone : Set Nat) : Step strict ⟨m, coded⟩ ⟨m.clearAll gone, coded⟩
  /-- Elements of a live buffer are overwritten. -/
  | write {m coded id object storage} (hobject : m.object? id = some object)
    (hstorage : object.storage? = some storage) (width index : Nat)
    (values : List (BitVec (8 * width))) :
    Step strict ⟨m, coded⟩
      ⟨m.setStorage (.ofId id) (storage.writeFrom width index values), coded⟩
  | append {m coded} (node : Node) : Step strict ⟨m, coded⟩ ⟨m.pushNode node, coded⟩
  | newArray {m coded category code extents a}
    (h : ArrayObject.zeroed? category code extents = some a) :
    Step strict ⟨m, coded⟩ ⟨(m.issue (.array a)).2, coded⟩
  | newImage {m coded code slices rows columns channels colorSpace interleaved i}
    (h : ImageObject.zeroed? code slices rows columns channels colorSpace interleaved = some i) :
    Step strict ⟨m, coded⟩ ⟨(m.issue (.image i)).2, coded⟩
  | newList {m coded} : Step strict ⟨m, coded⟩ ⟨(m.issue (.list ⟨[]⟩)).2, coded⟩
  /-- A live buffer is copied; the copy comes from where the buffer came from. -/
  | copy {m coded id object} (hobject : m.object? id = some object) (hbuffer : object.IsBuffer) :
    Step strict ⟨m, coded⟩
      ⟨(m.issue object).2, {n | n ∈ coded ∨ n = m.allocations.size ∧ id ∈ coded}⟩
  | convertArray {m coded id a target method tolerance converted}
    (hobject : m.object? id = some (.array a)) (hnumeric : strict → a.category = .numeric)
    (h : a.convert? target method tolerance = some converted) :
    Step strict ⟨m, coded⟩ ⟨(m.issue (.array converted)).2, coded⟩
  | convertImage {m coded id i target interleaved converted}
    (hobject : m.object? id = some (.image i)) (h : i.convert? target interleaved = some converted) :
    Step strict ⟨m, coded⟩ ⟨(m.issue (.image converted)).2, coded⟩
  /-- The host builds an array with elements of any size, whatever its code. -/
  | buildLoose {m coded category code extents width a} (hloose : ¬ strict)
    (h : ArrayObject.sized? category code extents width = some a) :
    Step strict ⟨m, coded⟩ ⟨(m.issue (.array a)).2, coded⟩

/-- Any sequence of elementary changes. -/
abbrev Inventory.Steps (strict : Prop) : Inventory → Inventory → Prop :=
  Relation.ReflTransGen (Step strict)

namespace Memory

/-- Elementary changes lead from one memory to the other, whichever arrays of the first were built
under a code. -/
def Leads (strict : Prop) (m m' : Memory) : Prop :=
  ∀ coded, ∃ coded', Inventory.Steps strict ⟨m, coded⟩ ⟨m', coded'⟩

variable {strict : Prop} {m m' m'' : Memory}

namespace Leads

theorem refl (m : Memory) : m.Leads strict m := fun coded => ⟨coded, .refl⟩

theorem trans (h : m.Leads strict m') (h' : m'.Leads strict m'') : m.Leads strict m'' := by
  intro coded
  obtain ⟨coded', hfirst⟩ := h coded
  obtain ⟨coded'', hthen⟩ := h' coded'
  exact ⟨coded'', hfirst.trans hthen⟩

theorem of_step (h : ∀ coded, ∃ coded', Inventory.Step strict ⟨m, coded⟩ ⟨m', coded'⟩) :
    m.Leads strict m' := by
  intro coded
  obtain ⟨coded', hstep⟩ := h coded
  exact ⟨coded', .single hstep⟩

theorem aside (objects : ∀ id, m'.object? id = m.object? id) (nodes : m'.nodes = m.nodes)
    (size : m'.allocations.size = m.allocations.size) : m.Leads strict m' :=
  of_step fun coded => ⟨coded, .aside objects nodes size⟩

theorem clear (m : Memory) (gone : Set Nat) : m.Leads strict (m.clearAll gone) :=
  of_step fun coded => ⟨coded, .clear gone⟩

theorem append (m : Memory) (node : Node) : m.Leads strict (m.pushNode node) :=
  of_step fun coded => ⟨coded, .append node⟩

theorem count (m : Memory) (f : Counters → Counters) : m.Leads strict (m.count f) :=
  aside (fun _ => rfl) rfl rfl

end Leads

/-! ## Releasing -/

theorem leads_free (m : Memory) (h : Handle) : m.Leads strict (m.free h) := by
  cases hlive : m.isLive h with
  | true =>
    obtain ⟨id, rfl, hid⟩ := isLive_iff.mp hlive
    rw [free_of_live hid]
    exact (Leads.clear m _).trans (.count _ _)
  | false =>
    rw [free_of_not_live hlive]
    exact .count m _

theorem leads_disown (m : Memory) (h : Handle) : m.Leads strict (m.disown h) := by
  cases hlive : m.isLive h with
  | true =>
    obtain ⟨id, rfl, hid⟩ := isLive_iff.mp hlive
    have hlowered : m.Leads strict (m.lowered id) :=
      .aside (by simp [lowered]) (by simp [lowered]) (by simp [lowered, Memory.count])
    rw [disown_of_live hid]
    split
    · exact hlowered.trans (.clear _ _)
    · exact hlowered
  | false =>
    rw [disown_of_not_live hlive]
    exact .count m _

/-! ## Giving objects -/

/-- An object that is asked for is issued, or nothing is. -/
theorem leads_allocate {object : Option Object}
    (h : ∀ o, object = some o → m.Leads strict (m.issue o).2) :
    m.Leads strict (m.allocate object).2 := by
  unfold allocate
  split
  · exact .aside (fun _ => rfl) rfl rfl
  · cases object with
    | none => exact .refl m
    | some o => exact (h o rfl).trans (.count _ fun c => { c with allocations := c.allocations + 1 })

theorem leads_newArray (category : ArrayCategory) (code : Int) (extents : List Int) (m : Memory) :
    m.Leads strict (Host.reference.newArray category code extents m).2 := by
  apply leads_allocate
  intro o ho
  obtain ⟨a, ha, rfl⟩ := Option.map_eq_some_iff.mp ho
  exact .of_step fun coded => ⟨coded, .newArray ha⟩

theorem leads_newImage (request : ImageRequest) (m : Memory) :
    m.Leads strict (Host.reference.newImage request m).2 := by
  show m.Leads strict (m.allocateImage request).2
  unfold allocateImage
  split
  · exact .refl m
  · apply leads_allocate
    intro o ho
    obtain ⟨i, hi, rfl⟩ := Option.map_eq_some_iff.mp ho
    exact .of_step fun coded => ⟨coded, .newImage hi⟩

theorem leads_newList (m : Memory) : m.Leads strict (Host.reference.newList m).2 := by
  apply leads_allocate
  rintro o ⟨⟩
  exact .of_step fun coded => ⟨coded, .newList⟩

/-- An object that something is converted into is issued, or nothing is. -/
theorem leads_issueConverted {object : Option Object}
    (h : ∀ o, object = some o → m.Leads strict (m.issue o).2) :
    m.Leads strict (m.issueConverted object).2 := by
  unfold issueConverted
  split
  · exact .refl m
  · cases object with
    | none => exact .refl m
    | some o => exact (h o rfl).trans (.count _ fun c => { c with conversions := c.conversions + 1 })

theorem array?_eq_some_iff {h : Handle} {a : ArrayObject} :
    m.array? h = some a ↔ m.find? h = some (.array a) := by
  unfold array?
  split <;> simp_all

theorem image?_eq_some_iff {h : Handle} {i : ImageObject} :
    m.image? h = some i ↔ m.find? h = some (.image i) := by
  unfold image?
  split <;> simp_all

/-- Converting an array, which is a numeric one if that is asked for. -/
theorem leads_convertArray {h : Handle}
    (hnumeric : strict → ∀ a, m.find? h = some (.array a) → a.category = .numeric)
    (code method : Int) (tolerance : Number.Double) :
    m.Leads strict (Host.reference.convertArray h code method tolerance m).2 := by
  apply leads_issueConverted
  intro o ho
  obtain ⟨a, ha, ho⟩ := Option.bind_eq_some_iff.mp ho
  obtain ⟨target, -, ho⟩ := Option.bind_eq_some_iff.mp ho
  obtain ⟨method, -, ho⟩ := Option.bind_eq_some_iff.mp ho
  obtain ⟨converted, hconverted, ho⟩ := Option.bind_eq_some_iff.mp ho
  obtain rfl := Option.some.inj ho
  rw [array?_eq_some_iff] at ha
  obtain ⟨id, -, hobject⟩ := find?_eq_some_iff.mp ha
  exact .of_step fun coded =>
    ⟨coded, .convertArray hobject (fun hstrict => hnumeric hstrict a ha) hconverted⟩

theorem leads_convertImage (h : Handle) (code : Int) (interleaved : Bool) (m : Memory) :
    m.Leads strict (Host.reference.convertImage h code interleaved m).2 := by
  apply leads_issueConverted
  intro o ho
  obtain ⟨target, -, ho⟩ := Option.bind_eq_some_iff.mp ho
  obtain ⟨i, hi, ho⟩ := Option.bind_eq_some_iff.mp ho
  obtain ⟨converted, hconverted, ho⟩ := Option.bind_eq_some_iff.mp ho
  obtain rfl := Option.some.inj ho
  obtain ⟨id, -, hobject⟩ := find?_eq_some_iff.mp (image?_eq_some_iff.mp hi)
  exact .of_step fun coded => ⟨coded, .convertImage hobject hconverted⟩

/-! ## Copying -/

section Copying

variable {copy : Nat → Memory → Option Nat × Memory}

private theorem leads_copyNode (hcopy : ∀ id (m : Memory), m.Leads strict (copy id m).2)
    (target : Nat) (node : Node) (m : Memory) : m.Leads strict (copyNode copy target node m).2 := by
  unfold copyNode
  split
  case h_1 => exact .append m _
  case h_2 =>
    split
    case h_1 => exact .refl m
    case h_2 held hid =>
      have hheld := hcopy held m
      -- what is held is copied first, whether the node can be appended then or not
      rcases hresult : copy held m with ⟨_ | made, m'⟩
      · rwa [hresult] at hheld
      · rw [hresult] at hheld
        exact hheld.trans (.append m' _)

private theorem leads_copyNodes (hcopy : ∀ id (m : Memory), m.Leads strict (copy id m).2)
    (target : Nat) (ns : List Nat) (m : Memory) : m.Leads strict (copyNodes copy target ns m).2 := by
  induction ns generalizing m with
  | nil => exact .refl m
  | cons n ns ih =>
    unfold copyNodes
    cases hnode : m.nodes[n]? with
    | none => exact .refl m
    | some node =>
      have hfirst := leads_copyNode hcopy target node m
      rcases hresult : copyNode copy target node m with ⟨_ | _, m'⟩
      · simpa only [hresult] using hfirst
      · simp only [hresult] at hfirst ⊢
        exact hfirst.trans (ih m')

end Copying

/-- Copying within any number of levels, whether they are enough or not. -/
theorem leads_copyWithin (depth id : Nat) (m : Memory) :
    m.Leads strict (copyWithin depth id m).2 := by
  induction depth generalizing id m with
  | zero => exact .refl m
  | succ depth ih =>
    unfold copyWithin
    cases hobject : m.object? id with
    | none => exact .refl m
    | some object =>
      -- a buffer is copied at once; of a list, the copy is issued empty and then filled
      have hbuffer (hbuffer : object.IsBuffer) : m.Leads strict (m.issue object).2 :=
        .of_step fun coded => ⟨_, .copy hobject hbuffer⟩
      cases object with
      | list l =>
        have hissued : m.Leads strict (m.issue (.list ⟨[]⟩)).2 :=
          .of_step fun coded => ⟨coded, .newList⟩
        have hcopied := hissued.trans (leads_copyNodes ih m.allocations.size l.nodes _)
        simp only [issue_fst]
        rcases hresult : copyNodes (copyWithin depth) m.allocations.size l.nodes
          (m.issue (.list ⟨[]⟩)).2 with ⟨_ | _, m'⟩
        · simpa only [hresult] using hcopied
        · simpa only [hresult] using hcopied
      | array a => exact hbuffer (by simp [Object.IsBuffer])
      | image i => exact hbuffer (by simp [Object.IsBuffer])

theorem leads_cloneIf (m : Memory) (accepts : Object → Bool) (h : Handle) :
    m.Leads strict (m.cloneIf accepts h).2 := by
  unfold cloneIf
  split
  · exact .aside (fun _ => rfl) rfl rfl
  · split
    case h_1 id object hid hfound =>
      -- what was copied before a copy failed stays, but the copy is not counted
      have hcopied : m.Leads strict (m.copy id).2 := leads_copyWithin m.allocations.size id m
      rcases hresult : m.copy id with ⟨_ | made, m'⟩
      · simpa only [hresult] using hcopied
      · simp only [hresult] at hcopied ⊢
        exact hcopied.trans (.count m' _)
    case h_2 => exact .refl m

/-! ## Buffers -/

/-- Overwriting elements through a buffer overwrites the storage of a live object, or nothing. -/
theorem leads_writeIn {b : BufferCategory} {kind : b.Kind} (t : Buffer kind)
    (hhost : t.container.host = .reference) (index : Nat) (values : List kind.element.Word)
    (m : Memory) : m.Leads strict (t.writeIn index values m) := by
  rcases t.writeIn_cases hhost index values m with
    hsame | ⟨id, object, storage, hobject, hstorage, hwritten⟩
  · rw [hsame]
    exact .refl m
  · rw [hwritten]
    exact .of_step fun coded => ⟨coded, .write hobject hstorage _ _ _⟩

/-! ## Objects that the host makes by itself -/

/-- The host builds an array, which is then filled in place. -/
theorem leads_buildArray {category : ArrayCategory} {code : Int} {extents : List Int} {width : Nat}
    (h : ∀ a, ArrayObject.sized? category code extents width = some a →
      m.Leads strict (m.issue (.array a)).2) (values : List (BitVec (8 * width))) :
    m.Leads strict (m.buildArray category code extents width values).2 := by
  unfold buildArray
  cases ha : ArrayObject.sized? category code extents width with
  | none => exact .refl m
  | some a =>
    simp only
    split
    · have hissued := object?_issue_self m (.array a)
      exact (h a ha).trans (.of_step fun coded => ⟨coded, .write hissued rfl width 0 values⟩)
    · exact h a ha

theorem leads_buildBlankImage (m : Memory) (code slices width height channels : Int) :
    m.Leads strict (m.buildBlankImage code slices width height channels).2 := by
  unfold buildBlankImage
  cases hi :
    ImageObject.zeroed? code slices height width channels ColorSpace.undefined.code true with
  | none => exact .refl m
  | some i => exact .of_step fun coded => ⟨coded, .newImage hi⟩

/-- The layout of a new image does not matter for what else it is. -/
private theorem zeroed?_layout {code slices rows columns channels colorSpace : Int}
    {interleaved : Bool} {i : ImageObject}
    (h : ImageObject.zeroed? code slices rows columns channels colorSpace interleaved = some i)
    (colorSpace' : Int) (interleaved' : Bool) :
    ImageObject.zeroed? code slices rows columns channels colorSpace' interleaved' =
      some { i with colorSpace := colorSpace', interleaved := interleaved' } := by
  unfold ImageObject.zeroed? at h ⊢
  split at h
  case isTrue => cases h
  case isFalse hextents =>
    rw [if_neg hextents]
    obtain ⟨length, hlength, rfl⟩ := Option.map_eq_some_iff.mp h
    rw [hlength, Option.map_some]

/-- A new image that is filled at once. -/
private theorem leads_issue_filled {code slices rows columns channels colorSpace : Int}
    {interleaved : Bool} {i : ImageObject}
    (h : ImageObject.zeroed? code slices rows columns channels colorSpace interleaved = some i)
    (width index : Nat) (values : List (BitVec (8 * width))) :
    m.Leads strict
      (m.issue (.image { i with storage := i.storage.writeFrom width index values })).2 := by
  have hissued := object?_issue_self m (.image i)
  have hfilled : (m.issue (.image i)).2.setStorage (.ofId m.allocations.size)
      (i.storage.writeFrom width index values) =
        (m.issue (.image { i with storage := i.storage.writeFrom width index values })).2 := by
    rw [setStorage, Handle.id?_ofId]
    exact modifyObject_issue m _ _
  rw [← hfilled]
  exact (Leads.of_step fun coded => ⟨coded, .newImage h⟩).trans
    (.of_step fun coded => ⟨coded, .write hissued rfl width index values⟩)

theorem leads_buildImage (m : Memory) (kind : PixelKind) (slices width height channels : Int)
    (colorSpace : ColorSpace) (interleaved : Bool) (values : List kind.element.Word) :
    m.Leads strict
      (m.buildImage kind slices width height channels colorSpace interleaved values).2 := by
  have hblank : m.Leads strict (m.buildBlankImage kind.code slices width height channels).2 :=
    leads_buildBlankImage m kind.code slices width height channels
  unfold buildImage
  unfold buildBlankImage at hblank ⊢
  cases hi : ImageObject.zeroed? kind.code slices height width channels
      ColorSpace.undefined.code true with
  | none => exact .refl m
  | some i =>
    rw [hi] at hblank
    simp only
    split
    · exact hblank
    case h_2 image himage =>
      split
      · -- the image might have been issued with its layout, and then filled
        have hissued : image = i := by
          rw [image?_eq_some_iff, issue_fst, find?_ofId, object?_issue_self] at himage
          exact (Object.image.inj (Option.some.inj himage)).symm
        subst hissued
        simp only [issue_fst, Handle.id?_ofId, Option.map_some, Option.getD_some]
        rw [modifyObject_issue]
        exact leads_issue_filled (zeroed?_layout hi colorSpace.code interleaved) _ _ values
      · exact hblank

theorem leads_buildList (m : Memory) : m.Leads strict m.buildList.2 :=
  .of_step fun coded => ⟨coded, .newList⟩

/-- The ways in which a host builds an object by itself whose elements have the size that their code
asks for. -/
inductive BuildsTyped (m : Memory) : Memory → Prop where
  | array {category : ArrayCategory} (kind : (BufferCategory.array category).Kind)
    (extents : List Int) (values : List kind.element.Word) :
    BuildsTyped m (m.buildArray category kind.code extents kind.element.size values).2
  | blankImage (code slices width height channels : Int) :
    BuildsTyped m (m.buildBlankImage code slices width height channels).2
  | image (kind : PixelKind) (slices width height channels : Int) (colorSpace : ColorSpace)
    (interleaved : Bool) (values : List kind.element.Word) :
    BuildsTyped m
      (m.buildImage kind slices width height channels colorSpace interleaved values).2
  | list : BuildsTyped m m.buildList.2

theorem BuildsTyped.leads (h : m.BuildsTyped m') : m.Leads strict m' := by
  cases h with
  | @array category kind extents values =>
    refine leads_buildArray (fun a ha => ?_) values
    have hzeroed : ArrayObject.zeroed? category kind.code extents = some a := by
      rw [ArrayObject.zeroed?, ArrayObject.elementSize?_code, Option.bind_some, ha]
    exact .of_step fun coded => ⟨coded, .newArray hzeroed⟩
  | blankImage code slices width height channels =>
    exact leads_buildBlankImage m code slices width height channels
  | image kind slices width height channels colorSpace interleaved values =>
    exact leads_buildImage m kind slices width height channels colorSpace interleaved values
  | list => exact leads_buildList m

theorem Builds.leads (hloose : ¬ strict) (h : m.Builds m') : m.Leads strict m' := by
  cases h with
  | array category code extents width values =>
    exact leads_buildArray (fun a ha => .of_step fun coded => ⟨coded, .buildLoose hloose ha⟩) values
  | blankImage code slices width height channels =>
    exact leads_buildBlankImage m code slices width height channels
  | image kind slices width height channels colorSpace interleaved values =>
    exact leads_buildImage m kind slices width height channels colorSpace interleaved values
  | list => exact leads_buildList m

end Memory

end Custody
