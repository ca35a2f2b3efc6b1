import Custody.Proofs.Container.Shape
import Custody.Proofs.Memory.Continue
import Custody.Proofs.Journal.Inventory

/-!
# Shapes of all that is live

Wherever an object comes from, its extents, its length and its storage agree.  Each elementary
change keeps this of an inventory (`Inventory.Step.sound`), and what a library and its host do is a
sequence of elementary changes, as long as handles are wrapped as containers of their own category
(`Journal.Reached`).

Arrays that the host built under a code of its choice have elements of eight bytes, whatever the
code says, and so have their copies.  Which ones these are is followed from state to state
(`Journal.Arises`).
-/

namespace Custody

open SessionM Memory

/-! ## Inventories -/

/-- What stays of an object includes its shape. -/
theorem Object.Shaped.continues {coded : Prop} {object object' : Object}
    (h : object.Shaped coded) (hcontinues : object.Continues object') : object'.Shaped coded := by
  cases hcontinues with
  | list l more => exact h
  | image i hsize => exact ⟨h.1, h.2.setStorage hsize⟩
  | array a hsize =>
    refine ⟨fun hcoded => (h.1 hcoded).setStorage hsize, fun hcoded => ?_⟩
    obtain ⟨size, hcode, hshaped⟩ := h.2 hcoded
    exact ⟨size, hcode, hshaped.setStorage hsize⟩

namespace Inventory

/-- Whatever is live has its shape, and what was built under a code has been issued. -/
structure Sound (x : Inventory) : Prop where
  issued : ∀ id ∈ x.coded, id < x.memory.allocations.size
  shaped : ∀ id object, x.memory.object? id = some object → object.Shaped (id ∈ x.coded)

variable {m : Memory} {coded coded' : Set Nat}

/-- The next number is none that was built under a code. -/
theorem Sound.size_notMem (h : Sound ⟨m, coded⟩) : m.allocations.size ∉ coded := fun hcoded =>
  absurd (h.issued _ hcoded) (lt_irrefl _)

/-- One more object, which may itself come from what was built under a code. -/
theorem Sound.issue (h : Sound ⟨m, coded⟩) {object : Object}
    (hissued : ∀ n ∈ coded', n ≤ m.allocations.size)
    (hbefore : ∀ n < m.allocations.size, n ∈ coded' ↔ n ∈ coded)
    (hobject : object.Shaped (m.allocations.size ∈ coded')) :
    Sound ⟨(m.issue object).2, coded'⟩ where
  issued id hid := by
    rw [size_issue]
    exact Nat.lt_succ_of_le (hissued id hid)
  shaped id other hother := by
    rw [object?_issue] at hother
    split at hother
    case isTrue hnew =>
      obtain rfl := Option.some.inj hother
      rwa [hnew]
    case isFalse =>
      exact (h.shaped id other hother).congr (hbefore id (Live.of_object hother).lt_size)

/-- One more object that is made of what its code says. -/
theorem Sound.issue_plain (h : Sound ⟨m, coded⟩) {object : Object}
    (hobject : object.Shaped False) : Sound ⟨(m.issue object).2, coded⟩ := by
  refine h.issue (fun n hn => (h.issued n hn).le) (fun _ _ => Iff.rfl) (hobject.congr ?_)
  exact iff_false_intro h.size_notMem

/-- Elements are overwritten, nodes are appended, and objects die; none is added. -/
theorem Sound.in_place {m' : Memory} (h : Sound ⟨m, coded⟩)
    (hsize : m'.allocations.size = m.allocations.size) (hcontinues : m.Continues m') :
    Sound ⟨m', coded⟩ where
  issued id hid := hsize.symm ▸ h.issued id hid
  shaped id object' hobject' := by
    have hid : id < m.allocations.size := hsize ▸ (Live.of_object hobject').lt_size
    obtain ⟨object, hobject, hkept⟩ := hcontinues.object id hid object' hobject'
    exact (h.shaped id object hobject).continues hkept

/-- Each elementary change that is strict keeps all shapes. -/
theorem Step.sound {x y : Inventory} (h : Step True x y) (hx : x.Sound) : y.Sound := by
  have hcontinues := h.continues
  cases h with
  | aside _ _ size => exact hx.in_place size hcontinues
  | clear gone => exact hx.in_place (size_clearAll _ gone) hcontinues
  | write => exact hx.in_place (size_setStorage ..) hcontinues
  | append node => exact hx.in_place (size_pushNode _ node) hcontinues
  -- a new object comes with its shape
  | newArray hnew => exact hx.issue_plain ⟨False.elim, fun _ => ArrayObject.shaped_zeroed? hnew⟩
  | newImage hnew => exact hx.issue_plain ⟨not_false, ImageObject.shaped_zeroed? hnew⟩
  | newList => exact hx.issue_plain not_false
  | @copy m coded origin object hobject hbuffer =>
    have horigin : object.Shaped (origin ∈ coded) := hx.shaped origin object hobject
    refine hx.issue (fun n hn => ?_) (fun n hn => ?_) (horigin.congr ?_)
    · rcases hn with hn | ⟨rfl, -⟩
      · exact (hx.issued n hn).le
      · exact le_rfl
    · exact or_iff_left fun hnew => absurd hnew.1 hn.ne
    · -- the copy comes from where its origin comes from
      simp [hx.size_notMem]
  | @convertArray m coded id a target method tolerance converted hobject hnumeric hconverted =>
    refine hx.issue_plain ⟨False.elim, fun _ => ?_⟩
    -- the elements of the source can have any size, and those of what it becomes do not
    obtain ⟨size, harray⟩ := (hx.shaped id _ hobject).array
    exact harray.convert? (hnumeric trivial) hconverted
  | convertImage hobject hconverted =>
    exact hx.issue_plain ⟨not_false, (hx.shaped _ _ hobject).2.convert? hconverted⟩
  | buildLoose hloose => exact absurd trivial hloose

theorem Steps.sound {x y : Inventory} (h : Steps True x y) (hx : x.Sound) : y.Sound := by
  induction h with
  | refl => exact hx
  | tail _ last ih => exact last.sound ih

/-- The host builds an array of eight-byte elements under a code of its choice. -/
theorem Sound.buildArray (h : Sound ⟨m, coded⟩) (category : ArrayCategory) (code : Int)
    (extents : List Int) (values : List (BitVec (8 * 8))) :
    Sound ⟨(m.buildArray category code extents 8 values).2,
      {n | n ∈ coded ∨ m.allocations.size ≤ n ∧
        n < (m.buildArray category code extents 8 values).2.allocations.size}⟩ := by
  unfold Memory.buildArray
  cases ha : ArrayObject.sized? category code extents 8 with
  | none =>
    -- nothing is issued
    have hsame : {n | n ∈ coded ∨ m.allocations.size ≤ n ∧ n < m.allocations.size} = coded := by
      ext n
      exact or_iff_left fun hnew => absurd hnew.1 (not_le.mpr hnew.2)
    simpa only [hsame] using h
  | some a =>
    have hissued : Sound ⟨(m.issue (.array a)).2,
        {n | n ∈ coded ∨ m.allocations.size ≤ n ∧ n < m.allocations.size + 1}⟩ := by
      refine h.issue (fun n hn => ?_) (fun n hn => ?_) ⟨fun _ => ArrayObject.shaped_sized? ha, ?_⟩
      · rcases hn with hn | ⟨-, hn⟩
        · exact (h.issued n hn).le
        · exact Nat.le_of_lt_succ hn
      · exact or_iff_left fun hnew => absurd hnew.1 (not_le.mpr hn)
      · exact fun hcoded => absurd (.inr ⟨le_rfl, Nat.lt_succ_self _⟩) hcoded
    simp only [issue_fst]
    split
    · have hnew := object?_issue_self m (.array a)
      have hwritten := Step.sound (.write hnew rfl 8 0 values) hissued
      simpa only [size_setStorage, size_issue] using hwritten
    · simpa only [size_issue] using hissued

end Inventory

/-! ## States that are reached -/

namespace Journal

/-- The host builds an array under a code of its choice, with elements of eight bytes. -/
def codedArray (v : Journal) (category : ArrayCategory) (code : Int) (extents : List Int) :
    Journal :=
  { v with
    session := { v.session with
      memory := (v.memory.buildArray category code extents 8 []).2 } }

/-- What a host that starts anew comes to, by any sequence of what it and the library do.  Before
each operation each container is of the category of what it holds.  What the host builds by itself
has elements of the size that their code asks for, but for the arrays that it builds under a code of
its choice. -/
inductive Reached : Journal → Prop where
  | fresh (s : Session) (config : Config) : Reached (fresh s config)
  | codedArray {v} (before : Reached v) (category : ArrayCategory) (code : Int)
    (extents : List Int) : Reached (v.codedArray category code extents)
  | step {v w} (before : Reached v) (tidy : v.Tidy) (last : Step ∅ v w)
    (typed : v.memory.Builds w.memory → v.memory.BuildsTyped w.memory) : Reached w
  /-- An operation that is dispatched comes to what the operation comes to. -/
  | dispatch {s cs ps} {b : BufferCategory} {α : Type} {k : Container (.buffer b)}
    (operation : (kind : b.Kind) → Buffer kind → SessionM α) {kind : b.Kind}
    (hkind : k.elementKind? s.memory = some kind)
    (effect : Reached ⟨endState (operation kind ⟨k⟩ s), cs, ps⟩) :
    Reached ⟨endState (k.dispatch operation s), cs, ps⟩

/-- A journal with the numbers of the arrays that were built under a code, and of their copies. -/
inductive Arises : Journal → Set Nat → Prop where
  | fresh (s : Session) (config : Config) : Arises (fresh s config) ∅
  | codedArray {v coded} (before : Arises v coded) (category : ArrayCategory) (code : Int)
    (extents : List Int) :
    Arises (v.codedArray category code extents)
      {n | n ∈ coded ∨ v.memory.allocations.size ≤ n ∧
        n < (v.codedArray category code extents).memory.allocations.size}
  | step {v w coded coded'} (before : Arises v coded) (last : Step ∅ v w)
    (changes : Inventory.Steps True ⟨v.memory, coded⟩ ⟨w.memory, coded'⟩) : Arises w coded'

variable {v w : Journal} {coded : Set Nat}

theorem step_codedArray (v : Journal) (category : ArrayCategory) (code : Int) (extents : List Int) :
    Step ∅ v (v.codedArray category code extents) :=
  .build (.array category code extents 8 [])

/-- Whatever is reached arises, with the arrays that were built under a code. -/
theorem Reached.arises (h : Reached v) : v.Fit ∧ ∃ coded, Arises v coded := by
  induction h with
  | fresh s config => exact ⟨fit_fresh s config, ∅, .fresh s config⟩
  | @codedArray v _ category code extents ih =>
    obtain ⟨hfit, coded, harises⟩ := ih
    have hstep := step_codedArray v category code extents
    exact ⟨(hstep.effect hfit.host hfit.containers).fit hfit, _,
      .codedArray harises category code extents⟩
  | step _ tidy last typed ih =>
    obtain ⟨hfit, coded, harises⟩ := ih
    obtain ⟨coded', hchanges⟩ := last.leads hfit (fun _ => tidy) (fun _ => typed) coded
    exact ⟨(last.effect hfit.host hfit.containers).fit hfit, coded',
      .step harises last hchanges⟩
  | dispatch operation hkind _ ih =>
    rw [Estate.endState_dispatch hkind]
    exact ih

theorem Arises.sound (h : Arises v coded) : Inventory.Sound ⟨v.memory, coded⟩ := by
  induction h with
  | fresh s config =>
    refine ⟨fun id hid => absurd hid (Set.notMem_empty id), fun id object hobject => ?_⟩
    -- a host that starts anew has no object
    cases hobject
  | codedArray _ category code extents ih => exact ih.buildArray category code extents []
  | step _ _ changes ih => exact changes.sound ih

/-! ## Shapes agree -/

/-- The extents, the length and the storage of all that is live agree; so does what containers tell
of it, whoever owns them, and what can be seen of its elements. -/
structure Consistent (m : Memory) (coded : Set Nat) : Prop where
  arrays : ∀ id a, m.object? id = some (.array a) →
    (id ∈ coded → a.Shaped 8) ∧
      (id ∉ coded →
        ∃ size, ArrayObject.elementSize? a.category a.code = some size ∧ a.Shaped size)
  images : ∀ id i, m.object? id = some (.image i) → id ∉ coded ∧ i.Shaped
  containers : ∀ b (k : Container (.buffer b)) object, k.host = .reference →
    m.find? k.handle = some object → object.category = .buffer b → k.TellsShape m
  buffers : ∀ b (k : Container (.buffer b)) object (kind : b.Kind) (t : Buffer kind),
    k.host = .reference → m.find? k.handle = some object → object.category = .buffer b →
      (∀ id ∈ coded, k.handle ≠ .ofId id) → k.asBuffer kind m = .ok t → t.Fits m

/-- **Shapes agree, wherever objects come from.**  Whatever a host and its library come to, the
arrays that were built under a code can be told, along with their copies.  Then every live array and
image has extents, a length and storage that agree, with elements of eight bytes in these arrays and
of the size that the code asks for in all others.  So a container of a live buffer of its own
category tells as many extents as axes, their product being the number of elements; and a checked
buffer, unless it is one of these arrays, shows just that many elements, all of them inside the
storage. -/
theorem shapes_agree (h : Reached v) :
    (∃ coded, Arises v coded) ∧ ∀ coded, Arises v coded → Consistent v.memory coded := by
  refine ⟨h.arises.2, fun coded harises => ?_⟩
  -- every number that a handle names is that of an object with its shape
  have hsound := harises.sound
  constructor
  case arrays => exact fun id a ha => hsound.shaped id _ ha
  case images => exact fun id i hi => hsound.shaped id _ hi
  case containers =>
    intro b k object hhost hfound hcategory
    obtain ⟨id, -, hobject⟩ := find?_eq_some_iff.mp hfound
    exact Container.tellsShape hhost hfound hcategory (hsound.shaped id object hobject)
  case buffers =>
    intro b k object kind t hhost hfound hcategory hcoded ht
    obtain ⟨id, hid, hobject⟩ := find?_eq_some_iff.mp hfound
    exact Buffer.fits_of_asBuffer hhost hfound hcategory (hsound.shaped id object hobject)
      (fun hin => hcoded id hin hid) ht

/-- The host has built an image of bytes, of two slices with two rows and three columns. -/
def pictured : Journal :=
  { fresh {} {} with
    session := { (fresh {} {}).session with
      memory := ((fresh {} {}).memory.buildImage .byte 2 3 2 1 .gray true [7, 9]).2 } }

/-- Then it has built three elements under the code of signed bytes. -/
def picturedAndCoded : Journal := pictured.codedArray .numeric 1 [3]

/-- A container for the image, which leaves it to the host. -/
def picture : Container .image := ⟨.ofId 0, .host, .reference⟩

theorem shapes_agree_in_picturedAndCoded :
    Reached picturedAndCoded ∧
      picture.TellsShape picturedAndCoded.memory ∧
      picture.extents picturedAndCoded.memory = [2, 2, 3, 1] ∧
      (⟨picture⟩ : Buffer (b := .image) PixelKind.byte).Fits picturedAndCoded.memory ∧
      ∃ a, picturedAndCoded.memory.object? 1 = some (.array a) ∧ a.extents = [3] ∧ a.Shaped 8 := by
  have hpictured : Reached pictured := by
    refine .step (.fresh {} {}) (fun k hk => absurd hk (Multiset.notMem_zero k))
      (.build (.image .byte 2 3 2 1 .gray true [7, 9])) fun _ => ?_
    exact .image .byte 2 3 2 1 .gray true [7, 9]
  have hreached : Reached picturedAndCoded := hpictured.codedArray .numeric 1 [3]
  obtain ⟨⟨coded, harises⟩, -⟩ := shapes_agree hpictured
  have hconsistent := (shapes_agree hreached).2 _ (harises.codedArray .numeric 1 [3])
  have himage : ∃ i, picturedAndCoded.memory.object? 0 = some (.image i) := ⟨_, rfl⟩
  obtain ⟨i, hi⟩ := himage
  have hfound : picturedAndCoded.memory.find? picture.handle = some (.image i) := hi
  refine ⟨hreached, hconsistent.containers _ picture _ rfl hfound rfl, by decide, ?_, ?_⟩
  · refine hconsistent.buffers _ picture _ PixelKind.byte ⟨picture⟩ rfl hfound rfl ?_ rfl
    intro id hid hhandle
    obtain rfl : 0 = id := Handle.ofId_injective hhandle
    exact (hconsistent.images 0 i hi).1 hid
  · have harray : ∃ a, picturedAndCoded.memory.object? 1 = some (.array a) ∧ a.extents = [3] :=
      ⟨_, rfl, rfl⟩
    obtain ⟨a, ha, hextents⟩ := harray
    exact ⟨a, ha, hextents, (hconsistent.arrays 1 a ha).1 (.inr (by decide))⟩

end Journal

end Custody
