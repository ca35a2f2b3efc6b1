import Custody.Memory.Build
import Custody.Call.Result
import Custody.Proofs.Container.Filled

/-!
# Arrays made of values

A tensor or a numeric array of given values is asked for as a zeroed one, and filled afterwards.  The
library counts the extents before it asks, and the host counts them again.  Here the two counts are
the same, so an array that is given can be filled, whatever its extents are.

- `ArrayObject.zeroed?_code`: the array that a host gives for a kind.
- `Buffer.newArray_of_refused`, `Buffer.arrayOf_of_given`: how asking and filling ends.
- `Buffer.stores_ofValues`, `Buffer.readArray_ofValues`: what the library and the host then read.
- `Buffer.arrayOf_ends`: how making an array of values ends, and where the values are read again.
-/

namespace Custody

open SessionM

/-! ## The array of the host -/

/-- What a host that knows the kind gives for extents that have a count. -/
theorem ArrayObject.zeroed?_code {c : ArrayCategory} (kind : (BufferCategory.array c).Kind)
    (extents : List Int) :
    zeroed? c kind.code extents = (elementCount extents).map fun length =>
      ⟨c, kind.code, extents, length, .allocate length kind.element.size⟩ := by
  rw [zeroed?, elementSize?_code]
  rfl

namespace ArrayObject

/-- The array of a kind that holds these values. -/
def ofValues {c : ArrayCategory} (kind : (BufferCategory.array c).Kind) (extents : List Int)
    (values : List kind.element.Word) : ArrayObject :=
  ⟨c, kind.code, extents, values.length,
    (Storage.allocate values.length kind.element.size).writeFrom kind.element.size 0 values⟩

theorem elements_ofValues {c : ArrayCategory} (kind : (BufferCategory.array c).Kind)
    (extents : List Int) (values : List kind.element.Word) :
    (ofValues kind extents values).storage.elements kind.element.size values.length = values :=
  Storage.elements_writeFrom _ values (Storage.room_allocate ..)

/-- There is room for the values, and so for as many elements as the host shows. -/
theorem le_capacity_ofValues {c : ArrayCategory} (kind : (BufferCategory.array c).Kind)
    (extents : List Int) (values : List kind.element.Word) :
    values.length ≤ (ofValues kind extents values).storage.capacity kind.element.size := by
  have hsize : (ofValues kind extents values).storage.size =
      (Storage.allocate values.length kind.element.size).size := Storage.size_writeFrom ..
  rw [Storage.capacity, hsize, Nat.le_div_iff_mul_le kind.element.size_pos]
  exact Storage.room_allocate ..

end ArrayObject

namespace Buffer

variable {c : ArrayCategory} {kind : (BufferCategory.array c).Kind} {s : Session}
  {extents : List Int} {values : List kind.element.Word}

/-! ## Asking and filling -/

/-- The installed host is asked. -/
theorem newArray_apply (hs : s.host = some .reference) :
    Container.newArray c kind extents s =
      Container.own _ .reference (.allocation (.buffer (.array c)))
        (fun m => m.allocate ((ArrayObject.zeroed? c kind.code extents).map .array)) s :=
  bind_of_ok (installedHost_apply hs)

theorem newArray_of_refused (hs : s.host = some .reference)
    (hrefused : elementCount extents = none ∨ s.memory.failNextAllocation = true) :
    newArray kind extents s = .error (.failure (.allocation (.buffer (.array c))))
      { s with memory := { s.memory with failNextAllocation := false } } := by
  apply bind_of_error
  rw [newArray_apply hs]
  apply Container.own_of_none
  refine Memory.allocate_of_refused (hrefused.symm.imp_right fun hcount => ?_)
  rw [ArrayObject.zeroed?_code, hcount]
  rfl

/-- The library owns the zeroed array that the host gives. -/
theorem newArray_of_given (kind : (BufferCategory.array c).Kind) (hs : s.host = some .reference)
    (hidle : s.memory.failNextAllocation = false) {length : Nat}
    (hcount : elementCount extents = some length) :
    ∃ m, newArray kind extents s =
        .ok ⟨⟨.ofId s.memory.allocations.size, .library, .reference⟩⟩ { s with memory := m } ∧
      m.find? (.ofId s.memory.allocations.size) =
        some (.array ⟨c, kind.code, extents, length, .allocate length kind.element.size⟩) := by
  obtain ⟨m, hgiven, hissued⟩ := Memory.issued_allocate hidle
    (.array ⟨c, kind.code, extents, length, .allocate length kind.element.size⟩)
  refine ⟨m, ?_, hissued.find?⟩
  apply bind_of_ok
  rw [newArray_apply hs, ArrayObject.zeroed?_code, hcount]
  exact Container.own_of_some hgiven

/-- An array that is given is filled by the values that were counted. -/
theorem arrayOf_of_given (kind : (BufferCategory.array c).Kind)
    {values : List kind.element.Word} (hs : s.host = some .reference)
    (hidle : s.memory.failNextAllocation = false)
    (hcount : elementCount extents = some values.length) :
    ∃ m, arrayOf kind extents values s =
        .ok ⟨⟨.ofId s.memory.allocations.size, .library, .reference⟩⟩ { s with memory := m } ∧
      m.find? (.ofId s.memory.allocations.size) =
        some (.array (.ofValues kind extents values)) := by
  obtain ⟨m, hgiven, hfound⟩ := newArray_of_given kind hs hidle hcount
  let made : Buffer kind := ⟨⟨.ofId s.memory.allocations.size, .library, .reference⟩⟩
  have hlength : made.container.length m = values.length :=
    Container.length_of_array (k := made.container) rfl hfound
  obtain ⟨m', hfilled, hholds⟩ := fill_of_live (t := made) (s := { s with memory := m }) rfl
    hfound rfl rfl hlength
  refine ⟨m', ?_, hholds⟩
  have hsized : ∀ n, elementCount extents = some n → n = values.length := fun n hn =>
    Option.some.inj (hn.symm.trans hcount)
  rw [arrayOf, checkSize_of_sized hsized, ofExcept_ok, pure_bind, bind_of_ok hgiven]
  exact hfilled

/-! ## What the array holds -/

/-- The library owns the array, which has elements of the kind and shows the extents and the values
that were given. -/
structure Stores (t : Buffer kind) (m : Memory) (extents : List Int)
    (values : List kind.element.Word) : Prop where
  owner : t.container.owner = .library
  elementKind : t.container.elementKind? m = some kind
  extents : t.container.extents m = extents
  length : t.container.length m = values.length
  data : t.data m = values

section OfValues

variable {t : Buffer kind} {m : Memory}

theorem data_of_array {a : ArrayObject} (hhost : t.container.host = .reference)
    (hfound : m.find? t.container.handle = some (.array a)) :
    t.data m = a.storage.elements kind.element.size a.length := by
  have hshown : t.container.storage? m = some a.storage :=
    (Container.ask_of_live hhost hfound _ _).trans (Memory.askBuffer_of_array hfound ..)
  rw [data, hshown, Container.length_of_array hhost hfound]
  rfl

theorem elementKind_ofValues (hhost : t.container.host = .reference)
    (hfound : m.find? t.container.handle = some (.array (.ofValues kind extents values))) :
    t.container.elementKind? m = some kind := by
  have hcarries : t.container.Carries m (.array (.ofValues kind extents values)) kind.code :=
    ⟨hfound, rfl, rfl⟩
  exact BufferCategory.kindOfCode?_eq_some_iff.mpr
    (hcarries.code_eq hhost (BufferCategory.canCarry_code _ kind)).symm

theorem stores_ofValues (howner : t.container.owner = .library)
    (hhost : t.container.host = .reference)
    (hfound : m.find? t.container.handle = some (.array (.ofValues kind extents values))) :
    t.Stores m extents values where
  owner := howner
  elementKind := elementKind_ofValues hhost hfound
  extents := Container.extents_of_array hhost hfound
  length := Container.length_of_array hhost hfound
  data := (data_of_array hhost hfound).trans (ArrayObject.elements_ofValues kind extents values)

/-- The host reads the same values as the library. -/
theorem readArray_ofValues {h : Handle}
    (hfound : m.find? h = some (.array (.ofValues kind extents values))) :
    m.readArray h kind.element.size = values := by
  have harray : m.array? h = some (.ofValues kind extents values) := by rw [Memory.array?, hfound]
  rw [Memory.readArray, harray]
  show Memory.shown _ _ values.length = values
  rw [Memory.shown, Nat.min_eq_left (ArrayObject.le_capacity_ofValues kind extents values)]
  exact ArrayObject.elements_ofValues kind extents values

end OfValues

/-- A container that tells the kind is taken for a buffer of the kind as it is. -/
theorem intoBuffer_of_elementKind {b : BufferCategory} {kind : b.Kind} {t : Buffer kind}
    (hempty : t.container.isEmpty = false)
    (hkind : t.container.elementKind? s.memory = some kind) :
    t.container.intoBuffer kind s = .ok t s := by
  apply Container.intoBuffer_of_ok
  rw [Container.asBuffer_of_not_empty hempty, hkind]
  exact if_pos rfl

end Buffer

/-- A container that is not empty becomes the result, and the session is as it was. -/
theorem CallM.setContainer_apply {c : Category} {k : Container c} (hempty : k.isEmpty = false)
    (s : Session) (slot : ResultSlot) :
    setContainer k ⟨s, slot⟩ = .ok () ⟨s, .holds (.handle k.handle)⟩ := by
  have hresult : k.asResult = .ok (.handle k.handle) := by
    rw [Container.asResult, Container.require, hempty]
    rfl
  rw [setContainer, hresult]
  rfl

namespace Buffer

/-! ## Making an array -/

/-- **Values that an array is made of are read from it again.**  Where the extents have a count that
is not the number of values, making the array fails with both numbers, before the host is asked.
Otherwise it fails where the extents have no count or the host was told to refuse, and of the memory
at most that order has changed.  Otherwise the library owns an array of the kind that shows the
extents and the values as they were given.  It still does after it has gone through a container
whose kind is not known, and once its handle is the result of a call, the host reads the same values
from it. -/
theorem arrayOf_ends {c : ArrayCategory} {s : Session} (hs : s.host = some .reference)
    (kind : (BufferCategory.array c).Kind) (extents : List Int)
    (values : List kind.element.Word) :
    (∀ n, elementCount extents = some n → n ≠ values.length →
      arrayOf kind extents values s =
        .error (.failure (.size (.buffer (.array c)) n values.length)) s) ∧
    ((∀ n, elementCount extents = some n → n = values.length) →
      (elementCount extents = none ∨ s.memory.failNextAllocation = true →
        arrayOf kind extents values s = .error (.failure (.allocation (.buffer (.array c))))
          { s with memory := { s.memory with failNextAllocation := false } }) ∧
      (elementCount extents ≠ none → s.memory.failNextAllocation = false →
        ∃ t s', arrayOf kind extents values s = .ok t s' ∧
          t.Stores s'.memory extents values ∧
          t.container.intoBuffer kind s' = .ok t s' ∧
          ∀ slot, CallM.setContainer t.container ⟨s', slot⟩ =
              .ok () ⟨s', .holds (.handle t.container.handle)⟩ ∧
            s'.memory.readArray t.container.handle kind.element.size = values)) := by
  refine ⟨fun n hcount hne => ?_, fun hsized => ⟨fun hrefused => ?_, fun hcounted hidle => ?_⟩⟩
  · -- the values are counted before the host is asked
    unfold arrayOf checkSize
    rw [hcount]
    simp only [if_neg hne]
    rfl
  · rw [arrayOf, checkSize_of_sized hsized, ofExcept_ok, pure_bind]
    exact bind_of_error (newArray_of_refused hs hrefused)
  · obtain ⟨n, hcount⟩ := Option.ne_none_iff_exists'.mp hcounted
    obtain rfl := hsized n hcount
    obtain ⟨m, hmade, hfound⟩ := arrayOf_of_given kind hs hidle hcount
    have hstores := stores_ofValues (m := m)
      (t := (⟨⟨.ofId s.memory.allocations.size, .library, .reference⟩⟩ : Buffer kind)) rfl rfl
      hfound
    have hempty : (⟨.ofId s.memory.allocations.size, .library, .reference⟩ :
        Container (.buffer (.array c))).isEmpty = false := Memory.isNull_of_find? hfound
    refine ⟨_, _, hmade, hstores, ?_, fun slot => ⟨?_, readArray_ofValues hfound⟩⟩
    · exact intoBuffer_of_elementKind hempty hstores.elementKind
    · exact CallM.setContainer_apply hempty _ slot

/-- Three bytes of two rows do not fit, and of one row they are read again, also by the host. -/
theorem arrayOf_of_bytes :
    hosted.host = some .reference ∧
      arrayOf (c := .numeric) ArrayKind.int8 [2, 3] [-1, 0, 7] hosted =
        .error (.failure (.size .numeric 6 3)) hosted ∧
      ∃ t s', arrayOf (c := .numeric) ArrayKind.int8 [1, 3] [-1, 0, 7] hosted = .ok t s' ∧
        t.container.extents s'.memory = [1, 3] ∧ t.data s'.memory = [-1, 0, 7] ∧
        s'.memory.readArray t.container.handle 1 = [-1, 0, 7] := by
  have hends := fun extents => arrayOf_ends (s := hosted) (c := .numeric) rfl ArrayKind.int8
    extents [-1, 0, 7]
  refine ⟨rfl, (hends [2, 3]).1 6 (by decide) (by decide), ?_⟩
  obtain ⟨t, s', hmade, hstores, -, hpassed⟩ :=
    ((hends [1, 3]).2 (by decide)).2 (by decide) rfl
  exact ⟨t, s', hmade, hstores.extents, hstores.data, (hpassed .empty).2⟩

end Buffer

end Custody
