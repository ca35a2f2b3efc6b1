import Custody.Memory.Build
import Custody.Proofs.Container.Shape
import Custody.Proofs.Container.Make

/-!
# Accesses to elements

Any number of buffers are read and written in turns, each at the size of its own elements, and the
host reads them too.  As long as they are buffers of different objects, each of them behaves as if it
were alone: an element is what was last written to it through its own buffer.

- `Buffer.On`: the object that a buffer is of, and what the object shows.
- `Memory.Overwritten`: one element of one object is another.
- `Access.Stand.perform`: what one access answers, and what it leaves.
- `Access.reads_last_written`: what any sequence of accesses answers.
-/

namespace Custody

open SessionM

/-! ## The object of a buffer -/

/-- What an object shows through a category: its storage, and the number of its elements.  Both
categories of arrays show arrays. -/
def Object.shown? : BufferCategory → Object → Option (Storage × Nat)
  | .array _, .array a => some (a.storage, a.length)
  | .image, .image i => some (i.storage, i.length)
  | _, _ => none

theorem Object.shown?_setStorage {b : BufferCategory} {object : Object} {storage : Storage}
    {length : Nat} (h : object.shown? b = some (storage, length)) (storage' : Storage) :
    (object.setStorage storage').shown? b = some (storage', length) := by
  cases b <;> cases object <;> cases h <;> rfl

theorem Object.storage?_of_shown {b : BufferCategory} {object : Object} {storage : Storage}
    {length : Nat} (h : object.shown? b = some (storage, length)) :
    object.storage? = some storage := by
  cases b <;> cases object <;> cases h <;> rfl

/-- The first elements of an object as the host reads them, as many as there are. -/
def Memory.readElements (m : Memory) (b : BufferCategory) (h : Handle) (width : Nat) :
    List (BitVec (8 * width)) :=
  match b with
  | .array _ => m.readArray h width
  | .image => m.readImage h width

namespace Buffer

variable {b : BufferCategory} {kind : b.Kind} {t : Buffer kind} {m : Memory} {id length : Nat}
  {storage : Storage}

/-- The buffer is of the object of a number, which shows it this storage. -/
structure On (t : Buffer kind) (m : Memory) (id : Nat) (storage : Storage) (length : Nat) :
    Prop where
  host : t.container.host = .reference
  handle : t.container.handle = .ofId id
  shown : ∃ object, m.object? id = some object ∧ object.shown? b = some (storage, length)

namespace On

theorem storage? (h : t.On m id storage length) : t.container.storage? m = some storage := by
  obtain ⟨object, hobject, hshown⟩ := h.shown
  have hfound : m.find? t.container.handle = some object := by
    rw [h.handle, Memory.find?_ofId, hobject]
  refine (Container.ask_of_live h.host hfound _ _).trans ?_
  cases b <;> cases object <;> cases hshown
  · exact Memory.askBuffer_of_array hfound ..
  · exact Memory.askBuffer_of_image hfound ..

theorem length_eq (h : t.On m id storage length) : t.container.length m = length := by
  obtain ⟨object, hobject, hshown⟩ := h.shown
  have hfound : m.find? t.container.handle = some object := by
    rw [h.handle, Memory.find?_ofId, hobject]
  cases b <;> cases object <;> cases hshown
  · exact Container.length_of_array h.host hfound
  · exact Container.length_of_image h.host hfound

theorem size_eq (h : t.On m id storage length) : t.size m = length := by
  rw [size, h.storage?, h.length_eq]
  rfl

theorem data_eq (h : t.On m id storage length) :
    t.data m = storage.elements kind.element.size length := by
  rw [data, h.storage?, h.length_eq]
  rfl

theorem fits (h : t.On m id storage length) (hroom : length * kind.element.size ≤ storage.size) :
    t.Fits m :=
  fits_of_room h.storage? h.length_eq hroom

/-- Where the storage has room for all elements, the host reads all of them. -/
theorem readElements_eq (h : t.On m id storage length)
    (hroom : length * kind.element.size ≤ storage.size) :
    m.readElements b t.container.handle kind.element.size = t.data m := by
  have hcapacity : min length (storage.capacity kind.element.size) = length :=
    Nat.min_eq_left ((Nat.le_div_iff_mul_le kind.element.size_pos).mpr hroom)
  rw [h.data_eq, h.handle]
  obtain ⟨object, hobject, hshown⟩ := h.shown
  have hfound : m.find? (.ofId id) = some object := (Memory.find?_ofId m id).trans hobject
  cases b <;> cases object <;> cases hshown
  · rw [Memory.readElements, Memory.readArray, Memory.array?, hfound]
    exact congrArg (Storage.elements _ kind.element.size) hcapacity
  · rw [Memory.readElements, Memory.readImage, Memory.image?, hfound]
    exact congrArg (Storage.elements _ kind.element.size) hcapacity

/-- Writing replaces the storage of the object. -/
theorem writeIn_eq (h : t.On m id storage length) (index : Nat)
    (values : List kind.element.Word) :
    t.writeIn index values m =
      m.setStorage (.ofId id) (storage.writeFrom kind.element.size index values) := by
  rw [writeIn, h.storage?, h.host, h.handle]
  obtain ⟨object, hobject, hshown⟩ := h.shown
  have hfound : m.find? (.ofId id) = some object := (Memory.find?_ofId m id).trans hobject
  cases b <;> cases object <;> cases hshown
  · exact Memory.askBuffer_of_array hfound ..
  · exact Memory.askBuffer_of_image hfound ..

theorem setStorage (h : t.On m id storage length) (storage' : Storage) :
    t.On (m.setStorage (.ofId id) storage') id storage' length := by
  obtain ⟨object, hobject, hshown⟩ := h.shown
  exact ⟨h.host, h.handle, _, Memory.object?_setStorage_self hobject storage',
    Object.shown?_setStorage hshown storage'⟩

/-- The storage of another object does not concern the buffer. -/
theorem setStorage_of_ne (h : t.On m id storage length) {other : Nat} (hother : other ≠ id)
    (storage' : Storage) : t.On (m.setStorage (.ofId other) storage') id storage length := by
  obtain ⟨object, hobject, hshown⟩ := h.shown
  refine ⟨h.host, h.handle, object, ?_, hshown⟩
  rw [Memory.object?_setStorage, if_neg (by simpa using hother), hobject]

end On

/-- A buffer with full storage is of a live object, which has room for all its elements. -/
theorem Fits.exists_on (h : t.Fits m) (hhost : t.container.host = .reference) :
    ∃ id storage length, t.On m id storage length ∧
      length * kind.element.size ≤ storage.size := by
  obtain ⟨storage, hstorage, hroom⟩ := h.inside
  obtain ⟨id, object, hhandle, hobject, hstored⟩ :=
    Container.exists_object_of_storage? hhost hstorage
  have hshown : ∃ length, object.shown? b = some (storage, length) := by
    -- through another category the host would not have shown the storage
    have hfound : m.find? t.container.handle = some object := by
      rw [hhandle, Memory.find?_ofId, hobject]
    have hasked : Host.reference.storage b t.container.handle m = some storage :=
      (Container.ask_of_live hhost hfound _ _).symm.trans hstorage
    simp only [Host.reference, Memory.askBuffer, hfound] at hasked
    cases b <;> cases object <;> cases hasked <;> exact ⟨_, rfl⟩
  obtain ⟨length, hshown⟩ := hshown
  have hon : t.On m id storage length := ⟨hhost, hhandle, object, hobject, hshown⟩
  exact ⟨id, storage, length, hon, hon.size_eq ▸ hroom⟩

end Buffer

/-! ## Overwriting one element -/

/-- One element of one object is another.  No byte outside of the element is, in the same word or
behind the last element, no other object, and nothing else. -/
structure Memory.Overwritten (m : Memory) (id width index : Nat) (value : BitVec (8 * width))
    (m' : Memory) : Prop where
  object : ∃ object storage storage', m.object? id = some object ∧
    object.storage? = some storage ∧ m'.object? id = some (object.setStorage storage') ∧
    storage'.size = storage.size ∧ storage'.read width index = value ∧
    ∀ offset, offset < index * width ∨ (index + 1) * width ≤ offset →
      storage'.byte offset = storage.byte offset
  others : ∀ other, other ≠ id → m'.object? other = m.object? other
  shares : ∀ h, m'.shares h = m.shares h
  elsewhere : { m' with allocations := m.allocations } = m

namespace Buffer

variable {b : BufferCategory} {kind : b.Kind} {t : Buffer kind} {s : Session} {index : Nat}
  {value : kind.element.Word}

theorem On.overwritten {m : Memory} {id length : Nat} {storage : Storage}
    (h : t.On m id storage length) (hroom : length * kind.element.size ≤ storage.size)
    (hinside : index < length) (value : kind.element.Word) :
    m.Overwritten id kind.element.size index value (t.writeIn index [value] m) := by
  obtain ⟨object, hobject, hshown⟩ := h.shown
  rw [h.writeIn_eq]
  refine ⟨⟨object, storage, storage.write kind.element.size index value, hobject,
    Object.storage?_of_shown hshown, Memory.object?_setStorage_self hobject _,
    Storage.size_write .., ?_, fun offset => Storage.byte_write_of_outside storage value⟩,
    fun other hother => ?_, Memory.shares_setStorage m _ _, ?_⟩
  · exact Storage.read_write_self storage value
      ((Nat.mul_le_mul_right kind.element.size hinside).trans hroom)
  · rw [Memory.object?_setStorage, if_neg (by simpa using Ne.symm hother)]
  · simp [Memory.setStorage, Memory.modifyObject]

theorem set_of_lt (hinside : index < t.size s.memory) :
    t.set index value s = .ok true { s with memory := t.writeIn index [value] s.memory } := by
  rw [set, bind_of_ok (memory_apply s), if_pos hinside]
  rfl

theorem set_of_not_lt (houtside : ¬ index < t.size s.memory) :
    t.set index value s = .ok false s := by
  rw [set, bind_of_ok (memory_apply s), if_neg houtside]
  rfl

end Buffer

/-! ## Accesses -/

/-- A buffer of any category and of any kind. -/
structure AnyBuffer where
  category : BufferCategory
  kind : category.Kind
  buffer : Buffer kind

namespace AnyBuffer

/-- The handle that a buffer holds. -/
def handle (t : AnyBuffer) : Handle := t.buffer.container.handle

/-- An element of the buffer. -/
abbrev Word (t : AnyBuffer) : Type := t.kind.element.Word

end AnyBuffer

variable {ι : Type} {ts : ι → AnyBuffer}

/-- One element of one of several buffers is read or written. -/
inductive Access (ts : ι → AnyBuffer) where
  | write (i : ι) (index : Nat) (value : (ts i).Word)
  | read (i : ι) (index : Nat)
  /-- The host reads the element. -/
  | hostRead (i : ι) (index : Nat)

namespace Access

/-- The element that is seen or written, if there is one at the index. -/
abbrev Answer (ts : ι → AnyBuffer) : Type := (i : ι) × Option (ts i).Word

/-- What an access does. -/
def perform : Access ts → SessionM (Answer ts)
  | write i index value => do
    return ⟨i, if ← (ts i).buffer.set index value then some value else none⟩
  | read i index => do return ⟨i, ((ts i).buffer.data (← memory))[index]?⟩
  | hostRead i index => do
    return ⟨i, ((← memory).readElements (ts i).category (ts i).handle
      (ts i).kind.element.size)[index]?⟩

/-- Accesses in turns. -/
def performAll (accesses : List (Access ts)) : SessionM (List (Answer ts)) :=
  accesses.mapM perform

/-! ## What was written last -/

section History

variable [DecidableEq ι]

/-- What an access writes to an element, if that is what it does. -/
def written? (i : ι) (index : Nat) : Access ts → Option (ts i).Word
  | write j place value => if h : j = i ∧ place = index then some (h.1 ▸ value) else none
  | read _ _ | hostRead _ _ => none

/-- What was last written to an element. -/
def lastWritten (past : List (Access ts)) (i : ι) (index : Nat) : Option (ts i).Word :=
  past.reverse.findSome? (written? i index)

/-- The elements of each buffer after accesses, given what they were at the start: what was last
written to each, or else what it was. -/
def contents (start : (i : ι) → List (ts i).Word) (past : List (Access ts)) (i : ι) :
    List (ts i).Word :=
  (start i).mapIdx fun index initial => (lastWritten past i index).getD initial

/-- What an access has to answer, by what was there at the start and what was done before. -/
def answer (start : (i : ι) → List (ts i).Word) (past : List (Access ts)) :
    Access ts → Answer ts
  | write i index value => ⟨i, if index < (start i).length then some value else none⟩
  | read i index | hostRead i index =>
    ⟨i, ((start i)[index]?).map fun initial => (lastWritten past i index).getD initial⟩

variable {start : (i : ι) → List (ts i).Word} {past : List (Access ts)} {i : ι} {index : Nat}

theorem lastWritten_append (past : List (Access ts)) (access : Access ts) (i : ι) (index : Nat) :
    lastWritten (past ++ [access]) i index =
      (access.written? i index).or (lastWritten past i index) := by
  rw [lastWritten, List.reverse_append, List.reverse_singleton, List.singleton_append,
    List.findSome?_cons, lastWritten]
  cases access.written? i index <;> rfl

theorem getElem?_contents :
    (contents start past i)[index]? =
      ((start i)[index]?).map fun initial => (lastWritten past i index).getD initial :=
  List.getElem?_mapIdx

theorem length_contents : (contents start past i).length = (start i).length :=
  List.length_mapIdx

theorem contents_nil (start : (i : ι) → List (ts i).Word) (i : ι) :
    contents start [] i = start i := by
  apply List.ext_getElem?
  intro index
  rw [getElem?_contents]
  cases (start i)[index]? <;> rfl

/-- A write does not write to another buffer. -/
theorem written?_of_ne {j : ι} (hj : j ≠ i) (value : (ts i).Word) (place : Nat) :
    (write i index value : Access ts).written? j place = none :=
  dif_neg fun hsame => hj hsame.1.symm

/-- What only looks leaves the elements as they are. -/
theorem contents_append_of_not_written {access : Access ts}
    (h : ∀ index, access.written? i index = none) :
    contents start (past ++ [access]) i = contents start past i := by
  apply List.ext_getElem?
  intro index
  rw [getElem?_contents, getElem?_contents, lastWritten_append, h index, Option.none_or]

/-- What is written replaces one element of its own buffer. -/
theorem contents_append_write (start : (i : ι) → List (ts i).Word) (past : List (Access ts))
    (i : ι) (index : Nat) (value : (ts i).Word) :
    contents start (past ++ [.write i index value]) i = (contents start past i).set index value := by
  apply List.ext_getElem?
  intro place
  rw [List.getElem?_set, length_contents, getElem?_contents, getElem?_contents, lastWritten_append]
  by_cases hplace : index = place
  · subst hplace
    have hwritten : (write i index value : Access ts).written? i index = some value :=
      dif_pos ⟨rfl, rfl⟩
    rw [hwritten, if_pos rfl]
    by_cases hinside : index < (start i).length
    · simp [hinside]
    · simp [hinside]
  · have hwritten : (write i index value : Access ts).written? i place = none :=
      dif_neg fun h => hplace h.2
    rw [hwritten, if_neg hplace, Option.none_or]

end History

/-! ## One access -/

section Stand

variable [DecidableEq ι]

/-- The buffers are of different objects, which have room for all their elements, and the elements
are those that the accesses so far have left. -/
structure Stand (ts : ι → AnyBuffer) (start : (i : ι) → List (ts i).Word)
    (past : List (Access ts)) (m : Memory) : Prop where
  host : ∀ i, (ts i).buffer.container.host = .reference
  fits : ∀ i, (ts i).buffer.Fits m
  distinct : Function.Injective fun i => (ts i).handle
  data : ∀ i, (ts i).buffer.data m = contents start past i

variable {start : (i : ι) → List (ts i).Word} {past : List (Access ts)} {s : Session}

namespace Stand

variable {m : Memory}

theorem size_eq (h : Stand ts start past m) (i : ι) :
    (ts i).buffer.size m = (start i).length := by
  rw [← (h.fits i).data, h.data, length_contents]

theorem readElements_eq (h : Stand ts start past m) (i : ι) :
    m.readElements (ts i).category (ts i).handle (ts i).kind.element.size =
      contents start past i := by
  obtain ⟨id, storage, length, hon, hroom⟩ := (h.fits i).exists_on (h.host i)
  exact (hon.readElements_eq hroom).trans (h.data i)

/-- What does not write leaves everything as it stands. -/
theorem look (h : Stand ts start past m) {access : Access ts}
    (hlooks : ∀ i index, access.written? i index = none) :
    Stand ts start (past ++ [access]) m :=
  { h with data := fun i => (h.data i).trans (contents_append_of_not_written (hlooks i)).symm }

/-- A write that finds its element changes this element of its own buffer. -/
theorem write (h : Stand ts start past m) (i : ι) (index : Nat) (value : (ts i).Word) :
    Stand ts start (past ++ [.write i index value]) ((ts i).buffer.writeIn index [value] m) := by
  obtain ⟨id, storage, length, hon, hroom⟩ := (h.fits i).exists_on (h.host i)
  rw [hon.writeIn_eq]
  have hwritten := hon.setStorage (storage.writeFrom (ts i).kind.element.size index [value])
  have hroom' : length * (ts i).kind.element.size ≤
      (storage.writeFrom (ts i).kind.element.size index [value]).size := by
    rw [Storage.size_writeFrom]
    exact hroom
  -- a buffer of another object is not concerned
  have hothers : ∀ j, j ≠ i → ∃ other storage' length', other ≠ id ∧
      (ts j).buffer.On m other storage' length' ∧
      length' * (ts j).kind.element.size ≤ storage'.size := by
    intro j hj
    obtain ⟨other, storage', length', hon', hroom'⟩ := (h.fits j).exists_on (h.host j)
    refine ⟨other, storage', length', ?_, hon', hroom'⟩
    rintro rfl
    exact hj (h.distinct (hon'.handle.trans hon.handle.symm))
  refine ⟨h.host, fun j => ?_, h.distinct, fun j => ?_⟩
  · by_cases hj : j = i
    · subst hj
      exact hwritten.fits hroom'
    · obtain ⟨other, storage', length', hother, hon', hroom'⟩ := hothers j hj
      exact (hon'.setStorage_of_ne hother.symm _).fits hroom'
  · by_cases hj : j = i
    · subst hj
      rw [hwritten.data_eq, contents_append_write, ← h.data, hon.data_eq]
      exact Storage.elements_write storage index value hroom
    · obtain ⟨other, storage', length', hother, hon', -⟩ := hothers j hj
      rw [contents_append_of_not_written (written?_of_ne hj value), ← h.data, hon'.data_eq,
        (hon'.setStorage_of_ne hother.symm _).data_eq]

/-- Every access answers what was last written, and leaves the next stand. -/
theorem perform (h : Stand ts start past s.memory) (access : Access ts) :
    ∃ m, access.perform s = .ok (access.answer start past) { s with memory := m } ∧
      Stand ts start (past ++ [access]) m := by
  cases access with
  | write i index value =>
    have hsize := h.size_eq i
    by_cases hinside : index < (start i).length
    · refine ⟨_, ?_, h.write i index value⟩
      rw [Access.perform, bind_of_ok (Buffer.set_of_lt (hsize.symm ▸ hinside)), answer,
        if_pos hinside]
      rfl
    · -- beyond the end nothing is written, and there is nothing to be read
      refine ⟨s.memory, ?_, { h with data := fun j => (h.data j).trans ?_ }⟩
      · rw [Access.perform, bind_of_ok (Buffer.set_of_not_lt (hsize.symm ▸ hinside)), answer,
          if_neg hinside]
        rfl
      · by_cases hj : j = i
        · subst hj
          rw [contents_append_write, List.set_eq_of_length_le]
          rw [length_contents]
          exact Nat.not_lt.mp hinside
        · exact (contents_append_of_not_written (written?_of_ne hj value)).symm
  | read i index =>
    refine ⟨s.memory, ?_, h.look fun _ _ => rfl⟩
    rw [Access.perform, bind_of_ok (memory_apply s), h.data, getElem?_contents]
    rfl
  | hostRead i index =>
    refine ⟨s.memory, ?_, h.look fun _ _ => rfl⟩
    rw [Access.perform, bind_of_ok (memory_apply s), h.readElements_eq, getElem?_contents]
    rfl

/-- So does any sequence of accesses. -/
theorem performAll (h : Stand ts start past s.memory) (accesses : List (Access ts)) :
    ∃ answers m, Access.performAll accesses s = .ok answers { s with memory := m } ∧
      Stand ts start (past ++ accesses) m ∧ answers.length = accesses.length ∧
      ∀ (place : Nat) (access : Access ts), accesses[place]? = some access →
        answers[place]? = some (access.answer start (past ++ accesses.take place)) := by
  induction accesses generalizing past s with
  | nil => exact ⟨[], s.memory, rfl, by rwa [List.append_nil], rfl, by simp⟩
  | cons first rest ih =>
    obtain ⟨m, hfirst, hstand⟩ := h.perform first
    obtain ⟨answers, m', hrest, hstand', hlength, hanswers⟩ :=
      ih (s := { s with memory := m }) hstand
    refine ⟨first.answer start past :: answers, m', ?_, ?_, by simp [hlength], ?_⟩
    · rw [Access.performAll, List.mapM_cons, bind_of_ok hfirst]
      exact bind_of_ok hrest
    · rwa [List.append_assoc, List.singleton_append] at hstand'
    · rintro (_ | place) access haccess
      · obtain rfl := Option.some.inj haccess
        rw [List.take_zero, List.append_nil]
        rfl
      · have hanswer := hanswers place access haccess
        rwa [List.append_assoc, List.singleton_append] at hanswer

/-- A write that finds its element overwrites it, and nothing else in the whole memory. -/
theorem overwritten (h : Stand ts start past s.memory) {i : ι} {index : Nat}
    (hinside : index < (start i).length) (value : (ts i).Word) :
    ∃ id m, (ts i).handle = .ofId id ∧
      (ts i).buffer.set index value s = .ok true { s with memory := m } ∧
      s.memory.Overwritten id (ts i).kind.element.size index value m := by
  obtain ⟨id, storage, length, hon, hroom⟩ := (h.fits i).exists_on (h.host i)
  have hlength : (start i).length = length := (h.size_eq i).symm.trans hon.size_eq
  exact ⟨id, _, hon.handle, Buffer.set_of_lt ((h.size_eq i).symm ▸ hinside),
    hon.overwritten hroom (hlength ▸ hinside) value⟩

end Stand

end Stand

/-! ## Accesses in turns -/

/-- **Buffers of different objects never alias.**  Any buffers with full storage, each of another
live object, are read and written in turns, and read by the host.  Every access comes to an end, and
one that reads gets what was last written to the element through the same buffer, or what the
element was at the start.  At any point, a write overwrites one element of one object: no other byte
changes, be it that of a neighbour in the same word or of the padding, and no other object, be it
one that was copied from this one or converted, or that this one was copied from. -/
theorem reads_last_written [DecidableEq ι] (ts : ι → AnyBuffer) (s : Session)
    (hhost : ∀ i, (ts i).buffer.container.host = .reference)
    (hfits : ∀ i, (ts i).buffer.Fits s.memory)
    (hdistinct : Function.Injective fun i => (ts i).handle) (accesses : List (Access ts)) :
    ∃ answers m, performAll accesses s = .ok answers { s with memory := m } ∧
      answers.length = accesses.length ∧
      (∀ (place : Nat) (access : Access ts), accesses[place]? = some access →
        answers[place]? = some (access.answer (fun i => (ts i).buffer.data s.memory)
          (accesses.take place))) ∧
      ∀ (i : ι) (index : Nat) (value : (ts i).Word),
        (index < (ts i).buffer.size s.memory →
          ∃ id m', (ts i).handle = .ofId id ∧
            (ts i).buffer.set index value { s with memory := m } =
              .ok true { s with memory := m' } ∧
            m.Overwritten id (ts i).kind.element.size index value m') ∧
        (¬ index < (ts i).buffer.size s.memory →
          (ts i).buffer.set index value { s with memory := m } =
            .ok false { s with memory := m }) := by
  have hstart : Stand ts (fun i => (ts i).buffer.data s.memory) [] s.memory :=
    ⟨hhost, hfits, hdistinct, fun i =>
      (contents_nil (fun i => (ts i).buffer.data s.memory) i).symm⟩
  obtain ⟨answers, m, hrun, hstand, hlength, hanswers⟩ := hstart.performAll accesses
  refine ⟨answers, m, hrun, hlength, hanswers, fun i index value => ⟨fun hinside => ?_,
    fun houtside => ?_⟩⟩
  · rw [hstart.size_eq i] at hinside
    exact hstand.overwritten (s := { s with memory := m }) hinside value
  · rw [hstart.size_eq i, ← hstand.size_eq i] at houtside
    exact Buffer.set_of_not_lt (s := { s with memory := m }) houtside

/-- Three integers of two bytes, a copy of them, a shared copy, and the same as complex numbers. -/
def relatives : Session :=
  endState <| (do
    let source ← Buffer.arrayOf (c := .numeric) ArrayKind.int16 [3] [1, 2, 3]
    let _ ← source.tryClone
    let _ ← Container.wrap .numeric source.container.handle .shared
    Buffer.convertArray source ArrayKind.complex64 .coerce 0 :
      SessionM (Buffer (b := .numeric) ArrayKind.complex64)) { host := some .reference }

/-- The buffers of all four. -/
def relativeBuffers : Fin 4 → AnyBuffer
  | 0 => ⟨.numeric, ArrayKind.int16, ⟨⟨.ofId 0, .library, .reference⟩⟩⟩
  | 1 => ⟨.numeric, ArrayKind.int16, ⟨⟨.ofId 1, .library, .reference⟩⟩⟩
  | 2 => ⟨.numeric, ArrayKind.int16, ⟨⟨.ofId 2, .shared, .reference⟩⟩⟩
  | 3 => ⟨.numeric, ArrayKind.complex64, ⟨⟨.ofId 3, .library, .reference⟩⟩⟩

/-- What is written to the source and to the shared copy is read there, and only there. -/
theorem reads_of_relatives :
    let accesses : List (Access relativeBuffers) :=
      [.write 0 1 (-1), .read 1 1, .write 2 0 9, .read 0 0, .hostRead 0 1, .read 3 1]
    (∀ i, (relativeBuffers i).buffer.container.host = .reference) ∧
      (∀ i, (relativeBuffers i).buffer.Fits relatives.memory) ∧
      (Function.Injective fun i => (relativeBuffers i).handle) ∧
      ∃ answers m, performAll accesses relatives = .ok answers { relatives with memory := m } ∧
        answers[1]? = some ⟨1, some 2⟩ ∧ answers[3]? = some ⟨0, some 1⟩ ∧
        answers[4]? = some ⟨0, some (-1)⟩ ∧ answers[5]? = some ⟨3, some 0x4000000000000000⟩ := by
  intro accesses
  have hhost : ∀ i, (relativeBuffers i).buffer.container.host = .reference
    | 0 | 1 | 2 | 3 => rfl
  have hfits : ∀ i, (relativeBuffers i).buffer.Fits relatives.memory
    | 0 | 1 | 2 | 3 => Buffer.fits_of_room rfl (rfl : _ = ((3 : Nat) : Int)) (by decide +kernel)
  have hdistinct : Function.Injective fun i => (relativeBuffers i).handle := by
    unfold Function.Injective
    decide
  obtain ⟨answers, m, hrun, -, hanswers, -⟩ :=
    reads_last_written relativeBuffers relatives hhost hfits hdistinct accesses
  exact ⟨hhost, hfits, hdistinct, answers, m, hrun, hanswers 1 _ rfl, hanswers 3 _ rfl,
    hanswers 4 _ rfl, (hanswers 5 _ rfl).trans (congrArg some (by decide +kernel))⟩

end Access

end Custody
