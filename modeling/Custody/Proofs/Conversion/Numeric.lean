import Custody.Proofs.Container.Create
import Custody.Proofs.Memory.Storage
import Custody.Proofs.Memory.Unfolding

/-!
# Arrays are converted element by element

An array is converted if every element of it is, and each element is converted by itself: what
becomes of it depends on the two kinds, the method and the tolerance, and on no other element
(`convertElement`).  If one element is lost, nothing has happened.

The elements of the result share words of another size than those of the source.  A checking method
reads an element back from such a word before it goes on to the next one; that comes to the same as
looking at the element before it was written.

- `ArrayObject.convert?_eq_inPlace`: the conversion, run in the storage of the result.
- `ArrayObject.convertedFrom_of_convert?`: what it gives.
- `ArrayObject.isSome_convert?_iff`: when it gives something.
- `Container.convertArray_elementwise`: the conversion of a container.
-/

namespace Custody

open SessionM

/-! ## Traversals -/

section Traversal

variable {α β : Type} {f : α → Option β} {as : List α} {bs : List β}

theorem length_of_mapM_eq_some (h : as.mapM f = some bs) : bs.length = as.length := by
  induction as generalizing bs with
  | nil =>
    obtain rfl : [] = bs := by simpa using h
    rfl
  | cons a as ih =>
    obtain ⟨b, rest, -, hrest, rfl⟩ := Memory.mapM_cons_eq_some_iff.mp h
    rw [List.length_cons, List.length_cons, ih hrest]

/-- What stands at an index comes from what stood there. -/
theorem getElem?_of_mapM_eq_some (h : as.mapM f = some bs) (index : Nat) :
    bs[index]? = as[index]?.bind f := by
  induction as generalizing bs index with
  | nil =>
    obtain rfl : [] = bs := by simpa using h
    simp
  | cons a as ih =>
    obtain ⟨b, rest, hb, hrest, rfl⟩ := Memory.mapM_cons_eq_some_iff.mp h
    cases index with
    | zero => simp [hb]
    | succ index => simpa using ih hrest index

end Traversal

/-! ## The conversion in place -/

section InPlace

variable (source target : ArrayKind) (method : ConvertMethod) (tolerance : Number.Double)

/-- The conversion as it runs in the storage of the result: at each index the converted element is
written, and a checking method reads it back from there before it decides. -/
def convertInPlace (given : Storage) : List Nat → Storage → Option Storage
  | [], made => some made
  | index :: rest, made =>
    let z := prepare source target method
      (source.element.toComplex (given.read source.element.size index))
    let made := made.write target.element.size index (target.element.ofComplex z)
    if method.checks
        && strays tolerance z (target.element.toComplex (made.read target.element.size index)) then
      none
    else convertInPlace given rest made

variable {source target method tolerance}

/-- One turn of the loop: what was written is what is read back, so the element is converted or
lost. -/
theorem convertInPlace_cons (given : Storage) {made : Storage} {index : Nat} (rest : List Nat)
    (hroom : (index + 1) * target.element.size ≤ made.size) :
    convertInPlace source target method tolerance given (index :: rest) made =
      (convertElement source target method tolerance (given.read source.element.size index)).bind
        fun element => convertInPlace source target method tolerance given rest
          (made.write target.element.size index element) := by
  rw [convertInPlace, convertElement, Storage.read_write_self made _ hroom]
  split <;> rfl

/-- The loop from an index on. -/
theorem convertInPlace_range' (given : Storage) {made : Storage} {first count : Nat}
    (hroom : (first + count) * target.element.size ≤ made.size) :
    convertInPlace source target method tolerance given (List.range' first count) made =
      (((List.range' first count).map (given.read source.element.size)).mapM
        (convertElement source target method tolerance)).map
          (made.writeFrom target.element.size first) := by
  induction count generalizing first made with
  | zero => rfl
  | succ count ih =>
    have hfirst : (first + 1) * target.element.size ≤ made.size :=
      (Nat.mul_le_mul_right _ (by omega)).trans hroom
    rw [List.range'_succ, convertInPlace_cons given _ hfirst, List.map_cons, List.mapM_cons]
    -- a lost element ends the loop, and the traversal
    cases convertElement source target method tolerance
        (given.read source.element.size first) with
    | none => rfl
    | some element =>
      have hrest : (first + 1 + count) * target.element.size ≤
          (made.write target.element.size first element).size := by
        rwa [Storage.size_write, Nat.add_right_comm, Nat.add_assoc]
      rw [Option.bind_some, ih hrest]
      simp only [Option.bind_eq_bind, Option.bind_some, Option.pure_def, Option.map_eq_bind,
        Option.bind_assoc]
      rfl

end InPlace

namespace ArrayObject

variable {a b : ArrayObject} {source target : ArrayKind} {method : ConvertMethod}
  {tolerance : Number.Double}

/-- The elements of an array of a known kind are converted and written from the first index on. -/
theorem convert?_of_code (hsource : ArrayKind.ofCode? a.code = some source) :
    a.convert? target method tolerance =
      ((a.storage.elements source.element.size a.length).mapM
        (convertElement source target method tolerance)).map fun elements =>
          { a with
            code := target.code
            storage := (Storage.allocate a.length target.element.size).writeFrom
              target.element.size 0 elements } := by
  unfold convert?
  rw [hsource, Option.map_eq_bind]
  rfl

/-- An array is converted in the storage of the result, one element after another. -/
theorem convert?_eq_inPlace (hsource : ArrayKind.ofCode? a.code = some source) :
    a.convert? target method tolerance =
      (convertInPlace source target method tolerance a.storage (List.range a.length)
        (.allocate a.length target.element.size)).map fun storage =>
          { a with code := target.code, storage } := by
  have hroom : (0 + a.length) * target.element.size ≤
      (Storage.allocate a.length target.element.size).size := by
    rw [Nat.zero_add]
    exact Storage.room_allocate a.length target.element.size
  rw [convert?_of_code hsource, Storage.elements, List.range_eq_range',
    convertInPlace_range' a.storage hroom, Option.map_map]
  rfl

/-! ## What a conversion gives -/

/-- The array holds, element by element, what is made of the elements of another one.  It has the
extents of the other one, and full storage. -/
structure ConvertedFrom (b a : ArrayObject) (source target : ArrayKind) (method : ConvertMethod)
    (tolerance : Number.Double) : Prop where
  category : b.category = a.category
  code : b.code = target.code
  extents : b.extents = a.extents
  length : b.length = a.length
  storage : b.storage.size = 8 * Storage.words a.length target.element.size
  element : ∀ index < a.length,
    convertElement source target method tolerance (a.storage.read source.element.size index) =
      some (b.storage.read target.element.size index)

/-- The kind of the array is known, and none of its elements is lost. -/
def Convertible (a : ArrayObject) (target : ArrayKind) (method : ConvertMethod)
    (tolerance : Number.Double) : Prop :=
  ∃ source, ArrayKind.ofCode? a.code = some source ∧ ∀ index < a.length,
    (convertElement source target method tolerance
      (a.storage.read source.element.size index)).isSome

theorem convertedFrom_of_convert? (hsource : ArrayKind.ofCode? a.code = some source)
    (h : a.convert? target method tolerance = some b) :
    b.ConvertedFrom a source target method tolerance := by
  rw [convert?_of_code hsource] at h
  obtain ⟨elements, helements, rfl⟩ := Option.map_eq_some_iff.mp h
  have hlength : elements.length = a.length :=
    (length_of_mapM_eq_some helements).trans (Storage.length_elements ..)
  have hroom : (0 + elements.length) * target.element.size ≤
      (Storage.allocate a.length target.element.size).size := by
    rw [Nat.zero_add, hlength]
    exact Storage.room_allocate a.length target.element.size
  refine ⟨rfl, rfl, rfl, rfl, ?_, fun index hindex => ?_⟩
  · rw [Storage.size_writeFrom, Storage.size_allocate]
  · -- what was written at the index is read there, whatever was written around it
    have hat := getElem?_of_mapM_eq_some helements index
    rw [Storage.getElem?_elements, if_pos hindex, Option.bind_some] at hat
    have hinside : index < elements.length := hlength.symm ▸ hindex
    show _ = some (((Storage.allocate a.length target.element.size).writeFrom
      target.element.size 0 elements).read target.element.size index)
    rw [← hat, Storage.read_writeFrom _ _ hroom, if_pos (Nat.zero_le _), Nat.sub_zero,
      List.getD_eq_getElem?_getD, List.getElem?_eq_getElem hinside, Option.getD_some]

/-- An array is converted exactly if none of its elements is lost. -/
theorem isSome_convert?_iff :
    (∃ b, a.convert? target method tolerance = some b) ↔
      a.Convertible target method tolerance := by
  constructor
  · rintro ⟨b, h⟩
    obtain ⟨source, hsource, -⟩ := Option.bind_eq_some_iff.mp h
    refine ⟨source, hsource, fun index hindex => ?_⟩
    rw [(convertedFrom_of_convert? hsource h).element index hindex]
    rfl
  · rintro ⟨source, hsource, hall⟩
    have hexists : ∀ w ∈ a.storage.elements source.element.size a.length,
        ∃ v, convertElement source target method tolerance w = some v := by
      intro w hw
      obtain ⟨index, hindex, rfl⟩ := List.mem_map.mp hw
      exact Option.isSome_iff_exists.mp (hall index (List.mem_range.mp hindex))
    obtain ⟨elements, helements⟩ := Memory.mapM_eq_some_of_exists hexists
    rw [convert?_of_code hsource, helements]
    exact ⟨_, rfl⟩

end ArrayObject

/-! ## Containers -/

namespace Container

section Outcome

variable {s : Session} {k : Container .numeric} {a : ArrayObject} {target : ArrayKind}
  {method : ConvertMethod} {tolerance : Number.Double}

theorem convertArray_of_convertible (hhost : k.host = .reference)
    (hfound : s.memory.find? k.handle = some (.array a)) (hon : s.memory.failConversions = false)
    {source : ArrayKind} (hsource : ArrayKind.ofCode? a.code = some source)
    (hconvertible : a.Convertible target method tolerance) :
    ∃ b m, k.convertArray target method tolerance s =
        .ok ⟨.ofId s.memory.allocations.size, .library, .reference⟩ { s with memory := m } ∧
      s.memory.IssuedConverted (.array b) m ∧ b.ConvertedFrom a source target method tolerance := by
  obtain ⟨b, hmade⟩ := ArrayObject.isSome_convert?_iff.mpr hconvertible
  obtain ⟨m, hrun, hissued⟩ := convertArray_of_some hhost hfound hon hmade
  exact ⟨b, m, hrun, hissued, ArrayObject.convertedFrom_of_convert? hsource hmade⟩

theorem convertArray_of_not_convertible (hhost : k.host = .reference)
    (hfound : s.memory.find? k.handle = some (.array a))
    (hnot : ¬ (s.memory.failConversions = false ∧ a.Convertible target method tolerance)) :
    k.convertArray target method tolerance s =
      .error (.failure (.conversion .numeric target.label)) s := by
  apply convertArray_of_refused hhost hfound
  rw [not_and_or, Bool.not_eq_false] at hnot
  refine hnot.imp_right fun hlost => ?_
  rw [← Option.not_isSome_iff_eq_none, Option.isSome_iff_exists, ArrayObject.isSome_convert?_iff]
  exact hlost

end Outcome

/-- **A conversion is element-wise and atomic.**  An array is converted exactly if conversions are
not switched off, its kind is known and none of its elements is lost.  The library then owns a new
array of the same extents, in which every element is the converted one; the source and all else are
as before, and one conversion more is counted.  Otherwise the conversion fails with the kind that
was asked for, and nothing has changed. -/
theorem convertArray_elementwise {s : Session} {k : Container .numeric} {a : ArrayObject}
    (hhost : k.host = .reference) (hfound : s.memory.find? k.handle = some (.array a))
    (target : ArrayKind) (method : ConvertMethod) (tolerance : Number.Double) :
    ((∃ k' s', k.convertArray target method tolerance s = .ok k' s') ↔
      s.memory.failConversions = false ∧ a.Convertible target method tolerance) ∧
    (∀ k' s', k.convertArray target method tolerance s = .ok k' s' →
      ∃ source b m, ArrayKind.ofCode? a.code = some source ∧
        k' = ⟨.ofId s.memory.allocations.size, .library, .reference⟩ ∧
        s' = { s with memory := m } ∧ s.memory.IssuedConverted (.array b) m ∧
        b.ConvertedFrom a source target method tolerance ∧
        m.find? k.handle = some (.array a)) ∧
    ∀ stop s', k.convertArray target method tolerance s = .error stop s' →
      stop = .failure (.conversion .numeric target.label) ∧ s' = s := by
  by_cases hgiven : s.memory.failConversions = false ∧ a.Convertible target method tolerance
  case pos =>
    obtain ⟨source, hsource, -⟩ := hgiven.2
    obtain ⟨b, m, hrun, hissued, hfrom⟩ :=
      convertArray_of_convertible hhost hfound hgiven.1 hsource hgiven.2
    rw [hrun]
    refine ⟨iff_of_true ⟨_, _, rfl⟩ hgiven, ?_, ?_⟩
    · rintro k' s' hok
      obtain ⟨rfl, rfl⟩ := EStateM.Result.ok.inj hok
      exact ⟨source, b, m, hsource, rfl, rfl, hissued, hfrom, hissued.find?_of_live hfound⟩
    · rintro stop s' ⟨⟩
  case neg =>
    rw [convertArray_of_not_convertible hhost hfound hgiven]
    refine ⟨iff_of_false ?_ hgiven, ?_, ?_⟩
    · rintro ⟨k', s', ⟨⟩⟩
    · rintro k' s' ⟨⟩
    · rintro stop s' hstop
      obtain ⟨rfl, rfl⟩ := EStateM.Result.error.inj hstop
      exact ⟨rfl, rfl⟩

/-- An array of the numbers 1, 2 and 300, each in two bytes. -/
def threeShorts : ArrayObject := ⟨.numeric, 4, [3], 3, ⟨#[1, 0, 2, 0, 44, 1, 0, 0]⟩⟩

def withShorts : Session where
  memory := { allocations := #[⟨some (.array threeShorts), 0⟩] }

def ofShorts : Container .numeric := ⟨.ofId 0, .library, .reference⟩

/-- In one byte each, the last number is clipped, or it makes a checked conversion fail. -/
theorem convertArray_of_shorts :
    ofShorts.host = .reference ∧
      withShorts.memory.find? ofShorts.handle = some (.array threeShorts) ∧
      (∃ b m, ofShorts.convertArray .uint8 .clipCoerce (Number.Binary.pack false 0) withShorts =
          .ok ⟨.ofId 1, .library, .reference⟩ { withShorts with memory := m } ∧
        m.find? (.ofId 1) = some (.array b) ∧ b.storage.elements 1 3 = [1, 2, 255]) ∧
      ofShorts.convertArray .uint8 .check (Number.Binary.pack false 0) withShorts =
        .error (.failure (.conversion .numeric ArrayKind.uint8.label)) withShorts := by
  obtain ⟨hclips, hgiven, -⟩ := convertArray_elementwise (s := withShorts) (k := ofShorts)
    (a := threeShorts) rfl rfl .uint8 .clipCoerce (Number.Binary.pack false 0)
  obtain ⟨hchecks, -, hlost⟩ := convertArray_elementwise (s := withShorts) (k := ofShorts)
    (a := threeShorts) rfl rfl .uint8 .check (Number.Binary.pack false 0)
  refine ⟨rfl, rfl, ?_, ?_⟩
  · obtain ⟨k', s', hok⟩ := hclips.mpr ⟨rfl, .uint16, rfl, by decide⟩
    obtain ⟨source, b, m, hsource, rfl, rfl, hissued, hfrom, -⟩ := hgiven k' s' hok
    obtain rfl : source = .uint16 := (Option.some.inj hsource).symm
    refine ⟨b, m, hok, hissued.find?, ?_⟩
    have hread : ∀ index < 3, some (b.storage.read 1 index) =
        convertElement .uint16 .uint8 .clipCoerce (Number.Binary.pack false 0)
          (threeShorts.storage.read 2 index) :=
      fun index hindex => (hfrom.element index hindex).symm
    have hzero : b.storage.read 1 0 = 1 := Option.some.inj (hread 0 (by decide))
    have hone : b.storage.read 1 1 = 2 := Option.some.inj (hread 1 (by decide))
    have htwo : b.storage.read 1 2 = 255 := Option.some.inj (hread 2 (by decide))
    show [b.storage.read 1 0, b.storage.read 1 1, b.storage.read 1 2] = _
    rw [hzero, hone, htwo]
  · cases hrun : ofShorts.convertArray .uint8 .check (Number.Binary.pack false 0) withShorts with
    | ok k' s' =>
      obtain ⟨-, source, hsource, hall⟩ := hchecks.mp ⟨k', s', hrun⟩
      obtain rfl : source = .uint16 := (Option.some.inj hsource).symm
      exact absurd (hall 2 (by decide)) (by decide)
    | error stop s' =>
      obtain ⟨rfl, rfl⟩ := hlost stop s' hrun
      rfl

end Container

end Custody
