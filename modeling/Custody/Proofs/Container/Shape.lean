import Custody.Proofs.Container.Dispatch
import Custody.Proofs.Memory.Shape

/-!
# What a container tells of a shape

A container asks its host for the number of axes, for the extents and for the number of elements one
by one.  For a live buffer of its own category the answers fit together (`Container.TellsShape`),
also for an image, whose axes and extents are put together by the library.  A buffer of a kind shows
as many elements as it tells, all of them inside the storage (`Buffer.Fits`).
-/

namespace Custody

open Memory

/-! ## Asking about a live buffer -/

namespace Memory

variable {α : Type} {m : Memory} {b : BufferCategory} {h : Handle} {object : Object}

theorem askBuffer_of_array {a : ArrayObject} (hfound : m.find? h = some (.array a))
    (c : ArrayCategory) (default : α) (ofArray : ArrayObject → α) (ofImage : ImageObject → α) :
    m.askBuffer (.array c) h default ofArray ofImage = ofArray a := by
  simp [askBuffer, hfound]

theorem askBuffer_of_image {i : ImageObject} (hfound : m.find? h = some (.image i))
    (default : α) (ofArray : ArrayObject → α) (ofImage : ImageObject → α) :
    m.askBuffer .image h default ofArray ofImage = ofImage i := by
  simp [askBuffer, hfound]

/-- What the host shows of a live buffer of a category is its storage. -/
theorem storage_of_live (hfound : m.find? h = some object)
    (hcategory : object.category = .buffer b) :
    Host.reference.storage b h m = object.storage? := by
  obtain ⟨a, rfl, rfl⟩ | ⟨i, rfl, rfl⟩ := Object.buffer_cases hcategory
  · exact askBuffer_of_array hfound ..
  · exact askBuffer_of_image hfound ..

theorem setStorage_of_live (hfound : m.find? h = some object)
    (hcategory : object.category = .buffer b) (storage : Storage) :
    Host.reference.setStorage b h storage m = m.setStorage h storage := by
  obtain ⟨a, rfl, rfl⟩ | ⟨i, rfl, rfl⟩ := Object.buffer_cases hcategory
  · exact askBuffer_of_array hfound ..
  · exact askBuffer_of_image hfound ..

end Memory

namespace Container

section Live

variable {c : Category} {k : Container c} {m : Memory} {object : Object}

theorem isEmpty_of_live (hfound : m.find? k.handle = some object) : k.isEmpty = false :=
  isNull_of_find? hfound

/-- A container with a live handle asks the host. -/
theorem ask_of_live {α : Type} (hhost : k.host = .reference)
    (hfound : m.find? k.handle = some object) (default : α) (question : Host → Handle → α) :
    k.ask default question = question .reference k.handle := by
  rw [ask, isEmpty_of_live hfound, hhost]
  rfl

end Live

theorem storage?_of_live {b : BufferCategory} {k : Container (.buffer b)} {m : Memory}
    {object : Object} (hhost : k.host = .reference) (hfound : m.find? k.handle = some object)
    (hcategory : object.category = .buffer b) : k.storage? m = object.storage? :=
  (ask_of_live hhost hfound _ _).trans (storage_of_live hfound hcategory)

/-! ## Axes, extents and elements -/

section Array

variable {c : ArrayCategory} {k : Container (.buffer (.array c))} {m : Memory} {a : ArrayObject}

theorem rank_of_array (hhost : k.host = .reference) (hfound : m.find? k.handle = some (.array a)) :
    k.rank m = a.extents.length :=
  (ask_of_live hhost hfound _ _).trans (askBuffer_of_array hfound ..)

theorem length_of_array (hhost : k.host = .reference)
    (hfound : m.find? k.handle = some (.array a)) : k.length m = a.length :=
  (ask_of_live hhost hfound _ _).trans (askBuffer_of_array hfound ..)

/-- The host gives as many extents as it tells axes. -/
theorem extents_of_array (hhost : k.host = .reference)
    (hfound : m.find? k.handle = some (.array a)) : k.extents m = a.extents := by
  have hask : k.ask none (fun host h => host.extents c h m) = some a.extents :=
    (ask_of_live hhost hfound _ _).trans (askBuffer_of_array hfound ..)
  rw [extents, hask, rank_of_array hhost hfound]
  simp

end Array

section Image

variable {k : Container .image} {m : Memory} {i : ImageObject}

/-- An image with slices has one axis more. -/
theorem rank_of_image (hhost : k.host = .reference) (hfound : m.find? k.handle = some (.image i)) :
    k.rank m = if 0 < i.slices then 4 else 3 := by
  have hrank : Host.reference.rank .image k.handle m = if 0 < i.slices then 3 else 2 :=
    askBuffer_of_image hfound ..
  rw [rank, ask_of_live hhost hfound]
  show (Int64.ofInt (Host.reference.rank .image k.handle m) + 1).toInt = _
  rw [hrank]
  by_cases hslices : 0 < i.slices
  · rw [if_pos hslices, if_pos hslices]
    rfl
  · rw [if_neg hslices, if_neg hslices]
    rfl

theorem length_of_image (hhost : k.host = .reference)
    (hfound : m.find? k.handle = some (.image i)) : k.length m = i.length :=
  (ask_of_live hhost hfound _ _).trans (askBuffer_of_image hfound ..)

/-- What a container tells of its image is what the image says. -/
theorem askImage_of_image {α : Type} (hhost : k.host = .reference)
    (hfound : m.find? k.handle = some (.image i)) {question : Host → Handle → α} {default : α}
    {ofImage : ImageObject → α}
    (hquestion : question .reference k.handle = m.askImage k.handle default ofImage) :
    k.ask default question = ofImage i :=
  (ask_of_live hhost hfound _ _).trans (hquestion.trans (askBuffer_of_image hfound ..))

theorem slices_of_image (hhost : k.host = .reference)
    (hfound : m.find? k.handle = some (.image i)) : k.slices m = i.slices :=
  askImage_of_image hhost hfound rfl

theorem rows_of_image (hhost : k.host = .reference)
    (hfound : m.find? k.handle = some (.image i)) : k.rows m = i.rows :=
  askImage_of_image hhost hfound rfl

theorem columns_of_image (hhost : k.host = .reference)
    (hfound : m.find? k.handle = some (.image i)) : k.columns m = i.columns :=
  askImage_of_image hhost hfound rfl

theorem channels_of_image (hhost : k.host = .reference)
    (hfound : m.find? k.handle = some (.image i)) : k.channels m = i.channels :=
  askImage_of_image hhost hfound rfl

theorem isInterleaved_of_image (hhost : k.host = .reference)
    (hfound : m.find? k.handle = some (.image i)) : k.isInterleaved m = i.interleaved :=
  askImage_of_image hhost hfound rfl

/-- Rows, columns and channels are the extents of an image, and before them the slices if there are
any. -/
theorem extents_of_image (hhost : k.host = .reference)
    (hfound : m.find? k.handle = some (.image i)) :
    k.extents m =
      (if 0 < i.slices then [i.slices] else []) ++ [i.rows, i.columns, i.channels] := by
  have hempty : k.isEmpty = false := isEmpty_of_live hfound
  rw [extents, hempty, if_neg Bool.false_ne_true, hasSlices, slices_of_image hhost hfound,
    rows_of_image hhost hfound, columns_of_image hhost hfound, channels_of_image hhost hfound]
  simp only [decide_eq_true_eq]

end Image

variable {b : BufferCategory} {k : Container (.buffer b)} {m : Memory} {object : Object}
  {coded : Prop}

/-- The container tells as many extents as axes, and as many elements as their product says. -/
structure TellsShape (k : Container (.buffer b)) (m : Memory) : Prop where
  axes : ((k.extents m).length : Int) = k.rank m
  elements : (k.extents m).prod = k.length m

theorem tellsShape (hhost : k.host = .reference) (hfound : m.find? k.handle = some object)
    (hcategory : object.category = .buffer b) (hshaped : object.Shaped coded) :
    k.TellsShape m := by
  obtain ⟨a, rfl, rfl⟩ | ⟨i, rfl, rfl⟩ := Object.buffer_cases hcategory
  · obtain ⟨size, harray⟩ := hshaped.array
    constructor
    · rw [extents_of_array hhost hfound, rank_of_array hhost hfound]
    · rw [extents_of_array hhost hfound, length_of_array hhost hfound, harray.length]
  · have himage := hshaped.2
    have hslices := himage.slices
    constructor
    · rw [extents_of_image hhost hfound, rank_of_image hhost hfound]
      split <;> rfl
    · rw [extents_of_image hhost hfound, length_of_image hhost hfound, himage.length]
      -- an image without slices counts as one slice
      split
      case isTrue hpos =>
        rw [max_eq_left (by omega)]
        simp [mul_assoc]
      case isFalse hnone =>
        rw [max_eq_right (by omega)]
        simp [mul_assoc]

end Container

/-! ## Buffers of a known kind -/

/-- A buffer can carry the code of each kind. -/
theorem BufferCategory.canCarry_code : (b : BufferCategory) → (kind : b.Kind) → b.CanCarry kind.code
  | .tensor, _ => trivial
  | .numeric, (kind : ArrayKind) => by cases kind <;> rfl
  | .image, (kind : PixelKind) => by cases kind <;> rfl

namespace Buffer

variable {b : BufferCategory} {kind : b.Kind} {k : Container (.buffer b)} {m : Memory}
  {object : Object} {coded : Prop}

/-- The buffer shows as many elements as its container tells, all of them inside the storage. -/
structure Fits (t : Buffer kind) (m : Memory) : Prop where
  size : (t.size m : Int) = t.container.length m
  data : (t.data m).length = t.size m
  inside : ∃ storage, t.container.storage? m = some storage ∧
    t.size m * kind.element.size ≤ storage.size

/-- A buffer fits if its container shows storage with room for as many elements as it tells. -/
theorem fits_of_room {t : Buffer kind} {storage : Storage} {length : Nat}
    (hstorage : t.container.storage? m = some storage) (hlength : t.container.length m = length)
    (hroom : length * kind.element.size ≤ storage.size) : t.Fits m := by
  have hsize : t.size m = length := by
    rw [Buffer.size, hstorage, hlength]
    rfl
  refine ⟨by rw [hsize, hlength], ?_, storage, hstorage, hsize.symm ▸ hroom⟩
  rw [hsize, data, hstorage, hlength]
  simp [Storage.elements]

/-- What a live shaped buffer is checked to be of, it has room for. -/
theorem fits_of_asBuffer (hhost : k.host = .reference) (hfound : m.find? k.handle = some object)
    (hcategory : object.category = .buffer b) (hshaped : object.Shaped coded) (hcoded : ¬ coded)
    {t : Buffer kind} (ht : k.asBuffer kind m = .ok t) : t.Fits m := by
  obtain rfl := Container.eq_of_asBuffer ht
  have hkind : k.elementKind? m = some kind := by
    have hinto : k.intoBuffer kind { memory := m } = .ok ⟨k⟩ { memory := m } :=
      Container.intoBuffer_of_ok ht
    exact (Container.intoBuffer_eq_ok_iff (Container.isEmpty_of_live hfound)).mp ⟨_, _, hinto⟩
  have hcode : kind.code = k.code m := BufferCategory.kindOfCode?_eq_some_iff.mp hkind
  have hstorage := Container.storage?_of_live hhost hfound hcategory
  obtain ⟨a, rfl, rfl⟩ | ⟨i, rfl, rfl⟩ := Object.buffer_cases hcategory
  · obtain ⟨size, hsize, harray⟩ := hshaped.2 hcoded
    obtain ⟨actual, hactual, rfl⟩ := Option.map_eq_some_iff.mp hsize
    -- the code is that of a kind, so the host tells it as it is
    have hcarried : kind.code = a.code := by
      have hactual := BufferCategory.kindOfCode?_eq_some_iff.mp hactual
      have hcarries : k.Carries m (.array a) a.code := ⟨hfound, hcategory, rfl⟩
      rw [hcode, hcarries.code_eq hhost (hactual ▸ BufferCategory.canCarry_code _ actual)]
    obtain rfl : actual = kind := by
      rw [← hcarried, BufferCategory.kindOfCode?_eq_some_iff.mpr rfl] at hactual
      exact (Option.some.inj hactual).symm
    exact fits_of_room hstorage (Container.length_of_array hhost hfound) harray.room
  · have hcarried : PixelKind.code kind = i.code :=
      hcode.trans ((Container.ask_of_live hhost hfound _ _).trans (askBuffer_of_image hfound ..))
    have hsize : ImageObject.elementSize i.code = kind.element.size := by
      rw [← hcarried]
      exact ImageObject.elementSize_code kind
    have hroom := hshaped.2.room
    rw [hsize] at hroom
    exact fits_of_room hstorage (Container.length_of_image hhost hfound) hroom

end Buffer

end Custody
