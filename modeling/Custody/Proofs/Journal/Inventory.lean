import Custody.Proofs.Memory.Inventory
import Custody.Proofs.Journal.Trace

/-!
# What a library can do to a memory

A library reaches the memory of a host only through the table of the host.  So whatever it does,
successful or not, is a sequence of elementary changes: what `Memory.Leads` says of the table, it
says of every operation of a journal (`Journal.Step.leads`) and of every run (`Journal.Run.leads`).

The host is free in what it builds by itself, and a library may wrap a handle as a container of
another category.  Where elementary changes are to be strict, neither happens.
-/

namespace Custody

open SessionM Memory

variable {strict : Prop}

/-! ## What a host is asked for -/

namespace Memory

/-- All that a host is asked for while a container is made makes elementary changes only. -/
theorem admits_leads : Admits (Memory.Leads strict) where
  refl := .refl
  trans := .trans
  newArray := leads_newArray
  newImage := leads_newImage
  newList := leads_newList
  cloneIf accepts h m := leads_cloneIf m accepts h
  convertImage h code interleaved m := leads_convertImage h code interleaved m
  write t hhost index values m := leads_writeIn t hhost index values m
  free h m := leads_free m h
  disown h m := leads_disown m h

/-- The container is of the category of the live object that its handle names, if it names one. -/
def Suits (m : Memory) (k : AnyContainer) : Prop :=
  ∀ object, m.find? k.2.handle = some object → object.category = k.1

theorem converts_leads {m : Memory} {k : Container .numeric} (hsuits : strict → m.Suits k.any) :
    Converts (Memory.Leads strict) m k := by
  intro code method tolerance
  refine leads_convertArray (fun hstrict a ha => ?_) code method tolerance
  simpa [Object.category, Container.any] using hsuits hstrict _ ha

end Memory

/-! ## Operations of a journal -/

namespace Journal

variable {kept : Set Nat} {v w : Journal}

/-- Each container is of the category of what it holds. -/
def Tidy (v : Journal) : Prop := ∀ k ∈ v.containers, v.memory.Suits k

/-- Every operation makes elementary changes only.  They are strict if each container is of the
category of what it holds, and if what the host builds has elements of the size of their kind. -/
theorem Step.leads (h : Step kept v w) (hfit : v.Fit) (htidy : strict → v.Tidy)
    (hbuild : strict → v.memory.Builds w.memory → v.memory.BuildsTyped w.memory) :
    v.memory.Leads strict w.memory := by
  have hbuilds : v.memory.Builds w.memory → v.memory.Leads strict w.memory := by
    intro hbuilds
    -- only here can an array get elements of another size
    by_cases hstrict : strict
    · exact (hbuild hstrict hbuilds).leads
    · exact hbuilds.leads hstrict
  have hconverts : ∀ k : Container .numeric, k.any ∈ v.containers →
      Converts (Memory.Leads strict) v.memory k := fun k hk =>
    converts_leads fun hstrict => htidy hstrict k.any hk
  rcases h.gives_or_admitted admits_leads hfit hbuilds (fun _ => .aside) hconverts with
    ⟨p, hgives⟩ | hleads
  · rw [hgives.memory]
    exact .append v.memory p.node
  · exact hleads

/-- Every run makes elementary changes only. -/
theorem Run.leads (h : Run kept v w) (hfit : v.Fit) : w.Fit ∧ v.memory.Leads False w.memory := by
  induction h with
  | refl => exact ⟨hfit, .refl _⟩
  | step before last ih =>
    obtain ⟨hlastFit, hleads⟩ := ih hfit
    exact ⟨(last.effect hlastFit.host hlastFit.containers).fit hlastFit,
      hleads.trans (last.leads hlastFit False.elim False.elim)⟩
  | dispatch operation before hkind _ ihBefore ihEffect =>
    -- what runs in the operation runs after what came before it, and that is all
    obtain ⟨hlastFit, hleads⟩ := ihBefore hfit
    obtain ⟨heffectFit, heffect⟩ := ihEffect hlastFit
    rw [Estate.endState_dispatch hkind]
    exact ⟨heffectFit, hleads.trans heffect⟩

end Journal

end Custody
