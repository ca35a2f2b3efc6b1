import Custody.Proofs.Container.Duty
import Custody.DataList.Append

/-!
# Handing containers to lists

A container that is appended to a list of the library is used up.  If the list accepts it, its duty
is now that of the list; otherwise it is dropped.  Either way one duty goes, and none is left behind.
-/

namespace Custody

open SessionM Memory

variable {s : Session} {handles : Multiset Handle}

theorem nestedCategory?_argumentKind (c : Category) :
    nestedCategory? c.argumentKind.code = some c := by
  rw [nestedCategory?_code]
  rcases c with ((_ | _) | _) | _ <;> rfl

theorem nestedCategory?_plain (value : Plain) : nestedCategory? value.kind.code = none := by
  cases value <;> rfl

namespace Container

variable {c : Category} {k : Container .list} {held : Container c}

/-- A list of the library, empty or not, that appends an object takes its duty over, or it fails and
leaves the session as it was. -/
theorem addHandle_cases (hs : s.Sound (held.duty + handles)) (howner : held.owner ≠ .host)
    (hk : k.Fit) (hlibrary : k.owner = .library) (hlist : ∀ h ∈ k.duty, h ∈ handles)
    (name : Option String) :
    (∃ s', k.addHandle name c.argumentKind held.handle s = .ok () s' ∧ s'.Sound handles) ∨
      ∃ cause, k.addHandle name c.argumentKind held.handle s = .error (.failure cause) s := by
  unfold addHandle
  -- the checks of the library come first, and each of them leaves the session alone
  by_cases hnull : held.handle.isNull = true
  · exact .inr ⟨.nullNode, by rw [if_pos hnull]; rfl⟩
  rw [if_neg hnull]
  rw [duty_eq_singleton howner (by simpa [isEmpty] using hnull)] at hs
  obtain ⟨id, roots, hid, rfl, haccounted⟩ := hs.exists_root
  rw [hid]
  have hwrapper : (c.argumentKind.isPrimitive || c.argumentKind.isWrapper) = true := by
    rcases c with ((_ | _) | _) | _ <;> rfl
  unfold addNode
  by_cases hempty : k.isEmpty = true
  · exact .inr ⟨.nullHandle .list, by rw [require, if_pos hempty]; rfl⟩
  rw [require, if_neg hempty, ofExcept_ok, pure_bind, if_pos hwrapper]
  cases hname : name.mapM encodeText with
  | error cause => exact .inr ⟨cause, rfl⟩
  | ok name =>
    -- the list is one of the other roots, so the memory is asked about a list that is not `held`
    have hduty : k.duty = {k.handle} :=
      duty_eq_singleton (by simp [hlibrary]) (by simpa using hempty)
    obtain ⟨list, hmem, hhandle⟩ :=
      Multiset.mem_map.mp (hlist k.handle (by rw [hduty]; exact Multiset.mem_singleton_self _))
    have hask : k.host.addNode k.handle name c.argumentKind.code (.handle (.ofId id)) s.memory =
        s.memory.addNode list name c.argumentKind.code (.handle (.ofId id)) := by
      rw [hk.host, ← hhandle]
      simp [Host.reference]
    rw [ofExcept_ok, pure_bind, bind_of_ok (onMemory_apply _ s), hask]
    have hcode : nestedCategory? c.argumentKind.code ≠ none := by
      rw [nestedCategory?_argumentKind]
      exact Option.some_ne_none c
    rcases haccounted.addNode_object hmem hcode with hrefused | ⟨m', hadded, hmoved⟩
    · rw [hrefused]
      exact .inr ⟨_, rfl⟩
    · rw [hadded]
      exact .inl ⟨_, rfl, hs.host, roots, rfl, hmoved⟩

/-- Appending a container uses it up. -/
theorem ends_push_container (hs : s.Sound (held.duty + handles)) (hheld : held.Fit)
    (howner : held.owner ≠ .host) (hk : k.Fit) (hlibrary : k.owner = .library)
    (hlist : ∀ h ∈ k.duty, h ∈ handles) (name : Option String) :
    Ends (k.push name (.container held)) s (fun _ s' => s'.Sound handles)
      fun s' => s'.Sound handles := by
  rcases addHandle_cases hs howner hk hlibrary hlist name with
    ⟨s', hadded, hs'⟩ | ⟨cause, hrefused⟩
  · exact .step (attempt_of_ok hadded) hs'
  · apply Ends.step (attempt_of_failure hrefused)
    exact (ends_drop hs hheld).bind fun _ _ hs' => hs'

/-- Appending a plain value moves nothing. -/
theorem ends_push_plain (hs : s.Sound handles) (hk : k.Fit) (name : Option String)
    (value : Plain) :
    Ends (k.push name (.plain value)) s (fun _ s' => s'.Sound handles)
      fun s' => s'.Sound handles := by
  -- the value and the list are checked before anything happens
  refine .check (fun stored _ => .check (fun h _ => ?_) hs) hs
  split
  case isFalse => exact hs
  case isTrue =>
    refine .check (fun name _ => .step (onMemory_apply _ s) ?_) hs
    have hmoved : { s with
        memory := (k.host.addNode h name value.kind.code stored s.memory).2 }.Sound handles := by
      apply hs.change
      intro roots haccounted
      rw [hk.host]
      exact haccounted.reference_addNode_plain h name (nestedCategory?_plain value) stored
    split
    · exact hmoved
    · exact hmoved

end Container

end Custody
