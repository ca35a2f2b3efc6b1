import Custody.Session

/-!
# Actions at work

What the elementary actions give on a session, one equation for each.  Statements about longer
actions are proved from these equations.
-/

namespace Custody

/-- Where an action ended, with a value or without. -/
def endState {σ α : Type} : EStateM.Result Stop σ α → σ
  | .ok _ state => state
  | .error _ state => state

namespace SessionM

variable {α β : Type}

theorem bind_of_ok {x : SessionM α} {f : α → SessionM β} {s s' : Session} {a : α}
    (h : x s = .ok a s') : (x >>= f) s = f a s' := by
  show EStateM.bind x f s = f a s'
  rw [EStateM.bind, h]

theorem bind_of_error {x : SessionM α} {f : α → SessionM β} {s s' : Session} {stop : Stop}
    (h : x s = .error stop s') : (x >>= f) s = .error stop s' := by
  show EStateM.bind x f s = .error stop s'
  rw [EStateM.bind, h]

/-- What follows depends on how the first action ends on this session. -/
theorem bind_of_same {x y : SessionM α} {f : α → SessionM β} {s : Session} (h : x s = y s) :
    (x >>= f) s = (y >>= f) s := by
  show EStateM.bind x f s = EStateM.bind y f s
  rw [EStateM.bind, EStateM.bind, h]

@[simp] theorem ofExcept_ok (a : α) : ofExcept (.ok a) = (pure a : SessionM α) := rfl

@[simp] theorem onMemory_apply (f : Memory → α × Memory) (s : Session) :
    onMemory f s = .ok (f s.memory).1 { s with memory := (f s.memory).2 } := rfl

@[simp] theorem change_apply (f : Memory → Memory) (s : Session) :
    change f s = .ok () { s with memory := f s.memory } := rfl

@[simp] theorem memory_apply (s : Session) : SessionM.memory s = .ok s.memory s := rfl

theorem installedHost_apply {s : Session} {host : Host} (h : s.host = some host) :
    installedHost s = .ok host s := by
  have hstate : (get : SessionM Session) s = .ok s s := rfl
  rw [installedHost, bind_of_ok hstate, h]
  rfl

/-! ## Attempts -/

section Attempt

variable {x : SessionM α} {s s' : Session}

theorem attempt_of_ok {a : α} (h : x s = .ok a s') : attempt x s = .ok (.ok a) s' := by
  rw [attempt, h]

theorem attempt_of_failure {cause : Failure} (h : x s = .error (.failure cause) s') :
    attempt x s = .ok (.error cause) s' := by
  rw [attempt, h]

theorem attempt_of_panic (h : x s = .error .panic s') : attempt x s = .error .panic s' := by
  rw [attempt, h]

end Attempt

/-! ## How actions end -/

/-- The action ends with a value and a session of which `ok` holds, or it stops in a session of
which `stopped` holds. -/
def Ends (x : SessionM α) (s : Session) (ok : α → Session → Prop)
    (stopped : Session → Prop) : Prop :=
  match x s with
  | .ok a s => ok a s
  | .error _ s => stopped s

namespace Ends

variable {s : Session} {ok : α → Session → Prop} {stopped : Session → Prop}

theorem of_ok {x : SessionM α} {a : α} {s' : Session} (h : x s = .ok a s') (hok : ok a s') :
    Ends x s ok stopped := by
  rwa [Ends, h]

/-- What holds however the action ends, holds in the end. -/
theorem endState {x : SessionM α} {P : Session → Prop} (h : Ends x s (fun _ => P) P) :
    P (endState (x s)) := by
  unfold Ends at h
  cases hresult : x s with
  | ok a s' => rwa [hresult] at h
  | error stop s' => rwa [hresult] at h

/-- The rule of consequence. -/
theorem imp {x : SessionM α} {ok' : α → Session → Prop} {stopped' : Session → Prop}
    (h : Ends x s ok stopped) (hok : ∀ a s', ok a s' → ok' a s')
    (hstopped : ∀ s', stopped s' → stopped' s') : Ends x s ok' stopped' := by
  unfold Ends at h ⊢
  cases hresult : x s with
  | ok a s' => exact hok a s' (by rwa [hresult] at h)
  | error stop s' => exact hstopped s' (by rwa [hresult] at h)

/-- The rule for a sequence: what the first action leaves is what the second starts with. -/
theorem bind {x : SessionM α} {f : α → SessionM β} {ok' : β → Session → Prop}
    (h : Ends x s ok stopped) (hf : ∀ a s', ok a s' → Ends (f a) s' ok' stopped) :
    Ends (x >>= f) s ok' stopped := by
  unfold Ends at h
  cases hresult : x s with
  | ok a s' =>
    rw [Ends, bind_of_ok hresult]
    exact hf a s' (by rwa [hresult] at h)
  | error stop s' =>
    -- the second action does not run
    rw [Ends, bind_of_error hresult]
    rwa [hresult] at h

theorem step {x : SessionM α} {f : α → SessionM β} {a : α} {s' : Session}
    {ok : β → Session → Prop} (h : x s = .ok a s') (hf : Ends (f a) s' ok stopped) :
    Ends (x >>= f) s ok stopped := by
  rwa [Ends, bind_of_ok h]

/-- A check stops the action where it is, or lets it go on. -/
theorem check {e : Except Failure β} {f : β → SessionM α}
    (hok : ∀ b, e = .ok b → Ends (f b) s ok stopped)
    (hstopped : stopped s) : Ends (ofExcept e >>= f) s ok stopped := by
  cases he : e with
  | ok b => exact hok b he
  | error cause => exact hstopped

end Ends

end SessionM

end Custody
