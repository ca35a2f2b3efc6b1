import Custody.Proofs.Call.TextResult
import Custody.Proofs.Journal.Run

/-!
# Without a host

While no host is installed, nothing new can be asked for and no handle can be wrapped.  All else
that a library does asks the hosts of its containers, and comes out as if the reference host were
installed.  So an operation of a journal without a host does nothing, or it does what it does with
the host (`Journal.Step.hosted`); what is known of the one case is known of the other.
-/

namespace Custody

open SessionM

/-! ## Actions -/

/-- The session with the reference host installed. -/
def Session.hosted (s : Session) : Session := { s with host := some .reference }

/-- The same end, with the reference host installed. -/
def hostedEnd {α : Type} : EStateM.Result Stop Session α → EStateM.Result Stop Session α
  | .ok a s => .ok a s.hosted
  | .error stop s => .error stop s.hosted

section Ends

variable {α : Type} {x : SessionM α}

theorem endState_hostedEnd (r : EStateM.Result Stop Session α) :
    endState (hostedEnd r) = (endState r).hosted := by
  cases r <;> rfl

theorem gained_hostedEnd (given : α → AnyContainer) (r : EStateM.Result Stop Session α) :
    Estate.gained given (hostedEnd r) = Estate.gained given r := by
  cases r <;> rfl

theorem posted_hostedEnd (k : Container .list) (name : Option String) (stored : Option Stored)
    (r : EStateM.Result Stop Session Unit) :
    k.posted name stored (hostedEnd r) = k.posted name stored r := by
  cases r <;> rfl

theorem Confined.host (h : Confined x) (s : Session) : (endState (x s)).host = s.host := by
  obtain ⟨m, hend⟩ := h s
  rw [hend]

/-- Sessions that were the same but for their hosts still are, after the memory of each has become
another. -/
theorem Session.hosted_of_agrees {s t t' : Session} {m m' : Memory} (h : t.Agrees t')
    (ht : t = { s with memory := m }) (ht' : t' = { s.hosted with memory := m' }) :
    t' = t.hosted := by
  subst ht ht'
  have hmemory : m = m' := h.memory
  rw [hmemory]
  rfl

/-- What does not depend on the installed host ends as it does with the reference host. -/
theorem Alike.hosted (h : Alike x x) (hconfined : Confined x) (s : Session) :
    x s.hosted = hostedEnd (x s) := by
  have hsame : SameEnd (x s) (x s.hosted) := h s s.hosted ⟨rfl, rfl, rfl⟩
  obtain ⟨m, hend⟩ := hconfined s
  obtain ⟨m', hend'⟩ := hconfined s.hosted
  generalize x s = r at hsame hend ⊢
  generalize x s.hosted = r' at hsame hend' ⊢
  cases hsame with
  | ok a hagrees => exact congrArg (EStateM.Result.ok a) (Session.hosted_of_agrees hagrees hend hend')
  | error stop hagrees =>
    exact congrArg (EStateM.Result.error stop) (Session.hosted_of_agrees hagrees hend hend')

theorem Operates.hosted (h : Operates x) (s : Session) : x s.hosted = hostedEnd (x s) :=
  h.alike.hosted h.confined s

end Ends

/-- What makes a container fails without a host, or it does not depend on one. -/
theorem Estate.Makes.fails_or_alike {cs : Multiset AnyContainer} {α : Type}
    {given : α → AnyContainer} {x : SessionM α} (h : Makes cs given x) :
    (∀ s, s.host = none → ∃ stop, x s = .error stop s) ∨ Alike x x := by
  have hneeds : NeedsHost x → ∀ s, s.host = none → ∃ stop, x s = .error stop s :=
    fun hneeds s hs => ⟨_, hneeds.fails hs⟩
  cases h with
  | newArray kind extents => exact .inl (hneeds (.newArray kind extents))
  | newImage request => exact .inl (hneeds (.newImage request))
  | newList => exact .inl (hneeds .newList)
  | newTypedArray kind extents => exact .inl (hneeds (.newTypedArray kind extents))
  | newTypedImage kind slices width height channels colorSpace interleaved =>
    exact .inl (hneeds (.newTypedImage kind slices width height channels colorSpace interleaved))
  | @arrayOf c kind extents values =>
    cases hsize : Buffer.checkSize (.buffer (.array c)) extents values.length with
    | ok _ => exact .inl (hneeds (.arrayOf kind extents values hsize))
    | error cause =>
      exact .inl fun s _ => ⟨.failure cause, by rw [Buffer.arrayOf, hsize]; rfl⟩
  | imageOf kind extents colorSpace interleaved values =>
    cases hsize : Buffer.checkSize .image extents values.length with
    | ok _ =>
      by_cases haxes : extents.length = 3 ∨ extents.length = 4
      · exact .inl (hneeds (.imageOf kind extents colorSpace interleaved values hsize haxes))
      · refine .inl fun s _ => ⟨.failure (.allocation .image), ?_⟩
        unfold Buffer.imageOf
        rw [hsize, ofExcept_ok, pure_bind]
        split
        · simp at haxes
        · simp at haxes
        · rfl
    | error cause =>
      exact .inl fun s _ => ⟨.failure cause, by unfold Buffer.imageOf; rw [hsize]; rfl⟩
  | clone => exact .inr (Operates.clone _).alike
  | cloneTyped => exact .inr (Operates.cloneTyped _).alike
  | convertArray _ target method tolerance =>
    exact .inr (Operates.convertArray _ target method tolerance).alike
  | convertImage _ target interleaved =>
    exact .inr (Operates.convertImage _ target interleaved).alike
  | convertPixels _ target => exact .inr (Operates.convertPixels _ target).alike
  | convertTypedArray _ target method tolerance =>
    exact .inr (Operates.convertTypedArray _ target method tolerance).alike
  | convertTypedImage _ target interleaved =>
    exact .inr (Operates.convertTypedImage _ target interleaved).alike
  | wrap c h => exact .inl (hneeds (.wrap c h _))

/-! ## Operations of a journal -/

namespace Journal

variable {kept : Set Nat} {v w : Journal}

/-- The journal with the reference host installed. -/
def hosted (v : Journal) : Journal := { v with session := v.session.hosted }

/-- Without a host, an operation does nothing, or it does what it does with one. -/
theorem Step.hosted (h : Step kept v w) (hnone : v.session.host = none) :
    w.session.host = none ∧
      (w.session = v.session ∧ w.containers = v.containers ∨ Step kept v.hosted w.hosted) := by
  cases h with
  | build h => exact ⟨hnone, .inr (.build h)⟩
  | hostPost list name value => exact ⟨hnone, .inr (.hostPost list name value)⟩
  | aside host objects nodes size =>
    exact ⟨host.trans hnone, .inr (.aside rfl objects nodes size)⟩
  | @make s cs ps α given x h =>
    refine ⟨(h.confined.host s).trans hnone, ?_⟩
    rcases h.fails_or_alike with hfails | halike
    · obtain ⟨stop, hfailed⟩ := hfails s hnone
      rw [hfailed]
      exact .inl ⟨rfl, zero_add cs⟩
    · have hstep : Step kept ⟨s.hosted, cs, ps⟩ _ := .make h
      rw [halike.hosted h.confined, endState_hostedEnd, gained_hostedEnd] at hstep
      exact .inr hstep
  | @takeOver s cs ps c h hkept =>
    rw [(NeedsHost.wrap c h .automatic).fails hnone]
    exact ⟨hnone, .inl ⟨rfl, zero_add cs⟩⟩
  | @check s cs ps b k kind =>
    have hstep : Step kept ⟨s.hosted, k.any ::ₘ cs, ps⟩ _ := .check k kind
    rw [(Operates.check k kind).hosted, endState_hostedEnd, gained_hostedEnd] at hstep
    exact ⟨((Operates.check k kind).confined.host s).trans hnone, .inr hstep⟩
  | write ht index values => exact ⟨hnone, .inr (.write ht index values)⟩
  | @push s cs ps k hk name item =>
    have hstep : Step kept ⟨s.hosted, item.containers + cs, ps⟩ _ := .push hk name item
    rw [(Operates.push k name item).hosted, endState_hostedEnd, posted_hostedEnd] at hstep
    exact ⟨((Operates.push k name item).confined.host s).trans hnone, .inr hstep⟩
  | @pushRaw s cs ps k hk name item =>
    have hstep : Step kept ⟨s.hosted, cs, ps⟩ _ := .pushRaw hk name item
    rw [(Operates.pushRaw k name item).hosted, endState_hostedEnd, posted_hostedEnd] at hstep
    exact ⟨((Operates.pushRaw k name item).confined.host s).trans hnone, .inr hstep⟩
  | @pushAs s cs ps k hk name kind item =>
    have hstep : Step kept ⟨s.hosted, cs, ps⟩ _ := .pushAs hk name kind item
    rw [(Operates.pushAs k name kind item).hosted, endState_hostedEnd, posted_hostedEnd] at hstep
    exact ⟨((Operates.pushAs k name kind item).confined.host s).trans hnone, .inr hstep⟩
  | @pass s cs ps c k slot =>
    have hstep : Step kept ⟨s.hosted, k.any ::ₘ cs, ps⟩ _ := .pass k slot
    rw [Estate.session_setContainer] at hstep ⊢
    exact ⟨hnone, .inr hstep⟩
  | abandon k => exact ⟨hnone, .inr (.abandon k)⟩
  | @drop s cs ps c k =>
    have hstep : Step kept ⟨s.hosted, k.any ::ₘ cs, ps⟩ _ := .drop k
    rw [(Operates.drop k).hosted, endState_hostedEnd] at hstep
    exact ⟨((Operates.drop k).confined.host s).trans hnone, .inr hstep⟩
  | @notDispatched s cs ps b α k hkind operation =>
    rw [Estate.endState_notDispatched hkind]
    exact ⟨hnone, .inl ⟨rfl, rfl⟩⟩

end Journal

end Custody
