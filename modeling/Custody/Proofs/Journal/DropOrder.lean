import Custody.Proofs.Estate.NoLeak
import Custody.Proofs.Journal.Run
import Custody.Proofs.Memory.ReleaseOrder

/-!
# Containers dropped in another order

Several containers may hold one handle, or handles of objects that hold each other, or handles that
name nothing any more.  Dropping them asks for one release each, of those that the library owns or
shares, so the order in which they are dropped does not matter for what is left
(`drop_order_does_not_matter`).
-/

namespace Custody

open SessionM Memory

/-! ## The release of a container -/

namespace Container

variable {c : Category}

/-- The release that dropping a container asks for: of its handle as a whole, or of one share. -/
def release? (k : Container c) : Option (Bool × Handle) :=
  if k.isEmpty then none
  else
    match k.owner.release with
    | .free => some (true, k.handle)
    | .disown => some (false, k.handle)
    | .keep => none

theorem isSome_release? (k : Container c) :
    k.release?.isSome = (!k.isEmpty && k.owner != .host) := by
  unfold release?
  cases k.isEmpty <;> cases k.owner <;> rfl

theorem Fit.releaseIn_eq {k : Container c} (hfit : k.Fit) (m : Memory) :
    k.releaseIn m = m.giveUpAll k.release?.toList := by
  unfold releaseIn release?
  cases k.isEmpty with
  | true => rfl
  | false =>
    cases howner : k.owner with
    | host => rfl
    | library =>
      show k.host.free c k.handle m = m.free k.handle
      rw [hfit.host]
      rfl
    | shared =>
      -- only buffers are shared, so there is a share to give up
      have hshareable := hfit.shareable howner
      cases c with
      | list => cases hshareable
      | buffer b =>
        show k.host.disown b k.handle m = m.disown k.handle
        rw [hfit.host]
        rfl

end Container

namespace Estate

/-- Dropping containers changes nothing but the memory. -/
theorem dropAll_eq (ks : List AnyContainer) (hfit : ∀ k ∈ ks, k.2.Fit) (s : Session) :
    dropAll ks s =
      .ok () { s with memory := s.memory.giveUpAll (ks.filterMap fun k => k.2.release?) } := by
  induction ks generalizing s with
  | nil => rfl
  | cons k rest ih =>
    have hdrop : k.2.drop s = .ok () { s with memory := k.2.releaseIn s.memory } := rfl
    have hrest : ∀ other ∈ rest, other.2.Fit := fun other hother =>
      hfit other (List.mem_cons_of_mem _ hother)
    rw [dropAll, bind_of_ok hdrop, ih hrest, (hfit k List.mem_cons_self).releaseIn_eq,
      List.filterMap_cons]
    cases k.2.release? <;> rfl

end Estate

/-! ## Any two orders -/

namespace Journal

open Estate

/-- **The order in which containers are dropped does not matter for what is left.**  In every run
from a fresh host no list is ever shared, whatever the containers were made of.  Any collection of
such containers, of whatever handles, can be dropped on any memory, and any two orders leave the
same live objects, each with the same contents and as many shares; and each container with a handle
that the library owns or shares is counted once, as a release of something live or of something
dead. -/
theorem drop_order_does_not_matter :
    (∀ (kept : Set Nat) (s : Session) (config : Config) (w : Journal),
      Run kept (fresh s config) w → ∀ k ∈ w.containers, k.2.Fit) ∧
    ∀ (s : Session) (ks ks' : List AnyContainer), (∀ k ∈ ks, k.2.Fit) → ks.Perm ks' →
      ∃ m m', dropAll ks s = .ok () { s with memory := m } ∧
        dropAll ks' s = .ok () { s with memory := m' } ∧ m.Agree m' ∧
        m.attempts = s.memory.attempts +
          ks.countP (fun k => !k.2.isEmpty && k.2.owner != .host) ∧
        m'.attempts = m.attempts := by
  refine ⟨fun kept s config w hrun => ?fit, fun s ks ks' hfit hperm => ?order⟩
  case fit =>
    have hinvariant := hrun.invariant (P := fun _ => True) (fit_fresh s config) trivial
      fun _ _ _ _ _ _ => trivial
    exact hinvariant.1.containers
  have hfit' : ∀ k ∈ ks', k.2.Fit := fun k hk => hfit k (hperm.mem_iff.mpr hk)
  have hreleases := hperm.filterMap fun k => k.2.release?
  refine ⟨_, _, dropAll_eq ks hfit s, dropAll_eq ks' hfit' s, giveUpAll_perm hreleases s.memory,
    ?counted, ?same⟩
  case counted =>
    rw [attempts_giveUpAll, List.length_filterMap_eq_countP]
    simp only [Container.isSome_release?]
  case same => rw [attempts_giveUpAll, attempts_giveUpAll, hreleases.length_eq]

/-- Two lists that hold each other, a buffer that is shared on the handle of one of them, a handle
that names nothing, and a list that the host keeps. -/
def tangled : List AnyContainer :=
  [⟨.list, .ofId 0, .library, .reference⟩, ⟨.buffer .image, .ofId 0, .shared, .reference⟩,
    ⟨.list, .ofId 1, .library, .reference⟩, ⟨.buffer .tensor, .ofId 9, .library, .reference⟩,
    ⟨.list, .ofId 3, .host, .reference⟩]

theorem tangled_in_two_orders :
    (∀ k ∈ tangled, k.2.Fit) ∧
    ∃ m m', dropAll tangled { memory := circle } = .ok () { memory := m } ∧
      dropAll tangled.reverse { memory := circle } = .ok () { memory := m' } ∧ m.Agree m' ∧
      m.attempts = 4 ∧ m'.attempts = 4 := by
  have hfit : ∀ k ∈ tangled, k.2.Fit := by
    intro k hk
    simp only [tangled, List.mem_cons, List.not_mem_nil, or_false] at hk
    rcases hk with rfl | rfl | rfl | rfl | rfl <;> exact ⟨rfl, by decide⟩
  obtain ⟨-, horder⟩ := drop_order_does_not_matter
  obtain ⟨m, m', hm, hm', hagree, hcount, hsame⟩ :=
    horder { memory := circle } tangled tangled.reverse hfit (List.reverse_perm _).symm
  have hfour : m.attempts = 4 := hcount
  exact ⟨hfit, m, m', hm, hm', hagree, hfour, hsame.trans hfour⟩

end Journal

end Custody
