import Custody.Proofs.Estate.Trace
import Custody.Proofs.Journal.Run

/-!
# One operation

Whatever the host and the library do, a list accepts one value (`Journal.Gives`), or nothing happens
but what the host does by itself and what it is asked for.  So a relation that holds across these
holds across the operation (`Journal.Step.gives_or_admitted`).
-/

namespace Custody

open SessionM Memory

namespace Journal

variable {kept : Set Nat} {v w : Journal} {R : Memory → Memory → Prop}

/-- The operation appends one value, which the list accepts. -/
structure Gives (v w : Journal) (p : Posting) : Prop where
  accepts : v.memory.Accepts p
  memory : w.memory = v.memory.pushNode p.node
  postings : w.postings = v.postings ++ [p]

/-- An append gives a list a value, or it leaves the memory as it says. -/
theorem gives_or_refused {s s' : Session} {cs cs' : Multiset AnyContainer}
    {ps posted : List Posting} {refused : Memory} (h : s.Posts refused posted s')
    (hrefused : R s.memory refused) :
    (∃ p, Gives ⟨s, cs, ps⟩ ⟨s', cs', ps ++ posted⟩ p) ∨ R s.memory s'.memory := by
  cases h with
  | accepted p haccepts => exact .inl ⟨p, haccepts, rfl, rfl⟩
  | refused => exact .inr hrefused

/-- A list accepts one value, or a relation holds across the operation, if it holds across all that
a host is asked for and all that it does by itself. -/
theorem Step.gives_or_admitted (h : Step kept v w) (hR : Admits R) (hfit : v.Fit)
    (hbuilds : v.memory.Builds w.memory → R v.memory w.memory)
    (haside : ∀ m : Memory, (∀ id, m.object? id = v.memory.object? id) →
      m.nodes = v.memory.nodes → m.allocations.size = v.memory.allocations.size → R v.memory m)
    (hconverts : ∀ k : Container .numeric, k.any ∈ v.containers → Converts R v.memory k) :
    (∃ p, Gives v w p) ∨ R v.memory w.memory := by
  cases h with
  | build h => exact .inr (hbuilds h)
  | @hostPost s cs ps list name value =>
    exact gives_or_refused (posts_buildNode s list name value) (hR.refl s.memory)
  | aside _ objects nodes size => exact .inr (haside _ objects nodes size)
  | make hmakes =>
    exact .inr (hmakes.traces hR hfit.host hfit.containers hconverts).endState.memory
  | takeOver c hkept => exact .inr (traces_wrap hR c _ .automatic hfit.host).endState.memory
  | @check s cs ps b k kind =>
    have hk := hfit.containers k.any (Multiset.mem_cons_self _ _)
    cases hbuffer : k.asBuffer kind s.memory with
    | ok t =>
      obtain rfl := Container.eq_of_asBuffer hbuffer
      rw [Container.intoBuffer_of_ok hbuffer]
      exact .inr (hR.refl s.memory)
    | error cause =>
      rw [Container.intoBuffer_of_error hbuffer]
      exact .inr (hR.releaseIn hk.host s.memory)
  | @write s cs ps b kind t ht index values =>
    exact .inr (hR.write t (hfit.containers _ ht).host index values s.memory)
  | @push s cs ps k hk name item =>
    have hlist := hfit.containers _ (Multiset.mem_add.mpr (.inr hk))
    have hitem : item.Fit := .of_containers fun other hother =>
      hfit.containers other (Multiset.mem_add.mpr (.inl hother))
    refine gives_or_refused (Container.posts_push hlist.host name hitem s) ?_
    cases item with
    | plain value => exact hR.refl s.memory
    | container held =>
      -- what the list refuses is dropped
      rw [Item.refusedIn_container hitem]
      exact hR.releaseIn hitem.host s.memory
  | @pushRaw s cs ps k hk name item =>
    have hposts := Container.posts_pushRaw (hfit.containers _ hk).host name item s
    exact gives_or_refused hposts (hR.refl s.memory)
  | @pushAs s cs ps k hk name kind item =>
    have hposts := Container.posts_pushAs (hfit.containers _ hk).host name kind item s
    exact gives_or_refused hposts (hR.refl s.memory)
  | @pass s cs ps c k slot =>
    rw [memory, memory, Estate.session_setContainer]
    exact .inr (hR.refl s.memory)
  | @abandon s => exact .inr (hR.refl s.memory)
  | @drop s cs ps c k =>
    have hk := hfit.containers k.any (Multiset.mem_cons_self _ _)
    exact .inr (hR.releaseIn hk.host s.memory)
  | @notDispatched s cs ps b α k hkind operation =>
    rw [memory, memory, Estate.endState_notDispatched hkind]
    exact .inr (hR.refl s.memory)

end Journal

end Custody
