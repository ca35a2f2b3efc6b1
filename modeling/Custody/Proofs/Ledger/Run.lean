import Custody.Proofs.Journal.Run
import Custody.Proofs.Ledger.Balance
import Custody.Proofs.Ledger.Dismissal

/-!
# Ledgers

A ledger is a session with the containers that exist, with the number of objects that the host made
by itself, and with the number of containers that were dropped while they had something to release.
A run of a ledger is any sequence of what the host and the library do, as long as no object is
stored in a list and nobody sets share counts.  Handles are wrapped in any way and any number of
times, whether they are live or not, and anything may fail.

The counters of the host then account for every object and for every drop
(`Ledger.counters_account_for_every_object`): each operation keeps the memory balanced, and
dismisses as many handles as it drops containers (`Ledger.Step.sound`).
-/

namespace Custody

open SessionM Memory

/-- A session with the containers that exist, and with what was built and dropped so far. -/
structure Ledger where
  session : Session
  containers : Multiset AnyContainer
  /-- How many objects the host made by itself. -/
  built : Nat
  /-- How many containers were dropped that were not empty and not the host's. -/
  drops : Nat

namespace Ledger

/-- The ledger of a host that starts anew. -/
def fresh (s : Session) (config : Config) : Ledger := ⟨s.restart .reference config, 0, 0, 0⟩

abbrev memory (w : Ledger) : Memory := w.session.memory

/-- How many containers with a duty go if an action stops that was given one. -/
def lost {α : Type} (k : AnyContainer) : EStateM.Result Stop Session α → Nat
  | .ok _ _ => 0
  | .error _ _ => k.2.duty.card

/-- How many containers with a duty go if they are not posted. -/
def unposted (given : Multiset AnyContainer) (posted : List Posting) : Nat :=
  if posted = [] then (Estate.duties given).card else 0

/-- None of the values is an object. -/
def AllPlain (posted : List Posting) : Prop := ∀ p ∈ posted, p.value.object? = none

/-! ## Operations -/

/-- One operation by which no object is stored in a list, and no share count is set. -/
inductive Step : Ledger → Ledger → Prop where
  /-- The host makes an object by itself. -/
  | build {s cs n d m} (h : s.memory.Builds m) :
    Step ⟨s, cs, n, d⟩ ⟨{ s with memory := m }, cs, n + (s.memory.issuedUntil m).card, d⟩
  /-- The host appends something to a list. -/
  | hostPost {s cs n d} (list : Handle) (name : Option String) (value : Stored)
    (hplain : (s.memory.buildNode list name value.kind value.payload).1 = true →
      value.object? = none) :
    Step ⟨s, cs, n, d⟩
      ⟨{ s with memory := (s.memory.buildNode list name value.kind value.payload).2 }, cs, n, d⟩
  /-- Something happens that concerns no objects, lists or counters, as when failures are armed or
  symbols are set. -/
  | aside {s s' cs n d} (host : s'.host = s.host)
    (allocations : s'.memory.allocations = s.memory.allocations)
    (nodes : s'.memory.nodes = s.memory.nodes)
    (counters : s'.memory.counters = s.memory.counters) : Step ⟨s, cs, n, d⟩ ⟨s', cs, n, d⟩
  /-- A container is made, or a buffer that was made for it is dropped. -/
  | make {s cs n d} {α : Type} {given : α → AnyContainer} {x : SessionM α}
    (h : Estate.Makes cs given x) :
    Step ⟨s, cs, n, d⟩
      ⟨endState (x s), Estate.gained given (x s) + cs, n, d + dropped (x s)⟩
  /-- The library takes over a handle, whatever it names and whoever else has it. -/
  | takeOver {s cs n d} (c : Category) (h : Handle) :
    Step ⟨s, cs, n, d⟩
      ⟨endState (Container.wrap c h .automatic s),
        Estate.gained Container.any (Container.wrap c h .automatic s) + cs, n, d⟩
  /-- A container is turned into a buffer of a kind, or dropped. -/
  | check {s cs n d} {b : BufferCategory} (k : Container (.buffer b)) (kind : b.Kind) :
    Step ⟨s, k.any ::ₘ cs, n, d⟩
      ⟨endState (k.intoBuffer kind s), Estate.gained Buffer.any (k.intoBuffer kind s) + cs, n,
        d + lost k.any (k.intoBuffer kind s)⟩
  /-- Elements of a buffer are overwritten. -/
  | write {s cs n d} {b : BufferCategory} {kind : b.Kind} {t : Buffer kind} (ht : t.any ∈ cs)
    (index : Nat) (values : List kind.element.Word) :
    Step ⟨s, cs, n, d⟩ ⟨{ s with memory := t.writeIn index values s.memory }, cs, n, d⟩
  /-- A value is appended to a list, or a container is refused by one and dropped. -/
  | push {s cs n d} {k : Container .list} (hk : k.any ∈ cs) (name : Option String) (item : Item)
    (hplain : AllPlain (k.posted name item.stored? (k.push name item s))) :
    Step ⟨s, item.containers + cs, n, d⟩
      ⟨endState (k.push name item s), cs, n,
        d + unposted item.containers (k.posted name item.stored? (k.push name item s))⟩
  | pushRaw {s cs n d} {k : Container .list} (hk : k.any ∈ cs) (name : Option String)
    (item : RawItem)
    (hplain : AllPlain (k.posted name (item.kind?.bind item.stored?) (k.pushRaw name item s))) :
    Step ⟨s, cs, n, d⟩ ⟨endState (k.pushRaw name item s), cs, n, d⟩
  | pushAs {s cs n d} {k : Container .list} (hk : k.any ∈ cs) (name : Option String)
    (kind : ArgumentKind) (item : RawItem)
    (hplain : AllPlain (k.posted name (item.stored? kind) (k.pushAs name kind item s))) :
    Step ⟨s, cs, n, d⟩ ⟨endState (k.pushAs name kind item s), cs, n, d⟩
  /-- A container becomes the result of a call. -/
  | pass {s cs n d} {c : Category} (k : Container c) (slot : ResultSlot) :
    Step ⟨s, k.any ::ₘ cs, n, d⟩ ⟨(endState (CallM.setContainer k ⟨s, slot⟩)).session, cs, n, d⟩
  /-- A container is emptied. -/
  | abandon {s cs n d} {c : Category} (k : Container c) :
    Step ⟨s, k.any ::ₘ cs, n, d⟩ ⟨s, k.emptied.any ::ₘ cs, n, d⟩
  | drop {s cs n d} {c : Category} (k : Container c) :
    Step ⟨s, k.any ::ₘ cs, n, d⟩ ⟨endState (k.drop s), cs, n, d + k.duty.card⟩
  /-- An operation is not dispatched where the kind of the elements is unknown; the container comes
  back. -/
  | notDispatched {s cs n d} {b : BufferCategory} {α : Type} {k : Container (.buffer b)}
    (hkind : k.elementKind? s.memory = none)
    (operation : (kind : b.Kind) → Buffer kind → SessionM α) :
    Step ⟨s, k.any ::ₘ cs, n, d⟩ ⟨endState (k.dispatch operation s), k.any ::ₘ cs, n, d⟩

/-- Any sequence of such operations.  An operation that is dispatched may do whatever a run can
do. -/
inductive Run : Ledger → Ledger → Prop where
  | refl (w : Ledger) : Run w w
  | step {u v w : Ledger} (before : Run u v) (last : Step v w) : Run u w
  | dispatch {u : Ledger} {s cs n d} {b : BufferCategory} {α : Type} {k : Container (.buffer b)}
    (operation : (kind : b.Kind) → Buffer kind → SessionM α) {kind : b.Kind}
    (before : Run u ⟨s, k.any ::ₘ cs, n, d⟩) (hkind : k.elementKind? s.memory = some kind)
    {cs' n' d'}
    (effect : Run ⟨s, k.any ::ₘ cs, n, d⟩ ⟨endState (operation kind ⟨k⟩ s), cs', n', d'⟩) :
    Run u ⟨endState (k.dispatch operation s), cs', n', d'⟩

/-! ## Sound ledgers -/

/-- The memory is balanced, and as many handles were given back as containers were dropped. -/
structure Sound (w : Ledger) : Prop where
  fit : Journal.Fit ⟨w.session, w.containers, []⟩
  balanced : w.memory.Balanced w.built
  dismissals : w.memory.dismissals = w.drops

theorem sound_fresh (s : Session) (config : Config) : (fresh s config).Sound where
  fit := Journal.fit_fresh s config
  balanced := .empty
  dismissals := rfl

variable {v w : Ledger} {s s' : Session} {cs : Multiset AnyContainer} {built : Nat}

/-- What a ledger does, a journal does as well. -/
theorem Step.journal (h : Step v w) :
    ∃ ps, Journal.Step ∅ ⟨v.session, v.containers, []⟩ ⟨w.session, w.containers, ps⟩ := by
  cases h with
  | build h => exact ⟨_, .build h⟩
  | hostPost list name value => exact ⟨_, .hostPost list name value⟩
  | aside host allocations nodes counters =>
    refine ⟨_, .aside host (fun id => ?_) nodes (congrArg Array.size allocations)⟩
    rw [object?, object?, allocations]
  | make h => exact ⟨_, .make h⟩
  | takeOver c h => exact ⟨_, .takeOver c (by simp)⟩
  | check k kind => exact ⟨_, .check k kind⟩
  | write ht index values => exact ⟨_, .write ht index values⟩
  | push hk name item => exact ⟨_, .push hk name item⟩
  | pushRaw hk name item => exact ⟨_, .pushRaw hk name item⟩
  | pushAs hk name kind item => exact ⟨_, .pushAs hk name kind item⟩
  | pass k slot => exact ⟨_, .pass k slot⟩
  | abandon k => exact ⟨_, .abandon k⟩
  | drop k => exact ⟨_, .drop k⟩
  | notDispatched hkind operation => exact ⟨_, .notDispatched hkind operation⟩

theorem balanced_refusedIn {item : Item} {m : Memory} (hitem : item.Fit) (h : m.Balanced built) :
    (item.refusedIn m).Balanced built := by
  cases item with
  | plain value => exact h
  | container held =>
    rw [Item.refusedIn_container hitem]
    exact (admits_balanced built).releaseIn hitem.host m h

/-- A container that is refused is dropped. -/
theorem dismissals_refusedIn {item : Item} (hitem : item.Fit) (m : Memory) :
    (item.refusedIn m).dismissals = m.dismissals + (Estate.duties item.containers).card := by
  cases item with
  | plain value => rfl
  | container held =>
    have hduties : Estate.duties (Item.container held).containers = held.duty :=
      Multiset.singleton_bind _ _
    rw [Item.refusedIn_container hitem, hduties]
    exact Container.dismissals_releaseIn hitem m

/-- A plain value that is posted leaves a memory balanced, and so does what is refused. -/
theorem balanced_posts {refused : Memory} {posted : List Posting} (h : s.Posts refused posted s')
    (hplain : AllPlain posted) (hs : s.memory.Balanced built) (hrefused : refused.Balanced built) :
    s'.memory.Balanced built := by
  cases h with
  | accepted p haccepts =>
    obtain ⟨l, hl⟩ := haccepts.list
    refine hs.pushNode ?_ (Live.of_object hl).lt_size
    have hvalue := hplain p (List.mem_singleton_self p)
    cases hp : p.value with
    | plain value =>
      rw [Posting.node, hp]
      exact nestedCategory?_plain value
    | object c id =>
      rw [hp] at hvalue
      cases hvalue
  | refused => exact hrefused

/-- Nothing is given back where a list was offered no container. -/
theorem dismissals_posts_plain {posted : List Posting} (h : s.Posts s.memory posted s') :
    s'.memory.dismissals = s.memory.dismissals := by
  cases h with
  | accepted p haccepts => rfl
  | refused => rfl

/-- Nothing is given back for what is posted. -/
theorem dismissals_posts {refused : Memory} {posted : List Posting} {given : Multiset AnyContainer}
    (h : s.Posts refused posted s')
    (hrefused : refused.dismissals = s.memory.dismissals + (Estate.duties given).card) :
    s'.memory.dismissals = s.memory.dismissals + unposted given posted := by
  cases h with
  | accepted p haccepts => rfl
  | refused => exact hrefused

/-- Taking a handle over changes nothing in the session. -/
theorem endState_takeOver (host : s.host = some .reference) (c : Category) (h : Handle) :
    endState (Container.wrap c h .automatic s) = s := by
  rw [Container.wrap, bind_of_ok (installedHost_apply host), Container.wrapFor, Container.adopt]
  split
  · rfl
  · rfl

/-- Every operation leaves the memory balanced. -/
theorem Step.balanced (h : Step v w) (hv : v.Sound) : w.memory.Balanced w.built := by
  have host := hv.fit.host
  have hfit := hv.fit.containers
  have hmemory := hv.balanced
  have hadmits := admits_balanced v.built
  cases h with
  | build h => exact hmemory.builds h
  | @hostPost s cs n d list name value hplain =>
    refine balanced_posts (Journal.posts_buildNode s list name value) ?_ hmemory hmemory
    intro p hp
    split at hp
    case isTrue haccepted =>
      obtain ⟨id, -, rfl⟩ := Option.map_eq_some_iff.mp (Option.mem_toList.mp hp)
      exact hplain haccepted
    case isFalse => cases hp
  | aside host allocations nodes counters => exact hmemory.aside allocations nodes counters
  | make h =>
    exact (h.traces hadmits host hfit fun k _ => converts_balanced k).endState.memory hmemory
  | takeOver c h =>
    rw [memory, endState_takeOver host]
    exact hmemory
  | @check s cs n d b k kind =>
    cases hbuffer : k.asBuffer kind s.memory with
    | ok t =>
      obtain rfl := Container.eq_of_asBuffer hbuffer
      rw [Container.intoBuffer_of_ok hbuffer]
      exact hmemory
    | error cause =>
      rw [Container.intoBuffer_of_error hbuffer]
      exact hadmits.releaseIn (hfit k.any (Multiset.mem_cons_self _ _)).host s.memory hmemory
  | write ht index values => exact hmemory.writeIn _ (hfit _ ht).host index values
  | @push s cs n d k hk name item hplain =>
    have hitem : item.Fit := .of_containers fun other hother =>
      hfit other (Multiset.mem_add.mpr (.inl hother))
    have hlist := hfit _ (Multiset.mem_add.mpr (.inr hk))
    have hposts := Container.posts_push hlist.host name hitem s
    exact balanced_posts hposts hplain hmemory (balanced_refusedIn hitem hmemory)
  | @pushRaw s cs n d k hk name item hplain =>
    have hposts := Container.posts_pushRaw (hfit _ hk).host name item s
    exact balanced_posts hposts hplain hmemory hmemory
  | @pushAs s cs n d k hk name kind item hplain =>
    have hposts := Container.posts_pushAs (hfit _ hk).host name kind item s
    exact balanced_posts hposts hplain hmemory hmemory
  | pass k slot =>
    rw [memory, Estate.session_setContainer]
    exact hmemory
  | abandon k => exact hmemory
  | drop k => exact hadmits.releaseIn (hfit k.any (Multiset.mem_cons_self _ _)).host _ hmemory
  | notDispatched hkind operation =>
    rw [memory, Estate.endState_notDispatched hkind]
    exact hmemory

/-- Every operation gives back as many handles as it drops containers. -/
theorem Step.dismissals (h : Step v w) (hv : v.Sound) : w.memory.dismissals = w.drops := by
  have host := hv.fit.host
  have hfit := hv.fit.containers
  have hmemory := hv.dismissals
  cases h with
  | build h =>
    rcases h.eq_or_issue with rfl | ⟨object, -, rfl⟩
    · exact hmemory
    · exact hmemory
  | @hostPost s cs n d list name value hplain =>
    exact (dismissals_posts_plain (Journal.posts_buildNode s list name value)).trans hmemory
  | aside host allocations nodes counters => exact (dismissals_congr counters).trans hmemory
  | make h => exact (h.tallies host hfit).trans (congrArg (· + _) hmemory)
  | takeOver c h =>
    rw [memory, endState_takeOver host]
    exact hmemory
  | @check s cs n d b k kind =>
    cases hbuffer : k.asBuffer kind s.memory with
    | ok t =>
      obtain rfl := Container.eq_of_asBuffer hbuffer
      rw [Container.intoBuffer_of_ok hbuffer]
      exact hmemory
    | error cause =>
      rw [Container.intoBuffer_of_error hbuffer]
      have hk := hfit k.any (Multiset.mem_cons_self _ _)
      exact (Container.dismissals_releaseIn hk s.memory).trans (congrArg (· + _) hmemory)
  | write ht index values =>
    exact (Buffer.dismissals_writeIn (hfit _ ht).host index values _).trans hmemory
  | @push s cs n d k hk name item hplain =>
    have hitem : item.Fit := .of_containers fun other hother =>
      hfit other (Multiset.mem_add.mpr (.inl hother))
    have hlist := hfit _ (Multiset.mem_add.mpr (.inr hk))
    have hposts := Container.posts_push hlist.host name hitem s
    have hposted := dismissals_posts hposts (dismissals_refusedIn hitem s.memory)
    exact hposted.trans (congrArg (· + _) hmemory)
  | @pushRaw s cs n d k hk name item hplain =>
    have hposts := Container.posts_pushRaw (hfit _ hk).host name item s
    exact (dismissals_posts_plain hposts).trans hmemory
  | @pushAs s cs n d k hk name kind item hplain =>
    have hposts := Container.posts_pushAs (hfit _ hk).host name kind item s
    exact (dismissals_posts_plain hposts).trans hmemory
  | pass k slot =>
    rw [memory, Estate.session_setContainer]
    exact hmemory
  | abandon k => exact hmemory
  | @drop s cs n d c k =>
    have hk := hfit k.any (Multiset.mem_cons_self _ _)
    exact (Container.dismissals_releaseIn hk s.memory).trans (congrArg (· + _) hmemory)
  | notDispatched hkind operation =>
    rw [memory, Estate.endState_notDispatched hkind]
    exact hmemory

/-- Every operation leaves the counters in order. -/
theorem Step.sound (h : Step v w) (hv : v.Sound) : w.Sound := by
  obtain ⟨ps, hstep⟩ := h.journal
  have heffect := hstep.effect hv.fit.host hv.fit.containers
  exact ⟨⟨heffect.host, (heffect.fit hv.fit).containers⟩, h.balanced hv, h.dismissals hv⟩

/-- Every run leaves the counters in order. -/
theorem Run.sound (h : Run v w) (hv : v.Sound) : w.Sound := by
  induction h with
  | refl => exact hv
  | step _ last ih => exact last.sound (ih hv)
  | dispatch operation _ hkind _ ihBefore ihEffect =>
    -- what runs in the operation is a run of its own
    rw [Estate.endState_dispatch hkind]
    exact ihEffect (ihBefore hv)

/-- **The counters of a host account for every object.**  After any run of a host that starts anew,
in which no object is stored in a list and no share count is set, every handle that was ever issued
is that of an object that the host built, or that it counted as allocated, cloned or converted.  An
object is live unless it was counted as freed or disowned.  And each drop of a container that was
not empty and not the host's was counted once, as one of the two or as a release of something
dead. -/
theorem counters_account_for_every_object {config : Config} (h : Run (fresh s config) w) :
    let c := w.memory.counters
    w.memory.allocations.size = w.built + c.allocations + c.clones + c.conversions ∧
    w.memory.liveCount + c.frees + c.disowns =
      w.built + c.allocations + c.clones + c.conversions ∧
    c.frees + c.disowns + c.doubleFrees = w.drops := by
  intro c
  have hsound := h.sound (sound_fresh s config)
  have hissued : w.memory.allocations.size = w.built + (c.allocations + c.clones + c.conversions) :=
    hsound.balanced.issued
  have hlive : w.memory.liveCount + (c.frees + c.disowns) = w.memory.allocations.size :=
    hsound.balanced.live
  refine ⟨?_, ?_, hsound.dismissals⟩
  · omega
  · omega

/-- A tensor of the host is taken over twice, and a first attempt to share it fails.  Then a copy is
shared, and all three containers are dropped: the tensor is freed, then released by mistake, and the
copy is disowned. -/
theorem tensor_taken_over_twice :
    ∃ w, Run (fresh {} {}) w ∧ w.built = 1 ∧ w.drops = 3 ∧
      w.memory.counters = { clones := 1, frees := 1, disowns := 1, doubleFrees := 1 } ∧
      w.memory.allocations.size = 2 ∧ w.memory.liveCount = 0 := by
  let tensor : Container .tensor := ⟨.ofId 0, .library, .reference⟩
  let shared : Container .tensor := ⟨.ofId 1, .shared, .reference⟩
  let host := (fresh {} {}).session
  let built : Session :=
    { host with memory := (host.memory.buildArray .tensor 0 [1] 8 []).2 }
  let armed : Session := { built with memory := { built.memory with failNextClone := true } }
  let share : SessionM (Container .tensor) := Container.wrap .tensor (.ofId 0) .shared
  let refused := endState (share armed)
  let copied := endState (share refused)
  have hpassing : Passing.shared ≠ .automatic := by simp
  have hbuilt : Run (fresh {} {}) ⟨built, 0, 1, 0⟩ :=
    .step (.refl _) (.build (.array .tensor 0 [1] 8 []))
  have htaken : Run (fresh {} {}) ⟨built, tensor.any ::ₘ tensor.any ::ₘ 0, 1, 0⟩ :=
    (hbuilt.step (.takeOver .tensor (.ofId 0))).step (.takeOver .tensor (.ofId 0))
  have harmed : Run (fresh {} {}) ⟨armed, tensor.any ::ₘ tensor.any ::ₘ 0, 1, 0⟩ :=
    htaken.step (.aside rfl rfl rfl rfl)
  have hrefused : Run (fresh {} {}) ⟨refused, tensor.any ::ₘ tensor.any ::ₘ 0, 1, 0⟩ :=
    harmed.step (.make (.wrap .tensor (.ofId 0) hpassing))
  have hshared : share refused = .ok shared copied := by with_unfolding_all rfl
  have hmade : Run (fresh {} {})
      ⟨endState (share refused),
        Estate.gained Container.any (share refused) + tensor.any ::ₘ tensor.any ::ₘ 0, 1,
        0 + dropped (share refused)⟩ :=
    hrefused.step (.make (.wrap .tensor (.ofId 0) hpassing))
  have hcopied : Run (fresh {} {})
      ⟨copied, shared.any ::ₘ tensor.any ::ₘ tensor.any ::ₘ 0, 1, 0⟩ := by
    rw [hshared] at hmade
    exact hmade
  have hdropped := ((hcopied.step (.drop shared)).step (.drop tensor)).step (.drop tensor)
  obtain ⟨hissued, hlive, hdrops⟩ := counters_account_for_every_object hdropped
  have hcounters : (endState (tensor.drop (endState (tensor.drop
      (endState (shared.drop copied)))))).memory.counters =
        { clones := 1, frees := 1, disowns := 1, doubleFrees := 1 } := by decide
  simp only [memory, hcounters] at hissued hlive hdrops
  exact ⟨_, hdropped, rfl, hdrops.symm, hcounters, hissued, by simpa using hlive⟩

end Ledger

end Custody
