import Custody.Proofs.Estate.Run
import Custody.Proofs.Journal.Posting

/-!
# Journals

A journal is a session with the containers that exist and with everything that lists were given,
from the first posting on.  A run of a journal is any sequence of what the host and the library do,
successful or not: whoever owns a list, a list can be given anything, and any container can go.

Some handles may be kept by the host throughout, which means that the library is never given them to
own.  Apart from that nothing is assumed, so a run may lose objects and release others twice.

- `Step.effect`: the four ways in which one operation can change the memory.
- `Run.trans`: runs compose.
-/

namespace Custody

open SessionM Memory

/-- A session with the containers that exist and with all postings so far. -/
structure Journal where
  session : Session
  containers : Multiset AnyContainer
  postings : List Posting

/-- The postings of the nodes that were put into the table on the way from one memory to another. -/
def Memory.postedSince (m m' : Memory) : List Posting :=
  (m'.nodes.toList.drop m.nodes.size).filterMap Node.posting?

/-- The container that is given away with an item, if it is one. -/
def Item.containers : Item → Multiset AnyContainer
  | plain _ => 0
  | container held => {held.any}

/-- An item is fit if the container is that is given away with it. -/
theorem Item.Fit.of_containers {item : Item} (h : ∀ k ∈ item.containers, k.2.Fit) : item.Fit := by
  cases item with
  | plain value => trivial
  | container held => exact h held.any (Multiset.mem_singleton_self _)

namespace Journal

/-- The journal of a host that starts anew. -/
def fresh (s : Session) (config : Config) : Journal := ⟨s.restart .reference config, 0, []⟩

abbrev memory (w : Journal) : Memory := w.session.memory

/-! ## Operations -/

/-- One operation, while the host keeps some handles. -/
inductive Step (kept : Set Nat) : Journal → Journal → Prop where
  /-- The host makes an object by itself. -/
  | build {s cs ps m} (h : s.memory.Builds m) :
    Step kept ⟨s, cs, ps⟩ ⟨{ s with memory := m }, cs, ps⟩
  /-- The host appends something to a list. -/
  | hostPost {s cs ps} (list : Handle) (name : Option String) (value : Stored) :
    Step kept ⟨s, cs, ps⟩
      ⟨{ s with memory := (s.memory.buildNode list name value.kind value.payload).2 }, cs,
        ps ++
          if (s.memory.buildNode list name value.kind value.payload).1 then
            (list.id?.map (⟨·, name, value⟩)).toList
          else []⟩
  /-- Something happens that concerns neither objects nor lists, as when failures are armed, shares
  are counted or symbols are set. -/
  | aside {s s' cs ps} (host : s'.host = s.host)
    (objects : ∀ id, s'.memory.object? id = s.memory.object? id)
    (nodes : s'.memory.nodes = s.memory.nodes)
    (size : s'.memory.allocations.size = s.memory.allocations.size) :
    Step kept ⟨s, cs, ps⟩ ⟨s', cs, ps⟩
  /-- A container is made.  Copying a list gives its copy what it holds itself. -/
  | make {s cs ps} {α : Type} {given : α → AnyContainer} {x : SessionM α}
    (h : Estate.Makes cs given x) :
    Step kept ⟨s, cs, ps⟩
      ⟨endState (x s), Estate.gained given (x s) + cs,
        ps ++ s.memory.postedSince (endState (x s)).memory⟩
  /-- The library takes a handle over from the host, though none that the host keeps. -/
  | takeOver {s cs ps} (c : Category) {h : Handle} (hkept : ∀ id ∈ kept, h ≠ .ofId id) :
    Step kept ⟨s, cs, ps⟩
      ⟨endState (Container.wrap c h .automatic s),
        Estate.gained Container.any (Container.wrap c h .automatic s) + cs, ps⟩
  /-- A container is turned into a buffer of a kind. -/
  | check {s cs ps} {b : BufferCategory} (k : Container (.buffer b)) (kind : b.Kind) :
    Step kept ⟨s, k.any ::ₘ cs, ps⟩
      ⟨endState (k.intoBuffer kind s), Estate.gained Buffer.any (k.intoBuffer kind s) + cs, ps⟩
  /-- Elements of a buffer are overwritten. -/
  | write {s cs ps} {b : BufferCategory} {kind : b.Kind} {t : Buffer kind} (ht : t.any ∈ cs)
    (index : Nat) (values : List kind.element.Word) :
    Step kept ⟨s, cs, ps⟩ ⟨{ s with memory := t.writeIn index values s.memory }, cs, ps⟩
  /-- A value, or a container with whatever it holds, is appended to a list. -/
  | push {s cs ps} {k : Container .list} (hk : k.any ∈ cs) (name : Option String) (item : Item) :
    Step kept ⟨s, item.containers + cs, ps⟩
      ⟨endState (k.push name item s), cs, ps ++ k.posted name item.stored? (k.push name item s)⟩
  | pushRaw {s cs ps} {k : Container .list} (hk : k.any ∈ cs) (name : Option String)
    (item : RawItem) :
    Step kept ⟨s, cs, ps⟩
      ⟨endState (k.pushRaw name item s), cs,
        ps ++ k.posted name (item.kind?.bind item.stored?) (k.pushRaw name item s)⟩
  | pushAs {s cs ps} {k : Container .list} (hk : k.any ∈ cs) (name : Option String)
    (kind : ArgumentKind) (item : RawItem) :
    Step kept ⟨s, cs, ps⟩
      ⟨endState (k.pushAs name kind item s), cs,
        ps ++ k.posted name (item.stored? kind) (k.pushAs name kind item s)⟩
  /-- A container becomes the result of a call. -/
  | pass {s cs ps} {c : Category} (k : Container c) (slot : ResultSlot) :
    Step kept ⟨s, k.any ::ₘ cs, ps⟩ ⟨(endState (CallM.setContainer k ⟨s, slot⟩)).session, cs, ps⟩
  /-- A container is emptied. -/
  | abandon {s cs ps} {c : Category} (k : Container c) :
    Step kept ⟨s, k.any ::ₘ cs, ps⟩ ⟨s, k.emptied.any ::ₘ cs, ps⟩
  | drop {s cs ps} {c : Category} (k : Container c) :
    Step kept ⟨s, k.any ::ₘ cs, ps⟩ ⟨endState (k.drop s), cs, ps⟩
  /-- An operation is not dispatched where the kind of the elements is unknown; the container comes
  back. -/
  | notDispatched {s cs ps} {b : BufferCategory} {α : Type} {k : Container (.buffer b)}
    (hkind : k.elementKind? s.memory = none)
    (operation : (kind : b.Kind) → Buffer kind → SessionM α) :
    Step kept ⟨s, k.any ::ₘ cs, ps⟩ ⟨endState (k.dispatch operation s), k.any ::ₘ cs, ps⟩

/-- Any sequence of operations.  An operation that is dispatched may do whatever a run can do. -/
inductive Run (kept : Set Nat) : Journal → Journal → Prop where
  | refl (w : Journal) : Run kept w w
  | step {u v w : Journal} (before : Run kept u v) (last : Step kept v w) : Run kept u w
  | dispatch {u : Journal} {s cs ps} {b : BufferCategory} {α : Type} {k : Container (.buffer b)}
    (operation : (kind : b.Kind) → Buffer kind → SessionM α) {kind : b.Kind}
    (before : Run kept u ⟨s, k.any ::ₘ cs, ps⟩) (hkind : k.elementKind? s.memory = some kind)
    {cs' ps'}
    (effect : Run kept ⟨s, k.any ::ₘ cs, ps⟩ ⟨endState (operation kind ⟨k⟩ s), cs', ps'⟩) :
    Run kept u ⟨endState (k.dispatch operation s), cs', ps'⟩

theorem Run.trans {kept : Set Nat} {u v w : Journal} (h : Run kept u v) (h' : Run kept v w) :
    Run kept u w := by
  induction h' with
  | refl => exact h
  | step _ last ih => exact .step (ih h) last
  | dispatch operation _ hkind effect ih _ => exact .dispatch operation (ih h) hkind effect

/-! ## What an operation can do -/

/-- The ways in which one operation can change the memory, and what it posts. -/
inductive Change (m : Memory) (containers : Multiset AnyContainer) :
    List Posting → Memory → Prop where
  | quiet {m'} (h : m.Evolves [] ∅ m') : Change m containers [] m'
  /-- A list is given one more value. -/
  | post (p : Posting) (issued : p.list < m.allocations.size) :
    Change m containers [p] (m.pushNode p.node)
  /-- A container goes, and its handle is released as its owner says. -/
  | release {k : AnyContainer} (hk : k ∈ containers) :
    Change m containers [] (k.2.releaseIn m)
  /-- Objects are added, and lists are copied. -/
  | expand {added gone m'} (h : Expands m.allocations.size m added gone m') :
    Change m containers (added.filterMap Node.posting?) m'

/-- A container that comes to exist: if it holds a handle that the host keeps, it is the host's. -/
structure Acquired (kept : Set Nat) (base : Nat) {c : Category} (k : Container c) : Prop where
  fit : k.Fit
  owner : k.owner = .host ∨ ∀ id ∈ kept, k.handle = .ofId id → base ≤ id

/-- What an operation does. -/
structure Effect (kept : Set Nat) (v w : Journal) : Prop where
  host : w.session.host = some .reference
  containers : ∀ k ∈ w.containers,
    k ∈ v.containers ∨ Acquired kept v.memory.allocations.size k.2
  change : ∃ posted, w.postings = v.postings ++ posted ∧
    Change v.memory v.containers posted w.memory

variable {kept : Set Nat} {s : Session} {cs : Multiset AnyContainer} {ps : List Posting}

namespace Effect

/-- A change of the session by which no container comes to exist. -/
theorem of_change {s' : Session} {cs' : Multiset AnyContainer} {posted : List Posting}
    (host : s'.host = some .reference) (containers : ∀ k ∈ cs', k ∈ cs)
    (change : Change s.memory cs posted s'.memory) :
    Effect kept ⟨s, cs, ps⟩ ⟨s', cs', ps ++ posted⟩ :=
  ⟨host, fun k hk => .inl (containers k hk), posted, rfl, change⟩

/-- The same, where nothing is posted. -/
theorem of_silent_change {s' : Session} {cs' : Multiset AnyContainer}
    (host : s'.host = some .reference) (containers : ∀ k ∈ cs', k ∈ cs)
    (change : Change s.memory cs [] s'.memory) : Effect kept ⟨s, cs, ps⟩ ⟨s', cs', ps⟩ :=
  ⟨host, fun k hk => .inl (containers k hk), [], (List.append_nil ps).symm, change⟩

/-- The session stays as it is. -/
theorem of_same_session {cs' : Multiset AnyContainer} (host : s.host = some .reference)
    (containers : ∀ k ∈ cs', k ∈ cs ∨ Acquired kept s.memory.allocations.size k.2) :
    Effect kept ⟨s, cs, ps⟩ ⟨s, cs', ps⟩ :=
  ⟨host, containers, [], (List.append_nil ps).symm, .quiet .refl⟩

end Effect

/-- What was supplied is new, so it is nothing that the host keeps. -/
theorem Acquired.of_takes {base : Nat} {c : Category} {k : Container c} {supplied : Option Nat}
    (h : k.Takes supplied) (hnew : ∀ id ∈ supplied, base ≤ id) : Acquired kept base k := by
  refine ⟨h.fit, ?_⟩
  cases h with
  | borrowed h => exact .inl rfl
  | supplied id howner hshareable =>
    refine .inr fun other _ hsame => ?_
    obtain rfl := Handle.ofId_injective hsame
    exact hnew _ rfl

/-- The postings of an expansion are those of the nodes that it adds. -/
theorem postedSince_of_evolves {m m' : Memory} {added : List Node} {gone : Set Nat}
    (h : m.Evolves added gone m') : m.postedSince m' = added.filterMap Node.posting? := by
  rw [postedSince, h.nodes_eq, ← Array.length_toList, List.drop_left]

theorem effect_make {α : Type} {given : α → AnyContainer} {x : SessionM α}
    (h : Estate.Makes cs given x) (host : s.host = some .reference) (hfit : ∀ k ∈ cs, k.2.Fit) :
    Effect kept ⟨s, cs, ps⟩
      ⟨endState (x s), Estate.gained given (x s) + cs,
        ps ++ s.memory.postedSince (endState (x s)).memory⟩ := by
  have hchange : ∀ {supplied : Option Nat} {s' : Session}, s.Supplied supplied s' →
      ∃ posted, ps ++ s.memory.postedSince s'.memory = ps ++ posted ∧
        Change s.memory cs posted s'.memory := by
    intro supplied s' hsupplied
    obtain ⟨added, gone, hexpands⟩ := hsupplied.expands
    exact ⟨_, by rw [postedSince_of_evolves hexpands.evolves], .expand hexpands⟩
  have hyields := h.yields hfit s host
  unfold Ends at hyields
  cases hresult : x s with
  | ok a s' =>
    rw [hresult] at hyields
    obtain ⟨supplied, htakes, hsupplied⟩ := hyields
    refine ⟨hsupplied.host, fun k hk => ?_, hchange hsupplied⟩
    rw [Estate.gained, Multiset.singleton_add] at hk
    rcases Multiset.mem_cons.mp hk with rfl | hk
    · exact .inr (.of_takes htakes hsupplied.new)
    · exact .inl hk
  | error stop s' =>
    rw [hresult] at hyields
    refine ⟨hyields.host, fun k hk => ?_, hchange hyields⟩
    exact .inl (by rwa [Estate.gained, zero_add] at hk)

/-- The host is held to the same rules when it appends something. -/
theorem buildNode_accepts_or_fails (m : Memory) (list : Handle) (name : Option String)
    (value : Stored) :
    m.buildNode list name value.kind value.payload = (false, m) ∨
      ∃ id, list = .ofId id ∧ m.Accepts ⟨id, name, value⟩ ∧
        m.buildNode list name value.kind value.payload =
          (true, m.pushNode (Posting.node ⟨id, name, value⟩)) := by
  unfold buildNode
  cases hid : list.id? with
  | none => exact .inl rfl
  | some id =>
    cases hname : name.mapM Text.encode with
    | error flaw => exact .inl rfl
    | ok bytes =>
      obtain ⟨-, rfl⟩ := mapM_encode_eq_ok_iff.mp hname
      simp only
      by_cases hlist : ∃ l, m.object? id = some (.list l)
      · obtain ⟨l, hl⟩ := hlist
        rw [addNode_of_list hl]
        split
        case isTrue hstorable =>
          exact .inr ⟨id, Handle.id?_eq_some_iff.mp hid, ⟨⟨l, hl⟩, hstorable⟩, rfl⟩
        case isFalse => exact .inl rfl
      · exact .inl (addNode_of_no_list (not_exists.mp hlist) _ _ _)

theorem posts_buildNode (s : Session) (list : Handle) (name : Option String) (value : Stored) :
    s.Posts s.memory
      (if (s.memory.buildNode list name value.kind value.payload).1 then
        (list.id?.map (⟨·, name, value⟩)).toList
      else [])
      { s with memory := (s.memory.buildNode list name value.kind value.payload).2 } := by
  rcases buildNode_accepts_or_fails s.memory list name value with
    hrefused | ⟨id, rfl, haccepts, hposted⟩
  · rw [hrefused]
    exact .refused
  · rw [hposted, Handle.id?_ofId]
    exact .accepted ⟨id, name, value⟩ haccepts

/-- An append posts what it appends; where it fails, the memory changes only if a container goes. -/
theorem effect_posts {s' : Session} {refused : Memory} {posted : List Posting}
    {given : Multiset AnyContainer} (h : s.Posts refused posted s')
    (host : s.host = some .reference) (hrefused : Change s.memory (given + cs) [] refused) :
    Effect kept ⟨s, given + cs, ps⟩ ⟨s', cs, ps ++ posted⟩ := by
  have hleft : ∀ other ∈ cs, other ∈ given + cs := fun other hother =>
    Multiset.mem_add.mpr (.inr hother)
  cases h with
  | accepted p haccepts =>
    obtain ⟨l, hl⟩ := haccepts.list
    exact .of_change host hleft (.post p (Live.of_object hl).lt_size)
  | refused => exact .of_change host hleft hrefused

/-- The same, where nothing is given away. -/
theorem effect_posts_plain {s' : Session} {posted : List Posting}
    (h : s.Posts s.memory posted s') (host : s.host = some .reference) :
    Effect kept ⟨s, cs, ps⟩ ⟨s', cs, ps ++ posted⟩ := by
  have hposted : Effect kept ⟨s, 0 + cs, ps⟩ ⟨s', cs, ps ++ posted⟩ :=
    effect_posts h host (.quiet .refl)
  rwa [zero_add] at hposted

/-- A handle that the library takes over stays as it is. -/
theorem effect_takeOver (host : s.host = some .reference) (c : Category) {h : Handle}
    (hkept : ∀ id ∈ kept, h ≠ .ofId id) :
    Effect kept ⟨s, cs, ps⟩
      ⟨endState (Container.wrap c h .automatic s),
        Estate.gained Container.any (Container.wrap c h .automatic s) + cs, ps⟩ := by
  rw [Container.wrap, bind_of_ok (installedHost_apply host), Container.wrapFor, Container.adopt]
  split
  · refine .of_same_session host fun k hk => .inl ?_
    have hleft : k ∈ 0 + cs := hk
    rwa [zero_add] at hleft
  · refine .of_same_session host fun k hk => ?_
    rcases Multiset.mem_add.mp hk with hnew | hold
    · obtain rfl := Multiset.mem_singleton.mp hnew
      exact .inr ⟨⟨rfl, fun hshared => by cases hshared⟩,
        .inr fun id hid hsame => absurd hsame (hkept id hid)⟩
    · exact .inl hold

/-- A container is a buffer of the kind, or it goes. -/
theorem effect_check (host : s.host = some .reference) {b : BufferCategory}
    (k : Container (.buffer b)) (kind : b.Kind) :
    Effect kept ⟨s, k.any ::ₘ cs, ps⟩
      ⟨endState (k.intoBuffer kind s), Estate.gained Buffer.any (k.intoBuffer kind s) + cs,
        ps⟩ := by
  cases hbuffer : k.asBuffer kind s.memory with
  | ok t =>
    obtain rfl := Container.eq_of_asBuffer hbuffer
    rw [Container.intoBuffer_of_ok hbuffer]
    exact .of_same_session host fun other hother => .inl hother
  | error cause =>
    rw [Container.intoBuffer_of_error hbuffer]
    refine .of_silent_change host (fun other hother => ?_)
      (.release (k := k.any) (Multiset.mem_cons_self _ _))
    have hleft : other ∈ 0 + cs := hother
    rw [zero_add] at hleft
    exact Multiset.mem_cons_of_mem hleft

/-- Every operation has an effect of this kind. -/
theorem Step.effect {v w : Journal} (h : Step kept v w)
    (host : v.session.host = some .reference) (hfit : ∀ k ∈ v.containers, k.2.Fit) :
    Effect kept v w := by
  cases h with
  | build hbuilds => exact .of_silent_change host (fun _ hk => hk) (.quiet hbuilds.evolves)
  | hostPost list name value => exact effect_posts_plain (posts_buildNode _ list name value) host
  | aside same objects nodes size =>
    exact .of_silent_change (same.trans host) (fun _ hk => hk)
      (.quiet (.aside .refl objects nodes size))
  | make hmakes => exact effect_make hmakes host hfit
  | takeOver c hkept => exact effect_takeOver host c hkept
  | check k kind => exact effect_check host k kind
  | write ht index values =>
    exact .of_silent_change host (fun _ hk => hk)
      (.quiet (Buffer.evolves_writeIn _ (hfit _ ht).host index values _))
  | @push s cs ps k hk name item =>
    have hlist := hfit _ (Multiset.mem_add.mpr (.inr hk))
    cases item with
    | plain value =>
      have hitem : (Item.plain value).Fit := trivial
      exact effect_posts (Container.posts_push hlist.host name hitem s) host (.quiet .refl)
    | container held =>
      have hheld : held.any ∈ ({held.any} + cs : Multiset AnyContainer) := by simp
      have hitem : (Item.container held).Fit := hfit _ hheld
      refine effect_posts (Container.posts_push hlist.host name hitem s) host ?_
      rw [Item.refusedIn_container hitem]
      exact .release hheld
  | @pushRaw s cs ps k hk name item =>
    exact effect_posts_plain (Container.posts_pushRaw (hfit _ hk).host name item s) host
  | @pushAs s cs ps k hk name kind item =>
    exact effect_posts_plain (Container.posts_pushAs (hfit _ hk).host name kind item s) host
  | @pass s cs ps c k slot =>
    rw [Estate.session_setContainer]
    exact .of_same_session host fun other hother => .inl (Multiset.mem_cons_of_mem hother)
  | @abandon s cs ps c k =>
    have hk := hfit k.any (Multiset.mem_cons_self _ _)
    refine .of_same_session host fun other hother => ?_
    rcases Multiset.mem_cons.mp hother with rfl | hother
    · -- the container that stays behind holds no handle
      refine .inr ⟨⟨hk.host, hk.shareable⟩, .inr fun id _ hnull => ?_⟩
      cases hnull
    · exact .inl (Multiset.mem_cons_of_mem hother)
  | @drop s cs ps c k =>
    exact .of_silent_change host (fun other hother => Multiset.mem_cons_of_mem hother)
      (.release (k := k.any) (Multiset.mem_cons_self _ _))
  | notDispatched hkind operation =>
    rw [Estate.endState_notDispatched hkind]
    exact .of_same_session host fun other hother => .inl hother

/-! ## Runs -/

/-- The reference host is installed, and all containers are its own. -/
structure Fit (w : Journal) : Prop where
  host : w.session.host = some .reference
  containers : ∀ k ∈ w.containers, k.2.Fit

theorem fit_fresh (s : Session) (config : Config) : (fresh s config).Fit :=
  ⟨rfl, fun _ hk => absurd hk (Multiset.notMem_zero _)⟩

theorem Effect.fit {v w : Journal} (h : Effect kept v w) (hv : v.Fit) : w.Fit :=
  ⟨h.host, fun k hk => (h.containers k hk).elim (hv.containers k) (·.fit)⟩

/-- What every operation keeps, every run keeps. -/
theorem Run.step_invariant {P : Journal → Prop} {u w : Journal} (h : Run kept u w) (hfit : u.Fit)
    (hu : P u)
    (hstep : ∀ v w, Run kept u v → v.Fit → P v → Step kept v w → P w) : w.Fit ∧ P w := by
  induction h with
  | refl => exact ⟨hfit, hu⟩
  | step before last ih =>
    obtain ⟨hv, hP⟩ := ih hfit hu hstep
    exact ⟨(last.effect hv.host hv.containers).fit hv, hstep _ _ before hv hP last⟩
  | dispatch operation before hkind _ ihBefore ihEffect =>
    obtain ⟨hv, hP⟩ := ihBefore hfit hu hstep
    rw [Estate.endState_dispatch hkind]
    -- what runs in the operation runs after what came before it
    exact ihEffect hv hP fun v w hrun => hstep v w (before.trans hrun)

/-- What every effect keeps, every run keeps. -/
theorem Run.invariant {P : Journal → Prop} {u w : Journal} (h : Run kept u w) (hfit : u.Fit)
    (hu : P u)
    (heffect : ∀ v w, Run kept u v → v.Fit → P v → Effect kept v w → P w) : w.Fit ∧ P w :=
  h.step_invariant hfit hu fun v w hrun hv hP hstep =>
    heffect v w hrun hv hP (hstep.effect hv.host hv.containers)

/-! ## Releasing a container -/

/-- Releasing a container clears nothing but what dies with it. -/
theorem evolves_releaseIn {c : Category} {k : Container c} (hfit : k.Fit) (m : Memory) :
    ∃ gone ⊆ k.dies m, m.Evolves [] gone (k.releaseIn m) := by
  rcases Container.releaseIn_cases hfit m with ⟨-, hsame⟩ | ⟨hduty, hreleased⟩
  · rw [hsame]
    exact ⟨∅, Set.empty_subset _, .refl⟩
  · have hunder : m.under k.handle ⊆ k.dies m := by
      rintro id ⟨root, hroot, hreach⟩
      exact ⟨root, by rw [hduty, hroot]; exact Multiset.mem_singleton_self _, hreach⟩
    rcases hreleased with hfreed | hdisowned
    · obtain ⟨gone, hgone, hevolves⟩ := evolves_free m k.handle
      exact ⟨gone, hgone.trans hunder, hfreed ▸ hevolves⟩
    · obtain ⟨gone, hgone, hevolves⟩ := evolves_disown m k.handle
      exact ⟨gone, hgone.trans hunder, hdisowned ▸ hevolves⟩

/-- Whatever an operation does, the memory evolves.  What is posted are the nodes that are added,
and these are nodes of postings or copies of nodes. -/
theorem Change.evolves {m m' : Memory} {posted : List Posting} (h : Change m cs posted m')
    (hfit : ∀ k ∈ cs, k.2.Fit) :
    ∃ added gone, m.Evolves added gone m' ∧ posted = added.filterMap Node.posting? ∧
      ∀ node ∈ added, (∃ p : Posting, node = p.node) ∨
        ∃ old ∈ m.nodes.toList, CopyOf m.allocations.size old node := by
  cases h with
  | quiet hquiet => exact ⟨[], ∅, hquiet, rfl, by simp⟩
  | post p issued => exact ⟨[p.node], ∅, .append .refl p.node issued, by simp, by simp⟩
  | release hk =>
    obtain ⟨gone, -, hevolves⟩ := evolves_releaseIn (hfit _ hk) m
    exact ⟨[], gone, hevolves, rfl, by simp⟩
  | expand hexpands =>
    exact ⟨_, _, hexpands.evolves, rfl, fun node hnode => .inr (hexpands.copied node hnode)⟩

end Journal

end Custody
