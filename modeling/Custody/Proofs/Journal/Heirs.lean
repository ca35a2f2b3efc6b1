import Custody.Proofs.Journal.ReadBack

/-!
# What a list hands down

What was appended to a list stays where it is, whatever else is done.  A copy of the list begins
with all of it, at the same places, and no longer needs the list: it can be copied in turn, and the
list released.  So every list that descends from another, over any number of copies and any run in
between, shows the same names and the same plain values in the same places.

- `Run.postings_prefix`: postings are only added, and at the end.
- `Descends`: a list as it is later, its copies, and theirs.
- `Descends.inherits`: what a list was posted, each of its descendants was posted too.
- `Appending`: the ways to append; `Appending.step`: an append is a step of a journal.
- `HandedDown`: what is shown, in any descendant, of whatever is appended; `handedDown`: the same
  name and the same plain value.
-/

namespace Custody

open SessionM Memory

/-! ## Places of a list -/

private theorem exists_getElem?_of_forall₂ {α β : Type} {R : α → β → Prop} {as : List α}
    {bs : List β} (h : List.Forall₂ R as bs) {place : Nat} {a : α} (ha : as[place]? = some a) :
    ∃ b, bs[place]? = some b ∧ R a b := by
  induction h generalizing place with
  | nil => cases ha
  | cons hR _ ih =>
    cases place with
    | zero =>
      obtain rfl := Option.some.inj ha
      exact ⟨_, rfl, hR⟩
    | succ place => exact ih ha

/-- A list that is read as postings shows each of them in its place. -/
theorem Container.Reads.exists_node {k : Container .list} {m : Memory} {own : List Posting}
    (h : k.Reads m own) {place : Nat} {p : Posting} (hp : own[place]? = some p) :
    ∃ n, (k.nodes m)[place]? = some n ∧ n.Shows m p :=
  exists_getElem?_of_forall₂ h.nodes.flip hp

/-- Where an append succeeded, the list is live and stores a value. -/
theorem Container.Appends.exists_stored {k : Container .list} {name : Option String}
    {kind : ArgumentKind} {payload : Except Failure Payload} {stored : Option Stored}
    {s s' : Session} {refused : Memory}
    (h : Appends k name kind payload s refused (.ok () s'))
    (hstored : ∀ list p, payload = .ok p → s.memory.storable list kind.code p = true →
      ∃ value, stored = some value ∧ value.kind = kind ∧ value.payload = p) :
    ∃ list l value, k.handle = .ofId list ∧ s.memory.object? list = some (.list l) ∧
      stored = some value := by
  cases h with
  | accepted hlist _ hpayload hstorable happended =>
    obtain ⟨l, hl, -⟩ := happended.tail
    obtain ⟨value, hvalue, -⟩ := hstored _ _ hpayload hstorable
    exact ⟨_, l, value, hlist, hl, hvalue⟩

/-- Only a list is copied as a list. -/
theorem Container.exists_list_of_tryClone {s s' : Session} {k made : Container .list} {id : Nat}
    (hhandle : k.handle = .ofId id) (hhost : k.host = .reference)
    (h : k.tryClone s = .ok made s') : ∃ l, s.memory.object? id = some (.list l) := by
  by_contra hnone
  have hrequire : k.require = .ok (.ofId id) := by
    rw [require, isEmpty, hhandle]
    rfl
  -- the host does not find a list, and whether a refusal was armed makes no difference
  have hfound : (s.memory.find? (.ofId id)).filter (copiedAs .list) = none := by
    rw [find?_ofId]
    cases hobject : s.memory.object? id with
    | none => rfl
    | some object =>
      cases object with
      | list l => exact absurd ⟨l, hobject⟩ hnone
      | array a => rfl
      | image i => rfl
  have hclone : ∃ m, Host.reference.clone .list (.ofId id) s.memory = (none, m) := by
    show ∃ m, s.memory.cloneIf (copiedAs .list) (.ofId id) = (none, m)
    unfold cloneIf
    split
    · exact ⟨_, rfl⟩
    · rw [hfound, Handle.id?_ofId]
      exact ⟨_, rfl⟩
  obtain ⟨m, hclone⟩ := hclone
  rw [tryClone, hrequire, ofExcept_ok, pure_bind, hhost] at h
  have hrefused : copyHandle .list .reference (.ofId id) s =
      .error (.failure (.clone .list)) { s with memory := m } := by
    rw [copyHandle, bind_of_ok (onMemory_apply _ s), hclone]
    rfl
  rw [bind_of_error hrefused] at h
  cases h

namespace Journal

variable {kept : Set Nat} {v w : Journal} {id heir place : Nat} {p : Posting}

/-! ## Runs -/

/-- Postings are only added, and at the end. -/
theorem Run.postings_prefix (h : Run kept v w) (hv : v.Fit) : v.postings <+: w.postings := by
  refine (h.invariant (P := fun w => v.postings <+: w.postings) hv (List.prefix_refl _) ?_).2
  intro u w _ _ hbefore heffect
  obtain ⟨posted, hpostings, -⟩ := heffect.change
  rw [hpostings]
  exact hbefore.trans (List.prefix_append _ _)

/-- What was posted to a list stays in its place. -/
theorem Run.posted_at (h : Run kept v w) (hv : v.Fit) (hp : (v.posted id)[place]? = some p) :
    (w.posted id)[place]? = some p := by
  obtain ⟨more, hmore⟩ := h.postings_prefix hv
  rw [posted, ← hmore, List.filter_append]
  obtain ⟨hplace, -⟩ := List.getElem?_eq_some_iff.mp hp
  exact (List.getElem?_append_left hplace).trans hp

/-! ## Descendants -/

/-- The list of a number in one journal, and what it has become in another: the list itself, or a
copy of what it has become before. -/
inductive Descends (v : Journal) (id : Nat) : Journal → Nat → Prop where
  | refl : Descends v id v id
  | later {u w : Journal} {heir : Nat} (before : Descends v id u heir) (h : Run ∅ u w) :
    Descends v id w heir
  | copied {s s' cs ps} {heir copy : Nat} {k made : Container .list}
    (before : Descends v id ⟨s, cs, ps⟩ heir) (hk : k.any ∈ cs) (hhandle : k.handle = .ofId heir)
    (hmade : k.tryClone s = .ok made s') (hcopy : made.handle = .ofId copy) :
    Descends v id ⟨s', made.any ::ₘ cs, ps ++ s.memory.postedSince s'.memory⟩ copy

/-- Copying a list is a step. -/
theorem Run.copied {u : Journal} {s s' : Session} {cs : Multiset AnyContainer}
    {ps : List Posting} {k made : Container .list} (h : Run ∅ u ⟨s, cs, ps⟩) (hk : k.any ∈ cs)
    (hmade : k.tryClone s = .ok made s') :
    Run ∅ u ⟨s', made.any ::ₘ cs, ps ++ s.memory.postedSince s'.memory⟩ := by
  have hstep := h.step (.make (.clone hk))
  rw [hmade] at hstep
  rwa [← Multiset.singleton_add]

namespace Descends

theorem run {s : Session} {config : Config} (h : Descends v id w heir)
    (hrun : Run ∅ (fresh s config) v) : Run ∅ (fresh s config) w := by
  induction h with
  | refl => exact hrun
  | later _ hlater ih => exact ih.trans hlater
  | copied _ hk _ hmade _ ih => exact ih.copied hk hmade

/-- A descendant was posted what the list was, in the same places: the same names and the same plain
values. -/
theorem inherits {s : Session} {config : Config} (h : Descends v id w heir)
    (hrun : Run ∅ (fresh s config) v) (hp : (v.posted id)[place]? = some p) :
    ∃ q, (w.posted heir)[place]? = some q ∧ q.name = p.name ∧
      ∀ value, p.value = .plain value → q.value = .plain value := by
  induction h with
  | refl => exact ⟨p, hp, rfl, fun _ hvalue => hvalue⟩
  | later before hlater ih =>
    obtain ⟨q, hq, hinherited⟩ := ih
    exact ⟨q, hlater.posted_at (before.run hrun).recorded.1 hq, hinherited⟩
  | @copied s s' cs ps heir copy k made before hk hhandle hmade hcopy ih =>
    obtain ⟨q, hq, hname, hplain⟩ := ih
    obtain ⟨hfit, hrecorded⟩ := (before.run hrun).recorded
    have hhost : k.host = .reference := (hfit.containers _ hk).host
    obtain ⟨l, hl⟩ := Container.exists_list_of_tryClone hhandle hhost hmade
    obtain ⟨copy', m, hcopied, hhandle', hevolves⟩ :=
      Container.copied_of_tryClone hhandle hhost hmade
    obtain rfl := Handle.ofId_injective (hcopy.symm.trans hhandle')
    -- the copy was posted, place by place, what the list was
    have hposted := hrecorded.posted_of_copy hl hcopied hevolves
    obtain ⟨q', hq', hname', hcopiedValue⟩ := exists_getElem?_of_forall₂ hposted hq
    refine ⟨q', hq', hname'.trans hname, fun value hvalue => ?_⟩
    rw [hplain value hvalue] at hcopiedValue
    generalize q'.value = shown at hcopiedValue ⊢
    cases hcopiedValue
    rfl

end Descends

/-! ## Appends -/

/-- The ways to append something to a list: what is given away, and what the list stores. -/
inductive Appending (k : Container .list) (name : Option String) :
    Multiset AnyContainer → Option Stored → SessionM Unit → Prop where
  | push (item : Item) : Appending k name item.containers item.stored? (k.push name item)
  | pushRaw (item : RawItem) :
    Appending k name 0 (item.kind?.bind item.stored?) (k.pushRaw name item)
  | pushAs (kind : ArgumentKind) (item : RawItem) :
    Appending k name 0 (item.stored? kind) (k.pushAs name kind item)

namespace Appending

variable {k : Container .list} {name : Option String} {given : Multiset AnyContainer}
  {stored : Option Stored} {append : SessionM Unit} {s s' : Session}
  {cs : Multiset AnyContainer} {ps : List Posting}

/-- An append is a step of a journal. -/
theorem step (h : Appending k name given stored append) (hk : k.any ∈ cs) :
    Step kept ⟨s, given + cs, ps⟩
      ⟨endState (append s), cs, ps ++ k.posted name stored (append s)⟩ := by
  cases h with
  | push item => exact .push hk name item
  | pushRaw item =>
    rw [zero_add]
    exact .pushRaw hk name item
  | pushAs kind item =>
    rw [zero_add]
    exact .pushAs hk name kind item

/-- What was accepted is a value that a live list stores. -/
theorem accepted (h : Appending k name given stored append) (hhost : k.host = .reference)
    (hgiven : ∀ held ∈ given, held.2.Fit) (hok : append s = .ok () s') :
    ∃ list l value, k.handle = .ofId list ∧ s.memory.object? list = some (.list l) ∧
      stored = some value := by
  have hpushAs : ∀ (kind : ArgumentKind) (item : RawItem), k.pushAs name kind item s = .ok () s' →
      ∃ list l value, k.handle = .ofId list ∧ s.memory.object? list = some (.list l) ∧
        item.stored? kind = some value := by
    intro kind item hok
    have hallows : item.allows kind = true := by
      by_contra hnot
      rw [Container.pushAs_of_not_allowed (Bool.eq_false_iff.mpr hnot)] at hok
      cases hok
    have happends := Container.appends_pushAs hhost name kind item s
    rw [hok] at happends
    exact happends.exists_stored fun _ _ hp hstorable =>
      RawItem.stored?_of_storable hallows hp hstorable
  cases h with
  | push item =>
    have happends := Container.appends_push hhost name (Item.Fit.of_containers hgiven) s
    rw [hok] at happends
    exact happends.exists_stored fun _ _ hp hstorable => Item.stored?_of_storable hp hstorable
  | pushAs kind item => exact hpushAs kind item hok
  | pushRaw item =>
    cases hkind : item.kind? with
    | some kind =>
      rw [← Container.pushAs_of_kind hkind] at hok
      exact hpushAs kind item hok
    | none =>
      cases item with
      | plain | image | list => cases hkind
      | array h => cases hok

end Appending

/-! ## Handing down -/

/-- Whatever a list accepts under a name, at any time since a host was new, is in the place after
what the list had before, and from then on a node in that place of every list that descends from it
shows it.  Whether the lists in between are still live does not matter. -/
def HandedDown (k : Container .list) (name : Option String) (stored : Option Stored)
    (Shown : Memory → DataNode → Prop) : Prop :=
  ∀ ⦃given : Multiset AnyContainer⦄ ⦃append : SessionM Unit⦄ ⦃start : Session⦄ ⦃config : Config⦄
    ⦃s s' : Session⦄ ⦃cs : Multiset AnyContainer⦄ ⦃ps : List Posting⦄,
    Appending k name given stored append → Run ∅ (fresh start config) ⟨s, given + cs, ps⟩ →
    k.any ∈ cs → append s = .ok () s' →
    ∃ (id place : Nat) (value : Stored), k.handle = .ofId id ∧ k.nodeCount s.memory = place ∧
      stored = some value ∧
      ∀ w heir, Descends ⟨s', cs, ps ++ [⟨id, name, value⟩]⟩ id w heir →
        ∀ (reader : Container .list) (l : ListObject), reader.handle = .ofId heir →
          reader.host = .reference → w.memory.object? heir = some (.list l) →
          ∃ n, (reader.nodes w.memory)[place]? = some n ∧ Shown w.memory n

theorem HandedDown.imp {k : Container .list} {name : Option String} {stored : Option Stored}
    {Shown Shown' : Memory → DataNode → Prop} (h : HandedDown k name stored Shown)
    (himp : ∀ m n, Shown m n → Shown' m n) : HandedDown k name stored Shown' := by
  intro given append start config s s' cs ps happending hrun hk hok
  obtain ⟨id, place, value, hhandle, hcount, hstored, hdown⟩ := h happending hrun hk hok
  refine ⟨id, place, value, hhandle, hcount, hstored, fun w heir hdescends reader l hreader
    hreference hlive => ?_⟩
  obtain ⟨n, hn, hshown⟩ := hdown w heir hdescends reader l hreader hreference hlive
  exact ⟨n, hn, himp _ _ hshown⟩

/-- What was appended is shown under the same name, and, unless it is an object, as the same
value. -/
theorem handedDown (k : Container .list) (name : Option String) (stored : Option Stored) :
    HandedDown k name stored fun m n => n.name m = .ok name ∧
      ∀ value, stored = some (.plain value) → n.value m = .ok (.plain value) := by
  intro given append start config s s' cs ps h hrun hk hok
  obtain ⟨hfit, hrecorded⟩ := hrun.recorded
  have hhost : k.host = .reference := (hfit.containers _ (Multiset.mem_add.mpr (.inr hk))).host
  have hgiven : ∀ held ∈ given, held.2.Fit := fun held hheld =>
    hfit.containers held (Multiset.mem_add.mpr (.inl hheld))
  obtain ⟨id, l, value, hhandle, hl, rfl⟩ := h.accepted hhost hgiven hok
  -- before the append the list shows its postings, so their number is the next place
  have hbefore := Container.reads_of_tabled hrecorded.tabled hrecorded.nodes hl hhandle hhost
  refine ⟨id, _, value, hhandle, hbefore.count, rfl, fun w heir hdescends reader l hreader
    hreference hlive => ?_⟩
  have happended : Run ∅ (fresh start config) ⟨s', cs, ps ++ [⟨id, name, value⟩]⟩ := by
    have hstep := hrun.step (h.step hk)
    rw [hok] at hstep
    have hposted : k.posted name (some value) (.ok () s') = [⟨id, name, value⟩] := by
      simp [Container.posted, Container.posting?, hhandle]
    rwa [hposted] at hstep
  have hplace : (Journal.posted ⟨s', cs, ps ++ [⟨id, name, value⟩]⟩ id)[
      (ps.filter (·.list = id)).length]? = some ⟨id, name, value⟩ := by
    simp [Journal.posted, List.filter_append]
  -- what is in the place of a descendant was posted there, and what was posted is shown
  obtain ⟨q, hq, hname, hplain⟩ := hdescends.inherits happended hplace
  obtain ⟨-, hrecorded'⟩ := (hdescends.run happended).recorded
  obtain ⟨n, hn, hshows⟩ := (Container.reads_of_tabled hrecorded'.tabled hrecorded'.nodes hlive
    hreader hreference).exists_node hq
  refine ⟨n, hn, by rw [hshows.name, hname], fun plain hvalue => ?_⟩
  rw [hshows.value, hplain plain (Option.some.inj hvalue)]
  rfl

end Journal

end Custody
