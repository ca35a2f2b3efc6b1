import Custody.Proofs.Memory.Nesting

/-!
# As many levels as there are

A deep copy follows what lists hold for as long as there is something to follow.  Here it is given a
number of levels, and where these run out it gives up.  If no circle lies below the object, it makes
no difference how many levels are given, as long as they are as many as there are objects: the
copying ends by itself, whether it succeeds or not (`Memory.copyWithin_eq_copy`).  If a circle lies
below, the copying succeeds with no number of levels (`Memory.copyWithin_eq_none`), and neither does
it where something that a list is to hold has died (`Memory.copy_eq_none_of_not_intact`).
-/

namespace Custody

namespace Memory

open Relation

variable {m : Memory}

/-! ## No circle -/

section Same

variable {copy copy' : Nat → Memory → Option Nat × Memory} {target : Nat} {m' : Memory}

private theorem copyNode_congr {node : Node}
    (hsame : ∀ held, nestedIn node = some held → copy held m' = copy' held m') :
    copyNode copy target node m' = copyNode copy' target node m' := by
  unfold copyNode
  cases hcategory : nestedCategory? node.code with
  | none => rfl
  | some category =>
    cases hid : node.value.asHandle.id? with
    | none => rfl
    | some held => simp only [hsame held (by simp [nestedIn, hcategory, hid])]

/-- Nodes of a memory are copied in the same way if what they hold is, whatever was added to the
memory in the meantime. -/
private theorem copyNodes_congr (hcopy : CopiesUpward copy') (hnew : m.allocations.size ≤ target)
    (ns : List Nat)
    (hsame : ∀ n ∈ ns, ∃ node, m.nodes[n]? = some node ∧
      ∀ held, nestedIn node = some held → ∀ m', m.Grows ∅ m' → copy held m' = copy' held m')
    (hgrown : m.Grows ∅ m') (htarget : target < m'.allocations.size) :
    copyNodes copy target ns m' = copyNodes copy' target ns m' := by
  induction ns generalizing m' with
  | nil => rfl
  | cons n ns ih =>
    obtain ⟨node, hnode, hheld⟩ := hsame n (by simp)
    have hfirst : copyNode copy target node m' = copyNode copy' target node m' :=
      copyNode_congr fun held hnested => hheld held hnested m' hgrown
    simp only [copyNodes, hgrown.nodes n node hnode, hfirst]
    obtain ⟨hgrows, hrises⟩ := rises_copyNode hcopy (Nat.zero_le _) node htarget
    rcases hresult : copyNode copy' target node m' with ⟨_ | _, m''⟩
    · rfl
    · rw [hresult] at hgrows hrises
      refine ih (fun n' hn' => hsame n' (by simp [hn'])) (hgrown.of_new hgrows ?_)
        (htarget.trans_le hrises.issued)
      rintro id rfl
      exact hnew

end Same

/-- Below an object from which no circle is reached, the levels that are left over are not used. -/
private theorem copyWithin_below (hm : m.Tabled) (hnames : m.NamesOthers) {root : Nat}
    (hacyclic : m.Acyclic root) (depth : Nat) (path : List Nat) {id : Nat}
    (descent : Descent m root path id) (hdepth : m.allocations.size ≤ depth + path.length)
    {deeper : Nat} (hdeeper : depth ≤ deeper) {m' : Memory} (hgrown : m.Grows ∅ m') :
    copyWithin deeper id m' = copyWithin depth id m' := by
  -- the levels that are left and the length of the path together stay as many as the objects
  induction depth generalizing path id deeper m' with
  | zero =>
    have := descent.length_lt
    omega
  | succ depth ih =>
    obtain ⟨deeper, rfl⟩ : ∃ below, deeper = below + 1 := ⟨deeper - 1, by omega⟩
    have hobject := hgrown.object? descent.reach.live.lt_size (Set.notMem_empty id)
    obtain ⟨object, hobject'⟩ := live_iff.mp descent.reach.live
    simp only [copyWithin, hobject, hobject']
    cases object with
    | array a => rfl
    | image i => rfl
    | list l =>
      have hbelow : copyNodes (copyWithin deeper) m'.allocations.size l.nodes
            (m'.issue (.list ⟨[]⟩)).2 =
          copyNodes (copyWithin depth) m'.allocations.size l.nodes
            (m'.issue (.list ⟨[]⟩)).2 := by
        refine copyNodes_congr (rises_copyWithin depth) hgrown.issued l.nodes (fun n hn => ?_)
          (hgrown.trans (.issue m' _)) (by simp)
        obtain ⟨node, hnode, -⟩ := hm.exists_node hobject' hn
        refine ⟨node, hnode, fun held hheld m'' hgrown' => ?_⟩
        by_cases hlive : m.Live held
        · have hmem : held ∈ m.holdings id := mem_holdings_of_node hobject' hn hnode hheld
          exact ih (id :: path) (descent.step hacyclic hmem hlive)
            (by rw [List.length_cons]; omega) (by omega) hgrown'
        -- what has died is not copied, with levels left or without
        · have hissued : held < m.allocations.size :=
            hnames node (Array.mem_toList_iff.mpr (Array.mem_of_getElem? hnode)) held hheld |>.1
          have hdead : m''.object? held = none := by
            rw [hgrown'.object? hissued (Set.notMem_empty held)]
            rwa [Live, Option.not_isSome_iff_eq_none] at hlive
          cases deeper <;> cases depth <;> simp [copyWithin, hdead]
      simp only [issue_fst, hbelow]

/-- Where no circle is reached, deep copying ends by itself. -/
theorem copyWithin_eq_copy (hm : m.Tabled) (hnames : m.NamesOthers) {root : Nat}
    (hacyclic : m.Acyclic root) {depth : Nat} (hdepth : m.allocations.size ≤ depth) :
    copyWithin depth root m = m.copy root := by
  by_cases hlive : m.Live root
  · have descent : Descent m root [] root :=
      ⟨.root hlive, by simpa using hlive.lt_size, by simp, by simp⟩
    exact copyWithin_below hm hnames hacyclic m.allocations.size [] descent (by simp) hdepth
      (.refl m ∅)
  · have hdead : m.object? root = none := by
      rwa [Live, Option.not_isSome_iff_eq_none] at hlive
    have hnone : ∀ levels, copyWithin levels root m = (none, m) := by
      intro levels
      cases levels <;> simp [copyWithin, hdead]
    rw [copy, hnone, hnone]

/-! ## What cannot be copied -/

/-- If one of the nodes is to hold something, and whatever it holds cannot be copied, not all of
them are copied. -/
private theorem copyNodes_eq_false {copy : Nat → Memory → Option Nat × Memory} {target : Nat}
    (hcopy : CopiesUpward copy) (hnew : m.allocations.size ≤ target) {ns : List Nat} {n : Nat}
    (hn : n ∈ ns) {node : Node} (hnode : m.nodes[n]? = some node)
    (hcode : nestedCategory? node.code ≠ none)
    (hfails : ∀ held, nestedIn node = some held → ∀ m', m.Grows ∅ m' → (copy held m').1 = none)
    {m' : Memory} (hgrown : m.Grows ∅ m') (htarget : target < m'.allocations.size) :
    (copyNodes copy target ns m').1 = false := by
  induction ns generalizing m' with
  | nil => cases hn
  | cons first ns ih =>
    unfold copyNodes
    cases hfirst : m'.nodes[first]? with
    | none => rfl
    | some other =>
      obtain ⟨hgrows, hrises⟩ := rises_copyNode hcopy (Nat.zero_le _) other htarget
      rcases hresult : copyNode copy target other m' with ⟨_ | _, m''⟩
      · simp only [hresult]
      · simp only [hresult]
        rw [hresult] at hgrows hrises
        -- a node that was copied is none of which this is known
        have hne : n ≠ first := by
          rintro rfl
          obtain rfl : other = node :=
            Option.some.inj (hfirst.symm.trans (hgrown.nodes n node hnode))
          obtain ⟨category, hcategory⟩ := Option.ne_none_iff_exists'.mp hcode
          cases hid : other.value.asHandle.id? with
          | none => simp [copyNode, hcategory, hid] at hresult
          | some held =>
            have hnone := hfails held (by simp [nestedIn, hcategory, hid]) m' hgrown
            rcases hcopied : copy held m' with ⟨_ | made, m₁⟩
            · simp [copyNode, hcategory, hid, hcopied] at hresult
            · simp [hcopied] at hnone
        refine ih ((List.mem_cons.mp hn).resolve_left hne) (hgrown.of_new hgrows ?_)
          (htarget.trans_le hrises.issued)
        rintro id rfl
        exact hnew

/-- Each object of the set has died, or it has a node that is to hold something, and holds nothing
but what is in the set. -/
def Barred (m : Memory) (ids : Set Nat) : Prop :=
  ∀ id ∈ ids, (id < m.allocations.size ∧ ¬ m.Live id) ∨
    ∃ l n node, m.object? id = some (.list l) ∧ n ∈ l.nodes ∧ m.nodes[n]? = some node ∧
      nestedCategory? node.code ≠ none ∧ ∀ held, nestedIn node = some held → held ∈ ids

/-- Nothing of such a set can be copied, however many levels there are. -/
theorem Barred.copyWithin_eq_none {ids : Set Nat} (hbarred : m.Barred ids) (depth : Nat) {id : Nat}
    (hid : id ∈ ids) {m' : Memory} (hgrown : m.Grows ∅ m') :
    (copyWithin depth id m').1 = none := by
  induction depth generalizing id m' with
  | zero => rfl
  | succ depth ih =>
    rcases hbarred id hid with ⟨hissued, hdead⟩ | ⟨l, n, node, hl, hn, hnode, hcode, hheld⟩
    · have hnone : m'.object? id = none := by
        rw [hgrown.object? hissued (Set.notMem_empty id)]
        rwa [Live, Option.not_isSome_iff_eq_none] at hdead
      simp only [copyWithin, hnone]
    · have hfalse : (copyNodes (copyWithin depth) m'.allocations.size l.nodes
          (m'.issue (.list ⟨[]⟩)).2).1 = false :=
        copyNodes_eq_false (rises_copyWithin depth) hgrown.issued hn hnode hcode
          (fun held hnested m'' hgrown' => ih (hheld held hnested) hgrown')
          (hgrown.trans (.issue m' _)) (by simp)
      have hobject : m'.object? id = some (.list l) := by
        rw [hgrown.object? (Live.of_object hl).lt_size (Set.notMem_empty id), hl]
      simp only [copyWithin, hobject, issue_fst]
      rcases hresult : copyNodes (copyWithin depth) m'.allocations.size l.nodes
        (m'.issue (.list ⟨[]⟩)).2 with ⟨_ | _, m''⟩
      · rfl
      · rw [hresult] at hfalse
        cases hfalse

/-- Where a circle is reached, nothing is copied, however many levels there are. -/
theorem copyWithin_eq_none {root : Nat} (hcyclic : ¬ m.Acyclic root) (depth : Nat) :
    (copyWithin depth root m).1 = none := by
  obtain ⟨id, hreach, hcircle⟩ : ∃ id, m.Reaches root id ∧ m.Circular id := by
    simpa [acyclic_iff] using hcyclic
  rw [circular_iff] at hcircle
  -- everything that leads to the circle holds something that does
  have hbarred : m.Barred {a | TransGen m.Holds a id} := by
    intro a ha
    obtain ⟨held, hheld, hpath⟩ := TransGen.head'_iff.mp ha
    obtain ⟨l, n, node, hl, hn, hnode, hnested⟩ := mem_holdings_iff.mp hheld
    refine .inr ⟨l, n, node, hl, hn, hnode, fun hcode => ?_, fun other hother => ?_⟩
    · simp [nestedIn, hcode] at hnested
    · obtain rfl : held = other := Option.some.inj (hnested.symm.trans hother)
      exact .trans_right hpath hcircle
  exact hbarred.copyWithin_eq_none depth (.trans_right (reaches_iff.mp hreach).1 hcircle)
    (.refl m ∅)

/-- Where something that is to be held has died, nothing is copied. -/
theorem copy_eq_none_of_not_intact (hm : m.Tabled) (hnames : m.NamesOthers) {root : Nat}
    (hbroken : ¬ m.Intact root) : (m.copy root).1 = none := by
  have hnode : ∃ id l n node, m.Reaches root id ∧ m.object? id = some (.list l) ∧ n ∈ l.nodes ∧
      m.nodes[n]? = some node ∧ nestedCategory? node.code ≠ none ∧
      ∀ held, nestedIn node = some held → ¬ m.Live held := by
    by_contra hintact
    refine hbroken fun id l hreach hl n hn => ?_
    obtain ⟨node, hnode, -⟩ := hm.exists_node hl hn
    refine ⟨node, hnode, fun hcode => ?_⟩
    by_contra hdead
    exact hintact ⟨id, l, n, node, hreach, hl, hn, hnode, hcode, fun held hnested hlive =>
      hdead ⟨held, hnested, hlive⟩⟩
  obtain ⟨id, l, n, node, hreach, hl, hn, hnode, hcode, hdead⟩ := hnode
  -- everything that leads to the list of the node is barred, and so is what the node names
  have hbarred : m.Barred {a | m.Reaches a id ∨ a < m.allocations.size ∧ ¬ m.Live a} := by
    rintro a (hthere | hgone)
    · rcases ReflTransGen.cases_head (reaches_iff.mp hthere).1 with rfl | ⟨held, hheld, hpath⟩
      · refine .inr ⟨l, n, node, hl, hn, hnode, hcode, fun held hnested => .inr ⟨?_, ?_⟩⟩
        · exact (hnames node (Array.mem_toList_iff.mpr (Array.mem_of_getElem? hnode)) held
            hnested).1
        · exact hdead held hnested
      · obtain ⟨l', n', node', hl', hn', hnode', hnested⟩ := mem_holdings_iff.mp hheld
        refine .inr ⟨l', n', node', hl', hn', hnode', fun hplain => ?_, fun other hother => .inl ?_⟩
        · simp [nestedIn, hplain] at hnested
        · obtain rfl : held = other := Option.some.inj (hnested.symm.trans hother)
          exact reaches_iff.mpr ⟨hpath, hreach.live⟩
    · exact .inl hgone
  exact hbarred.copyWithin_eq_none _ (.inl hreach) (.refl m ∅)

end Memory

end Custody
