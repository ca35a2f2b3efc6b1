import Custody.Proofs.Journal.Run
import Custody.Proofs.Memory.NodeTable

/-!
# Lists are read back

What is read from a list is what was posted to it: as many nodes as postings, in the order of the
postings, and each with the name and the value of its own.  What happens to other lists in between
makes no difference, since in every run from a new host the node table is that of the postings
(`Journal.Recorded`).

- `DataNode.shows_of_node?`: what is read from one node.
- `Container.reads_of_tabled`: what is read from a list.
- `Journal.lists_read_back`: both of every live list in every run, of its copies, and of its nodes
  once it was released.
-/

namespace Custody

open SessionM Memory Text

/-! ## One node -/

/-- A node is read as a posting, under the kind of the posting and no other. -/
structure DataNode.Shows (n : DataNode) (m : Memory) (p : Posting) : Prop where
  name : n.name m = .ok p.name
  value : n.value m = .ok p.value.shown
  valueAs : ∀ kind, n.valueAs m kind =
    if kind = p.value.kind then .ok p.value.shown
    else .error (.nodeMismatch kind p.value.kind.code)

/-- Nothing is read from a node, and none follows it. -/
structure DataNode.Dead (n : DataNode) (m : Memory) : Prop where
  name : n.name m = .error .unreadableNode
  value : n.value m = .error .unreadableNode
  next : n.next m = none

theorem ArgumentKind.code_injective : Function.Injective ArgumentKind.code := by
  intro kind kind' hcode
  have hsome := congrArg ArgumentKind.ofCode? hcode
  rwa [ofCode?_code, ofCode?_code, Option.some.injEq] at hsome

namespace DataNode

variable {m : Memory} {h : NodeHandle}

theorem shows_of_node? {p : Posting} (hnode : m.node? h = some p.node) :
    (⟨h, .reference⟩ : DataNode).Shows m p := by
  have hcode : (⟨h, .reference⟩ : DataNode).code m = p.value.kind.code := code_of_node? hnode
  have hkind : (⟨h, .reference⟩ : DataNode).kind? m = some p.value.kind := by
    rw [kind?, hcode, ofCode?_code]
  have hstored : Host.reference.nodeValue h m = some p.value.payload := nodeValue_of_node? hnode
  have hname : Host.reference.nodeName h m = some (p.name.map utf8) := by
    show (m.node? h).map (·.name) = _
    rw [hnode]
    rfl
  have hvalue : (⟨h, .reference⟩ : DataNode).value m = .ok p.value.shown := by
    simp only [value, hstored, hkind]
    cases p.value with
    | plain v => simp [Stored.kind, Stored.payload, Stored.shown, Plain.read_stored, Except.map]
    | object c id =>
      have hadopted : Container.adopt c .reference (.ofId id) .host =
          .ok ⟨.ofId id, .host, .reference⟩ :=
        if_neg (by simp [Handle.isNull, Handle.ofId, addressOf])
      simp [Stored.kind, Stored.payload, Stored.shown, Payload.asHandle, hadopted, Except.map]
  refine ⟨?_, hvalue, fun kind => ?_⟩
  · simp only [name, hname]
    cases p.name with
    | none => rfl
    | some s => simp [decodeText, Except.map, Except.mapError]
  · simp only [valueAs, hcode, hvalue, ArgumentKind.code_injective.eq_iff, eq_comm]

theorem dead_of_node? (hnode : m.node? h = none) : (⟨h, .reference⟩ : DataNode).Dead m := by
  have hname : Host.reference.nodeName h m = none := by
    show (m.node? h).map (·.name) = none
    rw [hnode, Option.map_none]
  have hvalue : Host.reference.nodeValue h m = none := nodeValue_of_no_node? hnode
  have hnext : Host.reference.nextNode h m = .null := by
    show nodeHandle (m.nextNode? h) = .null
    unfold nextNode?
    cases h.id? with
    | none => rfl
    | some id => rw [hnode]; rfl
  refine ⟨by simp only [name, hname], by simp only [value, hvalue], ?_⟩
  simp only [next, hnext]
  rfl

end DataNode

/-! ## Lists -/

/-- A list is read as a number of postings. -/
structure Container.Reads (k : Container .list) (m : Memory) (own : List Posting) : Prop where
  count : k.nodeCount m = own.length
  /-- Walking from the first node stops by itself, once all nodes were visited. -/
  walk : ∀ limit, own.length ≤ limit → nodesFrom k.host m limit (k.firstNode m) = k.nodes m
  nodes : List.Forall₂ (fun n p => n.Shows m p) (k.nodes m) own
  names : k.names m = .ok (own.map (·.name))
  values : k.values m = .ok (own.map (·.value.shown))
  front : k.front m = (k.nodes m).head?
  back : k.back m = (k.nodes m).getLast?

theorem mapM_eq_ok_of_forall₂ {α β γ ε : Type} {f : α → Except ε γ} {g : β → γ} {xs : List α}
    {ys : List β} (h : List.Forall₂ (fun x y => f x = .ok (g y)) xs ys) :
    xs.mapM f = .ok (ys.map g) := by
  induction h with
  | nil => rfl
  | cons hx _ ih =>
    rw [List.mapM_cons, hx, ih]
    rfl

namespace Journal

/-- The postings to a list. -/
def posted (w : Journal) (list : Nat) : List Posting := w.postings.filter (·.list = list)

/-- The node table is that of the postings. -/
structure Recorded (w : Journal) : Prop where
  tabled : w.memory.Tabled
  nodes : w.memory.nodes.toList = w.postings.map Posting.node

end Journal

/-- What the places of a live list are looked up as. -/
theorem Memory.Tabled.forall₂_node? {m : Memory} {ps : List Posting} {id : Nat} {l : ListObject}
    (h : m.Tabled) (hnodes : m.nodes.toList = ps.map Posting.node)
    (hl : m.object? id = some (.list l)) :
    List.Forall₂ (fun n p => m.nodes[n]? = some p.node) l.nodes (ps.filter (·.list = id)) := by
  have hown : (ps.map Posting.node).filter (·.list = id) =
      (ps.filter (·.list = id)).map Posting.node := by
    rw [List.filter_map]
    rfl
  have hplaces := m.map_positions id
  rw [← h.lists id l hl, hnodes, hown, List.map_map] at hplaces
  have hpairs : List.Forall₂ Eq (l.nodes.map (m.nodes[·]?))
      ((ps.filter (·.list = id)).map (some ∘ Posting.node)) := by
    rw [hplaces, List.forall₂_same]
    exact fun _ _ => rfl
  rwa [List.forall₂_map_left_iff, List.forall₂_map_right_iff] at hpairs

/-- The node of an optional handle. -/
private theorem adopt_nodeHandle (place : Option Nat) :
    (DataNode.adopt .reference (nodeHandle place)).toOption =
      place.map fun n => ⟨.ofId n, .reference⟩ := by
  cases place <;> rfl

namespace Container

section Places

variable {k : Container .list} {m : Memory} {id : Nat} {l : ListObject}

/-- The host is asked about the list. -/
theorem ask_of_list (hhandle : k.handle = .ofId id) (hhost : k.host = .reference) {α : Type}
    (default : α) (question : Host → Handle → α) :
    k.ask default question = question .reference (.ofId id) := by
  rw [ask, isEmpty, hhandle, hhost]
  rfl

theorem list?_of_object? (hl : m.object? id = some (.list l)) : m.list? (.ofId id) = some l := by
  rw [list?, find?_ofId, hl]

theorem firstNode_of_list (hl : m.object? id = some (.list l)) (hhandle : k.handle = .ofId id)
    (hhost : k.host = .reference) : k.firstNode m = nodeHandle l.nodes.head? := by
  rw [firstNode, ask_of_list hhandle hhost]
  show nodeHandle ((m.list? (.ofId id)).bind (·.nodes.head?)) = _
  rw [list?_of_object? hl, Option.bind_some]

theorem lastNode_of_list (hl : m.object? id = some (.list l)) (hhandle : k.handle = .ofId id)
    (hhost : k.host = .reference) : k.lastNode m = nodeHandle l.nodes.getLast? := by
  rw [lastNode, ask_of_list hhandle hhost]
  show nodeHandle ((m.list? (.ofId id)).bind (·.nodes.getLast?)) = _
  rw [list?_of_object? hl, Option.bind_some]

/-- Walking along a list visits its places. -/
theorem walk_of_list (h : m.Tabled) (hl : m.object? id = some (.list l))
    (hhandle : k.handle = .ofId id) (hhost : k.host = .reference) {limit : Nat}
    (hlimit : l.nodes.length ≤ limit) :
    nodesFrom k.host m limit (k.firstNode m) = l.nodes.map fun n => ⟨.ofId n, .reference⟩ := by
  rw [firstNode_of_list hl hhandle hhost, hhost, List.head?_eq_getElem?,
    h.nodesFrom_eq hl limit 0 (by omega), List.drop_zero]

theorem nodes_of_list (h : m.Tabled) (hl : m.object? id = some (.list l))
    (hhandle : k.handle = .ofId id) (hhost : k.host = .reference) :
    k.nodes m = l.nodes.map fun n => ⟨.ofId n, .reference⟩ := by
  apply walk_of_list h hl hhandle hhost
  rw [h.lists id l hl]
  exact m.length_positions_le id

end Places

/-- A live list reads as what was posted to it. -/
theorem reads_of_tabled {k : Container .list} {m : Memory} {ps : List Posting} {id : Nat}
    {l : ListObject} (h : m.Tabled) (hnodes : m.nodes.toList = ps.map Posting.node)
    (hl : m.object? id = some (.list l)) (hhandle : k.handle = .ofId id)
    (hhost : k.host = .reference) : k.Reads m (ps.filter (·.list = id)) := by
  obtain ⟨hlength, hplaces⟩ := List.forall₂_iff_zip.mp (h.forall₂_node? hnodes hl)
  have hall := nodes_of_list h hl hhandle hhost
  have hshown : List.Forall₂ (fun n p => n.Shows m p) (k.nodes m) (ps.filter (·.list = id)) := by
    rw [hall, List.forall₂_map_left_iff, List.forall₂_iff_zip]
    refine ⟨hlength, fun {n p} hmem => DataNode.shows_of_node? ?_⟩
    have hp : p.list = id := by simpa using (List.mem_filter.mp (List.of_mem_zip hmem).2).2
    exact node?_of_live (hplaces hmem) (hp ▸ hl)
  constructor
  case count =>
    rw [nodeCount, ask_of_list hhandle hhost]
    show ((m.list? (.ofId id)).map fun l => (l.nodes.length : Int)).getD 0 = _
    rw [list?_of_object? hl, ← hlength]
    rfl
  case walk =>
    intro limit hlimit
    rw [hall, walk_of_list h hl hhandle hhost (hlength ▸ hlimit)]
  case nodes => exact hshown
  case names => exact mapM_eq_ok_of_forall₂ (hshown.imp fun _ _ hshows => hshows.name)
  case values => exact mapM_eq_ok_of_forall₂ (hshown.imp fun _ _ hshows => hshows.value)
  case front =>
    rw [front, hhost, firstNode_of_list hl hhandle hhost, adopt_nodeHandle, hall, List.head?_map]
  case back =>
    rw [back, hhost, lastNode_of_list hl hhandle hhost, adopt_nodeHandle, hall, List.getLast?_map]

end Container

/-! ## Copies of lists -/

theorem Memory.copy_of_cloneIf {m m' : Memory} {accepts : Object → Bool} {id : Nat} {h : Handle}
    (hcloned : m.cloneIf accepts (.ofId id) = (some h, m')) :
    ∃ copy m'', m.copy id = (some copy, m'') ∧ h = .ofId copy ∧ m''.Evolves [] ∅ m' := by
  unfold cloneIf at hcloned
  split at hcloned
  · cases hcloned
  · rw [Handle.id?_ofId] at hcloned
    split at hcloned
    case h_2 => cases hcloned
    case h_1 other object hid _ =>
      obtain rfl := Option.some.inj hid
      split at hcloned
      case h_1 copy m'' hcopy =>
        cases hcloned
        exact ⟨copy, m'', hcopy, rfl, evolves_count m'' _⟩
      case h_2 => cases hcloned

/-- What a library gets that copies a list. -/
theorem Container.copied_of_tryClone {s s' : Session} {k made : Container .list} {id : Nat}
    (hhandle : k.handle = .ofId id) (hhost : k.host = .reference)
    (h : k.tryClone s = .ok made s') :
    ∃ copy m', s.memory.copy id = (some copy, m') ∧ made.handle = .ofId copy ∧
      m'.Evolves [] ∅ s'.memory := by
  have hrequire : k.require = .ok (.ofId id) := by
    rw [require, isEmpty, hhandle]
    rfl
  rw [tryClone, hrequire, ofExcept_ok, pure_bind, hhost] at h
  rcases hclone : Host.reference.clone .list (.ofId id) s.memory with ⟨_ | handle, m⟩
  · have hrefused : copyHandle .list .reference (.ofId id) s =
        .error (.failure (.clone .list)) { s with memory := m } := by
      rw [copyHandle, bind_of_ok (onMemory_apply _ s), hclone]
      rfl
    rw [bind_of_error hrefused] at h
    cases h
  · have hcopied : copyHandle .list .reference (.ofId id) s =
        .ok handle { s with memory := m } := by
      rw [copyHandle, bind_of_ok (onMemory_apply _ s), hclone]
      rfl
    obtain ⟨copy, m', hcopy, rfl, hevolves⟩ := copy_of_cloneIf hclone
    rw [bind_of_ok hcopied] at h
    cases h
    exact ⟨copy, m', hcopy, rfl, hevolves⟩

namespace Journal

/-! ## Runs -/

theorem recorded_fresh (s : Session) (config : Config) : (fresh s config).Recorded :=
  ⟨tabled_empty, rfl⟩

private theorem map_filterMap_posting? {nodes : List Node}
    (h : ∀ node ∈ nodes, ∃ p : Posting, node = p.node) :
    (nodes.filterMap Node.posting?).map Posting.node = nodes := by
  induction nodes with
  | nil => rfl
  | cons node nodes ih =>
    obtain ⟨p, rfl⟩ := h node (by simp)
    rw [List.filterMap_cons_some p.posting?_node, List.map_cons,
      ih fun other hother => h other (by simp [hother])]

/-- What is copied is the node of a posting, and so is its copy. -/
theorem Recorded.exists_posting {v : Journal} (h : v.Recorded) {base : Nat} {old node : Node}
    (hold : old ∈ v.memory.nodes.toList) (hcopy : CopyOf base old node) :
    ∃ p : Posting, node = p.node := by
  rw [h.nodes] at hold
  obtain ⟨p, -, rfl⟩ := List.mem_map.mp hold
  obtain ⟨q, hq, -⟩ := hcopy.exists_posting
  exact ⟨q, hq⟩

/-- Whatever an operation does, the node table stays that of the postings. -/
theorem Recorded.effect {kept : Set Nat} {v w : Journal} (hrecorded : v.Recorded) (hv : v.Fit)
    (h : Effect kept v w) : w.Recorded := by
  obtain ⟨posted, hpostings, hchange⟩ := h.change
  obtain ⟨added, gone, hevolves, rfl, hadded⟩ := hchange.evolves hv.containers
  refine ⟨hevolves.tabled hrecorded.tabled, ?_⟩
  rw [hevolves.nodes_eq, hrecorded.nodes, hpostings, List.map_append, map_filterMap_posting?]
  intro node hnode
  rcases hadded node hnode with hposting | ⟨old, hold, hcopy⟩
  · exact hposting
  · exact hrecorded.exists_posting hold hcopy

/-- In every run from a new host, the node table is that of the postings. -/
theorem Run.recorded {kept : Set Nat} {s : Session} {config : Config} {w : Journal}
    (h : Run kept (fresh s config) w) : w.Fit ∧ w.Recorded :=
  h.invariant (fit_fresh s config) (recorded_fresh s config)
    fun _ _ _ hv hrecorded heffect => hrecorded.effect hv heffect

/-- What two lists have to do with a third, they have to do with each other. -/
private theorem forall₂_of_common {α β γ : Type} {R : α → β → Prop} {S : α → γ → Prop}
    {T : β → γ → Prop} (hT : ∀ a b c, R a b → S a c → T b c) {as : List α} {bs : List β}
    {cs : List γ} (h : List.Forall₂ R as bs) (h' : List.Forall₂ S as cs) :
    List.Forall₂ T bs cs := by
  induction h generalizing cs with
  | nil =>
    cases h'
    exact .nil
  | cons hR _ ih =>
    cases h' with
    | cons hS hrest => exact .cons (hT _ _ _ hR hS) (ih hrest)

/-- The copy of a list is posted what the list was: the same names and values, with new objects in
place of those that it holds. -/
theorem Recorded.posted_of_copy {v : Journal} (hrecorded : v.Recorded) {id copy : Nat}
    {l : ListObject} (hl : v.memory.object? id = some (.list l)) {m m' : Memory}
    (hcopy : v.memory.copy id = (some copy, m)) (hevolves : m.Evolves [] ∅ m') :
    List.Forall₂ (fun p q => q.name = p.name ∧
        Stored.Copied v.memory.allocations.size p.value q.value)
      (v.posted id) ((v.postings ++ v.memory.postedSince m').filter (·.list = copy)) := by
  obtain ⟨added, transcribed⟩ := transcribed_copy v.memory id
  rw [hcopy] at transcribed
  obtain ⟨rfl, -⟩ := transcribed.made copy rfl
  have htotal := transcribed.expands.evolves.then_quiet hevolves
  have hcopied : ∀ node ∈ added, ∃ q : Posting, node = q.node := by
    intro node hnode
    obtain ⟨old, hold, hcopyOf⟩ := transcribed.expands.copied node hnode
    exact hrecorded.exists_posting hold hcopyOf
  have hadded := map_filterMap_posting? hcopied
  have hentries := transcribed.entries _ l rfl hl
  rw [postedSince_of_evolves htotal]
  generalize added.filterMap Node.posting? = qs at hadded
  subst hadded
  -- nothing was posted to the copy before it was there
  have hbefore : v.postings.filter (·.list = v.memory.allocations.size) = [] := by
    apply List.filter_eq_nil_iff.mpr
    intro p hp
    have hissued : p.list < v.memory.allocations.size :=
      hrecorded.tabled.issued p.node (hrecorded.nodes ▸ List.mem_map_of_mem hp)
    simpa using hissued.ne
  have hqs : (qs.map Posting.node).filter (·.list = v.memory.allocations.size) =
      (qs.filter (·.list = v.memory.allocations.size)).map Posting.node := by
    rw [List.filter_map]
    rfl
  rw [hqs, List.forall₂_map_right_iff] at hentries
  rw [List.filter_append, hbefore, List.nil_append]
  refine forall₂_of_common (fun n p q hp hq => ?_)
    (hrecorded.tabled.forall₂_node? hrecorded.nodes hl) hentries
  obtain ⟨old, hold, hcopyOf⟩ := hq
  obtain rfl : p.node = old := by
    have hkept := transcribed.expands.evolves.nodesIn n p.node hp
    exact Option.some.inj (hkept.symm.trans hold)
  obtain ⟨q', hq', hname, hvalue⟩ := hcopyOf.exists_posting
  obtain rfl := Posting.node_injective hq'
  exact ⟨hname, hvalue⟩

/-- Whatever happens, a node stays in the table. -/
theorem Run.nodesIn {kept : Set Nat} {v w : Journal} (h : Run kept v w) (hv : v.Fit) :
    v.memory.NodesIn w.memory := by
  refine (h.invariant (P := fun w => v.memory.NodesIn w.memory) hv (fun _ _ hnode => hnode) ?_).2
  intro u w _ hu hnodes heffect n node hnode
  obtain ⟨posted, -, hchange⟩ := heffect.change
  obtain ⟨added, gone, hevolves, -, -⟩ := hchange.evolves hu.containers
  exact hevolves.nodesIn n node (hnodes n node hnode)

/-- **Lists are read back.**  In every run from a new host, a live list is read as what was posted
to it.  A library that copies it gets a list to which the same was posted, with new objects in place
of those that it holds.  Once the list was released, nothing is read from its nodes. -/
theorem lists_read_back {s : Session} {config : Config} {v : Journal}
    (hrun : Run ∅ (fresh s config) v) (k : Container .list) {id : Nat} {l : ListObject}
    (hl : v.memory.object? id = some (.list l)) (hhandle : k.handle = .ofId id)
    (hhost : k.host = .reference) :
    k.Reads v.memory (v.posted id) ∧
    (∀ made s', k.tryClone v.session = .ok made s' → ∃ copy, made.handle = .ofId copy ∧
      List.Forall₂ (fun p q => q.name = p.name ∧
          Stored.Copied v.memory.allocations.size p.value q.value)
        (v.posted id)
        ((v.postings ++ v.memory.postedSince s'.memory).filter (·.list = copy))) ∧
    ∀ w, Run ∅ v w → ¬ w.memory.Live id → ∀ n ∈ k.nodes v.memory, n.Dead w.memory := by
  obtain ⟨hv, hrecorded⟩ := hrun.recorded
  refine ⟨?reads, fun made s' hmade => ?copied, fun w hlater hdead n hn => ?released⟩
  case reads => exact Container.reads_of_tabled hrecorded.tabled hrecorded.nodes hl hhandle hhost
  case copied =>
    obtain ⟨copy, m, hcopy, hmade, hevolves⟩ := Container.copied_of_tryClone hhandle hhost hmade
    exact ⟨copy, hmade, hrecorded.posted_of_copy hl hcopy hevolves⟩
  case released =>
    rw [Container.nodes_of_list hrecorded.tabled hl hhandle hhost] at hn
    obtain ⟨place, hplace, rfl⟩ := List.mem_map.mp hn
    obtain ⟨node, hnode, rfl⟩ := hrecorded.tabled.exists_node hl hplace
    exact DataNode.dead_of_node? (node?_of_not_live (hlater.nodesIn hv place node hnode) hdead)

/-- Two lists take turns: one is read back as what it was given, and nothing is read from its nodes
when it has gone. -/
theorem read_back_in_turns :
    let k : Container .list := ⟨.ofId 1, .library, .reference⟩
    ∃ v l, Run ∅ (fresh {} {}) v ∧ v.memory.object? 1 = some (.list l) ∧
      k.names v.memory = .ok [some "a", none] ∧
      k.values v.memory = .ok [.plain (.integer 5), .plain (.text "b")] ∧
      ∃ w, Run ∅ v w ∧ ¬ w.memory.Live 1 ∧ ∀ n ∈ k.nodes v.memory, n.Dead w.memory := by
  intro k
  let other : Container .list := ⟨.ofId 0, .library, .reference⟩
  let made := endState (Container.newList (endState (Container.newList (fresh {} {}).session)))
  let r₁ := k.pushRaw (some "a") (.plain (.integer 5)) made
  let r₂ := other.pushRaw (some "a") (.plain (.boolean true)) (endState r₁)
  let r₃ := k.pushRaw none (.plain (.text "b")) (endState r₂)
  let v : Journal :=
    ⟨endState r₃, k.any ::ₘ other.any ::ₘ 0,
      k.posted (some "a") (some (.plain (.integer 5))) r₁ ++
        other.posted (some "a") (some (.plain (.boolean true))) r₂ ++
        k.posted none (some (.plain (.text "b"))) r₃⟩
  have hmade : Run ∅ (fresh {} {}) ⟨made, k.any ::ₘ other.any ::ₘ 0, []⟩ :=
    ((Run.refl _).step (.make .newList)).step (.make .newList)
  have hpushed : Run ∅ (fresh {} {}) v :=
    ((hmade.step (.pushRaw (by simp) (some "a") (.plain (.integer 5)))).step
      (.pushRaw (by simp) (some "a") (.plain (.boolean true)))).step
      (.pushRaw (by simp) none (.plain (.text "b")))
  have hposted : v.posted 1 =
      [⟨1, some "a", .plain (.integer 5)⟩, ⟨1, none, .plain (.text "b")⟩] := by
    decide
  have hlive : v.memory.object? 1 = some (.list ⟨[0, 2]⟩) := by decide
  have hdropped : Run ∅ v ⟨endState (k.drop (endState r₃)), other.any ::ₘ 0, v.postings⟩ :=
    (Run.refl v).step (.drop k)
  have hdead : ¬ (endState (k.drop (endState r₃))).memory.Live 1 := by decide
  obtain ⟨hreads, -, hreleased⟩ := lists_read_back hpushed k hlive rfl rfl
  have hnames := hreads.names
  have hvalues := hreads.values
  rw [hposted] at hnames hvalues
  exact ⟨v, _, hpushed, hlive, hnames, hvalues, _, hdropped, hdead, hreleased _ hdropped hdead⟩

end Journal

end Custody
