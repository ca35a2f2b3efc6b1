import Custody.Proofs.Memory.Reach
import Mathlib.Data.List.Nodup
import Mathlib.Data.List.Range

/-!
# Lists unfolded

The unfolding of an object is the object with all that it holds in the place of handles: what a
reader of the list sees who follows every nested handle, whatever the numbers of the objects are.
Beside it stand the occurrences: the numbers of the objects in the order in which the unfolding
meets them, an object that is held twice being met twice.

- `Memory.unfoldWithin_frame`: an unfolding depends on the objects that occur in it, and on no other.
- `Memory.mem_occurrencesWithin_iff`: what occurs is what can be reached.
- `Memory.exists_unfolding`: an object has an unfolding if no list that it reaches leads back to
  itself and every node that it reaches can be read.
-/

namespace Custody

/-! ## Unfoldings -/

/-- An entry of a list: a plain value as it is stored, or an object. -/
structure Entry (α : Type) where
  name : Option Text.Bytes
  code : Int
  value : Payload ⊕ α

/-- An object with all that it holds, directly and indirectly. -/
inductive Unfolding where
  | buffer (object : Object)
  | list (entries : List (Entry Unfolding))

namespace Memory

/-- The entry of a node, given what objects unfold to. -/
def entryOf? (unfold : Nat → Option Unfolding) (node : Node) : Option (Entry Unfolding) :=
  match nestedCategory? node.code with
  | none => some ⟨node.name, node.code, .inl node.value⟩
  | some _ =>
    (node.value.asHandle.id?.bind unfold).map fun unfolding =>
      ⟨node.name, node.code, .inr unfolding⟩

/-- The unfolding of an object, if it has at most `depth` levels. -/
def unfoldWithin : (depth : Nat) → Memory → Nat → Option Unfolding
  | 0, _, _ => none
  | depth + 1, m, id =>
    match m.object? id with
    | none => none
    | some (.list l) =>
      (l.nodes.mapM fun n => m.nodes[n]?.bind (entryOf? (unfoldWithin depth m))).map .list
    | some object => some (.buffer object)

/-- The objects that the unfolding of an object meets, in the order in which it meets them. -/
def occurrencesWithin : (depth : Nat) → Memory → Nat → List Nat
  | 0, _, _ => []
  | depth + 1, m, id =>
    if m.Live id then id :: (m.holdings id).flatMap (occurrencesWithin depth m) else []

/-- The unfolding of an object.  A chain of lists has no more links than there are objects. -/
def unfolding? (m : Memory) (id : Nat) : Option Unfolding := unfoldWithin m.allocations.size m id

/-- The objects that the unfolding of an object meets. -/
def occurrences (m : Memory) (id : Nat) : List Nat := occurrencesWithin m.allocations.size m id

/-! ## Entries -/

/-- The entry of the node of a number. -/
def entryAt? (depth : Nat) (m : Memory) (n : Nat) : Option (Entry Unfolding) :=
  m.nodes[n]?.bind (entryOf? (unfoldWithin depth m))

/-- What the node of a number names. -/
def heldAt? (m : Memory) (n : Nat) : Option Nat := m.nodes[n]?.bind nestedIn

theorem holdings_of_list {m : Memory} {id : Nat} {l : ListObject}
    (h : m.object? id = some (.list l)) : m.holdings id = l.nodes.filterMap m.heldAt? :=
  holdings_of_object h

theorem heldAt?_of_node {m : Memory} {n : Nat} {node : Node} (h : m.nodes[n]? = some node) :
    m.heldAt? n = nestedIn node := by
  rw [heldAt?, h, Option.bind_some]

theorem mem_holdings_of_node {m : Memory} {id n held : Nat} {l : ListObject} {node : Node}
    (hl : m.object? id = some (.list l)) (hn : n ∈ l.nodes) (hnode : m.nodes[n]? = some node)
    (hheld : nestedIn node = some held) : held ∈ m.holdings id := by
  rw [holdings_of_list hl, List.mem_filterMap]
  exact ⟨n, hn, (heldAt?_of_node hnode).trans hheld⟩

/-- Where a node has an entry, it holds nothing, or something with an unfolding of its own. -/
theorem entryOf?_eq_some_iff {unfold : Nat → Option Unfolding} {node : Node}
    {entry : Entry Unfolding} :
    entryOf? unfold node = some entry ↔
      (nestedCategory? node.code = none ∧ entry = ⟨node.name, node.code, .inl node.value⟩) ∨
      ∃ held unfolding, nestedIn node = some held ∧ unfold held = some unfolding ∧
        entry = ⟨node.name, node.code, .inr unfolding⟩ := by
  unfold entryOf? nestedIn
  cases nestedCategory? node.code with
  | none => simp [eq_comm]
  | some category =>
    simp only [Option.map_eq_some_iff, Option.bind_eq_some_iff, Option.bind_some, reduceCtorEq,
      false_and, false_or]
    constructor
    · rintro ⟨unfolding, ⟨held, hheld, hunfolding⟩, rfl⟩
      exact ⟨held, unfolding, hheld, hunfolding, rfl⟩
    · rintro ⟨held, unfolding, hheld, hunfolding, rfl⟩
      exact ⟨unfolding, ⟨held, hheld, hunfolding⟩, rfl⟩

theorem mapM_cons_eq_some_iff {α β : Type} {f : α → Option β} {a : α} {as : List α}
    {bs : List β} :
    (a :: as).mapM f = some bs ↔
      ∃ b rest, f a = some b ∧ as.mapM f = some rest ∧ bs = b :: rest := by
  simp only [List.mapM_cons, Option.bind_eq_bind, Option.bind_eq_some_iff, Option.pure_def,
    Option.some.injEq]
  constructor
  · rintro ⟨b, hb, rest, hrest, rfl⟩
    exact ⟨b, rest, hb, hrest, rfl⟩
  · rintro ⟨b, rest, hb, hrest, rfl⟩
    exact ⟨b, hb, rest, hrest, rfl⟩

theorem mapM_eq_some_of_forall {α β : Type} {f g : α → Option β} {as : List α} {bs : List β}
    (hfg : ∀ a ∈ as, ∀ b, f a = some b → g a = some b) (h : as.mapM f = some bs) :
    as.mapM g = some bs := by
  induction as generalizing bs with
  | nil => simpa using h
  | cons a as ih =>
    obtain ⟨b, rest, hb, hrest, rfl⟩ := mapM_cons_eq_some_iff.mp h
    exact mapM_cons_eq_some_iff.mpr ⟨b, rest, hfg a (by simp) b hb,
      ih (fun a' ha' => hfg a' (by simp [ha'])) hrest, rfl⟩

theorem exists_of_mapM_eq_some {α β : Type} {f : α → Option β} {as : List α} {bs : List β}
    (h : as.mapM f = some bs) : ∀ a ∈ as, ∃ b, f a = some b := by
  induction as generalizing bs with
  | nil => simp
  | cons a as ih =>
    obtain ⟨b, rest, hb, hrest, rfl⟩ := mapM_cons_eq_some_iff.mp h
    intro a' ha'
    rcases List.mem_cons.mp ha' with rfl | hmem
    · exact ⟨b, hb⟩
    · exact ih hrest a' hmem

theorem mapM_eq_some_of_exists {α β : Type} {f : α → Option β} {as : List α}
    (h : ∀ a ∈ as, ∃ b, f a = some b) : ∃ bs, as.mapM f = some bs := by
  induction as with
  | nil => exact ⟨[], rfl⟩
  | cons a as ih =>
    obtain ⟨b, hb⟩ := h a (by simp)
    obtain ⟨rest, hrest⟩ := ih fun a' ha' => h a' (by simp [ha'])
    exact ⟨b :: rest, mapM_cons_eq_some_iff.mpr ⟨b, rest, hb, hrest, rfl⟩⟩

/-- A node that has an entry is there, and what it names has an unfolding. -/
theorem of_entryAt?_eq_some {depth : Nat} {m : Memory} {n : Nat} {entry : Entry Unfolding}
    (h : entryAt? depth m n = some entry) :
    (∃ node, m.nodes[n]? = some node) ∧
      ∀ held, m.heldAt? n = some held → ∃ unfolding, unfoldWithin depth m held = some unfolding := by
  obtain ⟨node, hnode, hentry⟩ := Option.bind_eq_some_iff.mp h
  refine ⟨⟨node, hnode⟩, fun held hheld => ?_⟩
  have hnested : nestedIn node = some held := (heldAt?_of_node hnode).symm.trans hheld
  rcases entryOf?_eq_some_iff.mp hentry with ⟨hplain, -⟩ | ⟨held', unfolding, hheld', hunfold, -⟩
  · simp [nestedIn, hplain] at hnested
  · obtain rfl : held' = held := by simpa [hheld'] using hnested
    exact ⟨unfolding, hunfold⟩

/-! ## One level of an unfolding -/

theorem unfoldWithin_succ (depth : Nat) (m : Memory) (id : Nat) :
    unfoldWithin (depth + 1) m id =
      match m.object? id with
      | none => none
      | some (.list l) => (l.nodes.mapM (entryAt? depth m)).map .list
      | some object => some (.buffer object) :=
  rfl

theorem unfoldWithin_succ_eq_some_iff {depth : Nat} {m : Memory} {id : Nat}
    {unfolding : Unfolding} :
    unfoldWithin (depth + 1) m id = some unfolding ↔
      (∃ l entries, m.object? id = some (.list l) ∧
        l.nodes.mapM (entryAt? depth m) = some entries ∧ unfolding = .list entries) ∨
      ∃ object, m.object? id = some object ∧ (∀ l, object ≠ .list l) ∧
        unfolding = .buffer object := by
  rw [unfoldWithin_succ]
  cases hobject : m.object? id with
  | none => simp
  | some object =>
    cases object with
    | list l =>
      have hfalse : ∀ o : Object, some (.list l) = some o → ¬ ∀ l', o ≠ .list l' := by
        rintro o ho hne
        exact hne l (Option.some.inj ho).symm
      constructor
      · intro h
        obtain ⟨entries, hentries, rfl⟩ := Option.map_eq_some_iff.mp h
        exact .inl ⟨l, entries, rfl, hentries, rfl⟩
      · rintro (⟨l', entries, hl, hentries, rfl⟩ | ⟨o, ho, hne, -⟩)
        · obtain rfl : l = l' := by simpa using hl
          exact Option.map_eq_some_iff.mpr ⟨entries, hentries, rfl⟩
        · exact absurd hne (hfalse o ho)
    | array a => simp [eq_comm]
    | image i => simp [eq_comm]

theorem holdings_of_buffer {m : Memory} {id : Nat} {object : Object}
    (hobject : m.object? id = some object) (hbuffer : ∀ l, object ≠ .list l) :
    m.holdings id = [] := by
  rw [holdings_of_object hobject]
  -- this is how `nested` is defined, once the case of a list is excluded
  cases object with
  | list l => exact absurd rfl (hbuffer l)
  | array a => rfl
  | image i => rfl

theorem live_of_unfoldWithin {depth : Nat} {m : Memory} {id : Nat} {unfolding : Unfolding}
    (h : unfoldWithin depth m id = some unfolding) : m.Live id := by
  cases depth with
  | zero => cases h
  | succ depth =>
    rcases unfoldWithin_succ_eq_some_iff.mp h with ⟨l, _, hobject, -⟩ | ⟨object, hobject, -⟩
    · exact Live.of_object hobject
    · exact Live.of_object hobject

theorem occurrencesWithin_succ {depth : Nat} {m : Memory} {id : Nat} (h : m.Live id) :
    occurrencesWithin (depth + 1) m id =
      id :: (m.holdings id).flatMap (occurrencesWithin depth m) := by
  rw [occurrencesWithin, if_pos h]

/-- What an unfolded object holds is unfolded one level below. -/
theorem held_unfolds {depth : Nat} {m : Memory} {id held : Nat} {unfolding : Unfolding}
    (h : unfoldWithin (depth + 1) m id = some unfolding) (hheld : held ∈ m.holdings id) :
    ∃ below, unfoldWithin depth m held = some below := by
  rcases unfoldWithin_succ_eq_some_iff.mp h with ⟨l, entries, hl, hentries, -⟩ | ⟨o, ho, hne, -⟩
  · rw [holdings_of_list hl] at hheld
    obtain ⟨n, hn, hnheld⟩ := List.mem_filterMap.mp hheld
    obtain ⟨entry, hentry⟩ := exists_of_mapM_eq_some hentries n hn
    exact (of_entryAt?_eq_some hentry).2 held hnheld
  · simp [holdings_of_buffer ho hne] at hheld

/-! ## What an unfolding depends on -/

/-- Every node of one memory is a node of another, with the same number. -/
def NodesIn (m m' : Memory) : Prop :=
  ∀ (n : Nat) (node : Node), m.nodes[n]? = some node → m'.nodes[n]? = some node

/-- An unfolding and its occurrences are the same in another memory and at a greater depth. -/
def Transfers (depth : Nat) (m : Memory) (depth' : Nat) (m' : Memory) (id : Nat) : Prop :=
  ∀ unfolding, unfoldWithin depth m id = some unfolding →
    (∀ j ∈ occurrencesWithin depth m id, m'.object? j = m.object? j) →
    unfoldWithin depth' m' id = some unfolding ∧
      occurrencesWithin depth' m' id = occurrencesWithin depth m id

/-- What nodes hold is the same where the nodes are. -/
theorem filterMap_heldAt?_eq {depth : Nat} {m m' : Memory} (hnodes : m.NodesIn m') {ns : List Nat}
    {entries : List (Entry Unfolding)} (hentries : ns.mapM (entryAt? depth m) = some entries) :
    ns.filterMap m'.heldAt? = ns.filterMap m.heldAt? := by
  apply List.filterMap_congr
  intro n hn
  obtain ⟨entry, hentry⟩ := exists_of_mapM_eq_some hentries n hn
  obtain ⟨⟨node, hnode⟩, -⟩ := of_entryAt?_eq_some hentry
  rw [heldAt?_of_node hnode, heldAt?_of_node (hnodes n node hnode)]

/-- If the unfoldings of what nodes hold transfer, the entries of the nodes do. -/
theorem entries_frame {depth depth' : Nat} {m m' : Memory} (hnodes : m.NodesIn m')
    (htransfers : ∀ id, Transfers depth m depth' m' id) {ns : List Nat}
    {entries : List (Entry Unfolding)} (hentries : ns.mapM (entryAt? depth m) = some entries)
    (hobjects : ∀ j ∈ (ns.filterMap m.heldAt?).flatMap (occurrencesWithin depth m),
      m'.object? j = m.object? j) :
    ns.mapM (entryAt? depth' m') = some entries ∧
      (ns.filterMap m'.heldAt?).flatMap (occurrencesWithin depth' m') =
        (ns.filterMap m.heldAt?).flatMap (occurrencesWithin depth m) := by
  have hbelow : ∀ held ∈ ns.filterMap m.heldAt?, ∀ unfolding,
      unfoldWithin depth m held = some unfolding →
      unfoldWithin depth' m' held = some unfolding ∧
        occurrencesWithin depth' m' held = occurrencesWithin depth m held := by
    intro held hheld unfolding hunfold
    exact htransfers held unfolding hunfold fun j hj =>
      hobjects j (List.mem_flatMap.mpr ⟨held, hheld, hj⟩)
  constructor
  · refine mapM_eq_some_of_forall (fun n hn entry hentry => ?_) hentries
    obtain ⟨node, hnode, hentry⟩ := Option.bind_eq_some_iff.mp hentry
    rw [entryAt?, hnodes n node hnode, Option.bind_some]
    rcases entryOf?_eq_some_iff.mp hentry with hplain | ⟨held, unfolding, hheld, hunfold, rfl⟩
    · exact entryOf?_eq_some_iff.mpr (.inl hplain)
    · have hmem : held ∈ ns.filterMap m.heldAt? :=
        List.mem_filterMap.mpr ⟨n, hn, (heldAt?_of_node hnode).trans hheld⟩
      exact entryOf?_eq_some_iff.mpr
        (.inr ⟨held, unfolding, hheld, (hbelow held hmem unfolding hunfold).1, rfl⟩)
  · rw [filterMap_heldAt?_eq hnodes hentries]
    apply List.flatMap_congr
    intro held hheld
    obtain ⟨n, hn, hnheld⟩ := List.mem_filterMap.mp hheld
    obtain ⟨entry, hentry⟩ := exists_of_mapM_eq_some hentries n hn
    obtain ⟨unfolding, hunfold⟩ := (of_entryAt?_eq_some hentry).2 held hnheld
    exact (hbelow held hheld unfolding hunfold).2

/-- An unfolding depends on the objects that occur in it and on the nodes, and more levels than it
has do not change it. -/
theorem unfoldWithin_frame {m m' : Memory} (hnodes : m.NodesIn m') {depth depth' : Nat}
    (hdepth : depth ≤ depth') (id : Nat) : Transfers depth m depth' m' id := by
  induction depth generalizing depth' id with
  | zero =>
    intro unfolding hunfold
    cases hunfold
  | succ depth ih =>
    intro unfolding hunfold hobjects
    obtain ⟨depth', rfl⟩ : ∃ below, depth' = below + 1 := ⟨depth' - 1, by omega⟩
    have hlive : m.Live id := live_of_unfoldWithin hunfold
    -- the object itself is the first that occurs, so it is the same in both memories
    rw [occurrencesWithin_succ hlive] at hobjects ⊢
    have hself : m'.object? id = m.object? id := hobjects id (by simp)
    have hlive' : m'.Live id := by
      rw [Live, hself]
      exact hlive
    rw [occurrencesWithin_succ hlive']
    rcases unfoldWithin_succ_eq_some_iff.mp hunfold with
      ⟨l, entries, hl, hentries, rfl⟩ | ⟨object, hobject, hbuffer, rfl⟩
    · have hl' : m'.object? id = some (.list l) := hself.trans hl
      rw [holdings_of_list hl] at hobjects ⊢
      -- everything else that occurs lies below, where the induction hypothesis speaks
      obtain ⟨hentries', hoccurrences⟩ := entries_frame hnodes (ih (Nat.le_of_succ_le_succ hdepth))
        hentries fun j hj => hobjects j (List.mem_cons_of_mem _ hj)
      rw [holdings_of_list hl', hoccurrences]
      exact ⟨unfoldWithin_succ_eq_some_iff.mpr (.inl ⟨l, entries, hl', hentries', rfl⟩), rfl⟩
    · have hobject' : m'.object? id = some object := hself.trans hobject
      rw [holdings_of_buffer hobject hbuffer, holdings_of_buffer hobject' hbuffer]
      exact ⟨unfoldWithin_succ_eq_some_iff.mpr (.inr ⟨object, hobject', hbuffer, rfl⟩), rfl⟩

/-! ## What occurs can be reached -/

theorem reaches_of_mem_occurrencesWithin {depth : Nat} {m : Memory} {root id : Nat}
    (h : id ∈ occurrencesWithin depth m root) : m.Reaches root id := by
  induction depth generalizing root with
  | zero => simp [occurrencesWithin] at h
  | succ depth ih =>
    rw [occurrencesWithin] at h
    split at h
    case isFalse => simp at h
    case isTrue hlive =>
      rcases List.mem_cons.mp h with rfl | hbelow
      · exact .root hlive
      · obtain ⟨held, hheld, hid⟩ := List.mem_flatMap.mp hbelow
        exact .head hheld (ih hid)

private theorem mem_occurrencesWithin_self {depth : Nat} {m : Memory} {id : Nat}
    {unfolding : Unfolding} (h : unfoldWithin depth m id = some unfolding) :
    id ∈ occurrencesWithin depth m id := by
  cases depth with
  | zero => cases h
  | succ depth => simp [occurrencesWithin_succ (live_of_unfoldWithin h)]

/-- With an object there occurs everything that the object holds. -/
private theorem mem_occurrencesWithin_of_holds {depth : Nat} {m : Memory} {root a b : Nat}
    {unfolding : Unfolding} (h : unfoldWithin depth m root = some unfolding)
    (ha : a ∈ occurrencesWithin depth m root) (hb : b ∈ m.holdings a) :
    b ∈ occurrencesWithin depth m root := by
  induction depth generalizing root unfolding with
  | zero => cases h
  | succ depth ih =>
    rw [occurrencesWithin_succ (live_of_unfoldWithin h)] at ha ⊢
    refine List.mem_cons_of_mem _ (List.mem_flatMap.mpr ?_)
    rcases List.mem_cons.mp ha with rfl | hbelow
    · obtain ⟨below, hunfold⟩ := held_unfolds h hb
      exact ⟨b, hb, mem_occurrencesWithin_self hunfold⟩
    -- the holder occurs below something, and there the held object does, too
    · obtain ⟨held, hheld, ha⟩ := List.mem_flatMap.mp hbelow
      obtain ⟨below, hunfold⟩ := held_unfolds h hheld
      exact ⟨held, hheld, ih hunfold ha⟩

/-- In an unfolding there occurs exactly what can be reached. -/
theorem mem_occurrencesWithin_iff {depth : Nat} {m : Memory} {root id : Nat}
    {unfolding : Unfolding} (h : unfoldWithin depth m root = some unfolding) :
    id ∈ occurrencesWithin depth m root ↔ m.Reaches root id := by
  constructor
  · exact reaches_of_mem_occurrencesWithin
  · intro hreach
    -- what occurs is closed under holding, and every path starts at the root
    induction hreach with
    | root _ => exact mem_occurrencesWithin_self h
    | step _ holds _ ih => exact mem_occurrencesWithin_of_holds h ih holds

/-! ## When there is an unfolding -/

/-- Every node that an object reaches is there, and if it is to hold an object, holds a live one. -/
def Intact (m : Memory) (root : Nat) : Prop :=
  ∀ id l, m.Reaches root id → m.object? id = some (.list l) → ∀ n ∈ l.nodes,
    ∃ node, m.nodes[n]? = some node ∧
      (nestedCategory? node.code ≠ none → ∃ held, nestedIn node = some held ∧ m.Live held)

/-- Nothing that an object reaches holds something that leads back to it. -/
def Acyclic (m : Memory) (root : Nat) : Prop :=
  ∀ id, m.Reaches root id → ∀ held ∈ m.holdings id, ¬ m.Reaches held id

/-- Lists that hold only what was issued before them never lead back to themselves. -/
theorem acyclic_of_lt {m : Memory}
    (hlt : ∀ id < m.allocations.size, ∀ held ∈ m.holdings id, held < id) (root : Nat) :
    m.Acyclic root := by
  have hle : ∀ {a b}, m.Reaches a b → b ≤ a := by
    intro a b hreach
    induction hreach with
    | root _ => exact le_rfl
    | step _ holds _ ih =>
      exact (hlt _ (live_of_mem_holdings holds).lt_size _ holds).le.trans ih
  intro id hreach held hheld hback
  have hless : held < id := hlt id hreach.live.lt_size held hheld
  have hleast : id ≤ held := hle hback
  omega

/-- An object unfolds if all its nodes are there and what they hold unfolds one level below. -/
private theorem exists_unfoldWithin_succ {depth : Nat} {m : Memory} {id : Nat} (hlive : m.Live id)
    (hnodes : ∀ l, m.object? id = some (.list l) → ∀ n ∈ l.nodes,
      ∃ node, m.nodes[n]? = some node ∧ (nestedCategory? node.code ≠ none →
        ∃ held below, nestedIn node = some held ∧ unfoldWithin depth m held = some below)) :
    ∃ unfolding, unfoldWithin (depth + 1) m id = some unfolding := by
  obtain ⟨object, hobject⟩ := live_iff.mp hlive
  rcases list_or_buffer object with ⟨l, rfl⟩ | hbuffer
  · have hentries : ∀ n ∈ l.nodes, ∃ entry, entryAt? depth m n = some entry := by
      intro n hn
      obtain ⟨node, hnode, hnested⟩ := hnodes l hobject n hn
      rw [entryAt?, hnode, Option.bind_some]
      by_cases hplain : nestedCategory? node.code = none
      · exact ⟨_, entryOf?_eq_some_iff.mpr (.inl ⟨hplain, rfl⟩)⟩
      -- a node that holds an object has an entry because the object unfolds
      · obtain ⟨held, below, hheld, hbelow⟩ := hnested hplain
        exact ⟨_, entryOf?_eq_some_iff.mpr (.inr ⟨held, below, hheld, hbelow, rfl⟩)⟩
    obtain ⟨entries, hentries⟩ := mapM_eq_some_of_exists hentries
    exact ⟨_, unfoldWithin_succ_eq_some_iff.mpr (.inl ⟨l, entries, hobject, hentries, rfl⟩)⟩
  · exact ⟨_, unfoldWithin_succ_eq_some_iff.mpr (.inr ⟨object, hobject, hbuffer, rfl⟩)⟩

/-- A path of different objects that leads from an object down to another. -/
structure Descent (m : Memory) (root : Nat) (path : List Nat) (id : Nat) : Prop where
  reach : m.Reaches root id
  issued : ∀ p ∈ id :: path, p < m.allocations.size
  leads : ∀ p ∈ path, m.Reaches root p ∧ ∃ held ∈ m.holdings p, m.Reaches held id
  nodup : (id :: path).Nodup

/-- On an acyclic path no object is met twice. -/
theorem Descent.step {m : Memory} {root : Nat} {path : List Nat} {id held : Nat}
    (hacyclic : m.Acyclic root) (descent : Descent m root path id) (hheld : held ∈ m.holdings id)
    (hlive : m.Live held) : Descent m root (id :: path) held := by
  have hleads : ∀ p ∈ id :: path,
      m.Reaches root p ∧ ∃ first ∈ m.holdings p, m.Reaches first held := by
    intro p hp
    rcases List.mem_cons.mp hp with rfl | hp
    · exact ⟨descent.reach, held, hheld, .root hlive⟩
    · obtain ⟨hreach, first, hfirst, hthere⟩ := descent.leads p hp
      exact ⟨hreach, first, hfirst, .step hthere hheld hlive⟩
  -- what comes next would otherwise hold something that leads back to it
  have hnew : held ∉ id :: path := by
    intro hmem
    obtain ⟨hreach, first, hfirst, hback⟩ := hleads held hmem
    exact hacyclic held hreach first hfirst hback
  refine ⟨.step descent.reach hheld hlive, fun p hp => ?_, hleads,
    List.nodup_cons.mpr ⟨hnew, descent.nodup⟩⟩
  rcases List.mem_cons.mp hp with rfl | hp
  · exact hlive.lt_size
  · exact descent.issued p hp

/-- A path of different objects is shorter than the table of objects. -/
theorem Descent.length_lt {m : Memory} {root : Nat} {path : List Nat} {id : Nat}
    (descent : Descent m root path id) : path.length < m.allocations.size := by
  have hsubset : id :: path ⊆ List.range m.allocations.size := fun p hp =>
    List.mem_range.mpr (descent.issued p hp)
  simpa using (descent.nodup.subperm hsubset).length_le

private theorem exists_unfoldWithin_below {m : Memory} {root : Nat} (hintact : m.Intact root)
    (hacyclic : m.Acyclic root) (depth : Nat) (path : List Nat) {id : Nat}
    (descent : Descent m root path id) (hdepth : m.allocations.size ≤ depth + path.length) :
    ∃ unfolding, unfoldWithin depth m id = some unfolding := by
  -- the levels that are left and the length of the path together stay as many as the objects, so
  -- the levels do not run out before the objects do
  induction depth generalizing path id with
  | zero =>
    have := descent.length_lt
    omega
  | succ depth ih =>
    apply exists_unfoldWithin_succ descent.reach.live
    intro l hl n hn
    obtain ⟨node, hnode, hnested⟩ := hintact id l descent.reach hl n hn
    refine ⟨node, hnode, fun hcode => ?_⟩
    obtain ⟨held, hheld, hlive⟩ := hnested hcode
    have hmem : held ∈ m.holdings id := mem_holdings_of_node hl hn hnode hheld
    obtain ⟨below, hbelow⟩ := ih (id :: path) (descent.step hacyclic hmem hlive)
      (by rw [List.length_cons]; omega)
    exact ⟨held, below, hheld, hbelow⟩

/-- A live object whose nesting is intact and acyclic has an unfolding. -/
theorem exists_unfolding {m : Memory} {root : Nat} (hlive : m.Live root) (hintact : m.Intact root)
    (hacyclic : m.Acyclic root) : ∃ unfolding, m.unfolding? root = some unfolding := by
  refine exists_unfoldWithin_below hintact hacyclic m.allocations.size [] ⟨.root hlive, ?_, ?_, ?_⟩
    (by simp)
  · simpa using hlive.lt_size
  · simp
  · simp

end Memory

end Custody
