import Custody.Proofs.Text.Utf8
import Custody.Proofs.DataList.Append

/-!
# Appending is atomic

An append ends in one of two ways.  Either one node is at the end of the list and nothing else has
changed (`Memory.Appended`), or the append has failed and the memory is as it was, except that a
container that was to be appended is released once.  The checks of the library come in another order
in each way to append; none of them leaves anything behind.

- `Container.addNode_eq_ok_iff`: when a list accepts a node.
- `Container.append_is_atomic`: the three ways to append, and where they agree.
-/

namespace Custody

open SessionM Memory Text

namespace Memory

variable {m : Memory} {list : Nat} {kind : ArgumentKind}

/-! ## What a list may store -/

theorem ofCode?_code (kind : ArgumentKind) : ArgumentKind.ofCode? kind.code = some kind := by
  cases kind <;> rfl

/-- Under the kind of a category a live object of the category is stored, but no list in itself. -/
theorem storable_of_category {c : Category} (hc : kind.category? = some c) (value : Payload) :
    m.storable list kind.code value =
      ((m.find? value.asHandle).any (·.category == c)
        && !(c == .list && value.asHandle.id? == some list)) := by
  unfold storable
  rw [ofCode?_code]
  cases kind <;> cases hc <;> rfl

theorem not_storable_of_no_category (hkind : kind.isPrimitive = false)
    (hc : kind.category? = none) (value : Payload) : m.storable list kind.code value = false := by
  unfold storable
  rw [ofCode?_code]
  cases kind
  case boolean | integer | real | complex | text => cases hkind
  case tensor | numericArray | image | dataList => cases hc
  case undefined | sparseArray => rfl

/-- A handle is stored under the kind of the live object that it names, and not in that object. -/
theorem storable_handle {h : Handle} (hkind : kind.isPrimitive = false) :
    m.storable list kind.code (.handle h) = true ↔
      ∃ c object, kind.category? = some c ∧ m.find? h = some object ∧ object.category = c ∧
        (c = .list → h ≠ .ofId list) := by
  cases hc : kind.category? with
  | none => simp [not_storable_of_no_category hkind hc]
  | some c =>
    have hself : (c == .list && h.id? == some list) = false ↔ (c = .list → h ≠ .ofId list) := by
      rw [ne_eq, ← Handle.id?_eq_some_iff, Bool.eq_false_iff, ne_eq, Bool.and_eq_true, beq_iff_eq,
        beq_iff_eq, not_and]
    rw [storable_of_category hc, Bool.and_eq_true, Bool.not_eq_true', Option.any_eq_true]
    show _ ∧ (c == .list && h.id? == some list) = false ↔ _
    rw [hself]
    constructor
    · rintro ⟨⟨object, hfound, hcategory⟩, hother⟩
      exact ⟨c, object, rfl, hfound, by simpa using hcategory, hother⟩
    · rintro ⟨c', object, hc', hfound, hcategory, hother⟩
      obtain rfl : c = c' := Option.some.inj hc'
      exact ⟨⟨object, hfound, by simpa using hcategory⟩, hother⟩

/-- Nothing is stored under a kind that is neither that of plain values nor that of objects. -/
theorem known_of_storable {value : Payload} (h : m.storable list kind.code value = true) :
    (kind.isPrimitive || kind.isWrapper) = true := by
  cases kind
  case undefined => simp [storable, ofCode?_code, ArgumentKind.category?] at h
  all_goals rfl

/-! ## One node more -/

/-- The place of a live object is known by the object and by its share count. -/
private theorem getElem?_eq_of_object?_eq {m m' : Memory} {id : Nat} (hlive : m.Live id)
    (hobject : m.object? id = m'.object? id)
    (hshares : m.shares (.ofId id) = m'.shares (.ofId id)) :
    m.allocations[id]? = m'.allocations[id]? := by
  rw [shares_ofId, shares_ofId] at hshares
  unfold Live at hlive
  unfold object? at hlive hobject
  cases hplace : m.allocations[id]? with
  | none => simp [hplace] at hlive
  | some place =>
    cases hplace' : m'.allocations[id]? with
    | none => simp_all
    | some place' =>
      simp only [hplace, hplace', Option.bind_some, Option.map_some, Option.getD_some]
        at hobject hshares
      cases place
      cases place'
      simp_all

/-- One node was put at the end of a live list, and nothing else has changed. -/
structure Appended (m : Memory) (node : Node) (m' : Memory) : Prop where
  tail : ∃ l, m.object? node.list = some (.list l) ∧
    m'.object? node.list = some (.list ⟨l.nodes ++ [m.nodes.size]⟩)
  table : m'.nodes = m.nodes.push node
  others : ∀ id, id ≠ node.list → m'.allocations[id]? = m.allocations[id]?
  shares : ∀ h, m'.shares h = m.shares h
  size : m'.allocations.size = m.allocations.size
  /-- Counters, symbols and armed failures are the same. -/
  elsewhere : { m' with allocations := m.allocations, nodes := m.nodes } = m

theorem Appended.pushNode {node : Node} {l : ListObject}
    (hl : m.object? node.list = some (.list l)) : m.Appended node (m.pushNode node) where
  tail := ⟨l, hl, by rw [object?_pushNode, if_pos rfl, hl]; rfl⟩
  table := nodes_pushNode m node
  others id hid := by rw [getElem?_pushNode, if_neg (Ne.symm hid)]
  shares h := by
    cases hid : h.id? with
    | none => simp only [Memory.shares, hid, Option.bind_none]
    | some id =>
      obtain rfl := Handle.id?_eq_some_iff.mp hid
      rw [shares_ofId, shares_ofId, getElem?_pushNode]
      split
      · cases m.allocations[id]? <;> rfl
      · rfl
  size := size_pushNode m node
  elsewhere := rfl

/-- Nothing else can be the memory after one node more. -/
theorem Appended.eq_pushNode {node : Node} {m' : Memory} (h : m.Appended node m') :
    m' = m.pushNode node := by
  obtain ⟨l, hl, hl'⟩ := h.tail
  have hpushed := Appended.pushNode hl
  -- the place of the list is known by its object and by its share count
  have hobject : m'.object? node.list = (m.pushNode node).object? node.list := by
    rw [hl', object?_pushNode, if_pos rfl, hl]
    rfl
  have hshares : m'.shares (.ofId node.list) = (m.pushNode node).shares (.ofId node.list) := by
    rw [h.shares, hpushed.shares]
  have hallocations : m'.allocations = (m.pushNode node).allocations := by
    apply Array.ext_getElem?
    intro id
    by_cases hid : id = node.list
    · rw [← hid] at hobject hshares hl'
      exact getElem?_eq_of_object?_eq (by rw [Live, hl']; rfl) hobject hshares
    · rw [h.others id hid, hpushed.others id hid]
  calc
    m' = { { m' with allocations := m.allocations, nodes := m.nodes } with
          allocations := m'.allocations, nodes := m'.nodes } := rfl
    _ = { m with
          allocations := (m.pushNode node).allocations, nodes := (m.pushNode node).nodes } := by
      rw [h.elsewhere, hallocations, h.table, hpushed.table]
    _ = m.pushNode node := rfl

/-- A live list appends what it may store. -/
theorem addNode_of_list {l : ListObject} (hl : m.object? list = some (.list l))
    (name : Option Bytes) (code : Int) (value : Payload) :
    m.addNode list name code value =
      if m.storable list code value = true then (true, m.pushNode ⟨list, name, code, value⟩)
      else (false, m) := by
  rw [addNode, hl]

/-- Nothing but a live list appends anything. -/
theorem addNode_of_no_list (hl : ∀ l, m.object? list ≠ some (.list l)) (name : Option Bytes)
    (code : Int) (value : Payload) : m.addNode list name code value = (false, m) := by
  unfold addNode
  split
  case h_1 l hobject => exact absurd hobject (hl l)
  case h_2 => rfl

end Memory

/-! ## What is offered to a list -/

namespace Item

/-- The kind under which an item is stored. -/
def kind : Item → ArgumentKind
  | plain value => value.kind
  | container (c := c) _ => c.argumentKind

/-- What is stored of an item. -/
def payload : Item → Except Failure Payload
  | plain value => value.payload
  | container held => .ok (.handle held.handle)

/-- A container that comes from the reference host. -/
def Fit : Item → Prop
  | plain _ => True
  | container held => held.Fit

/-- The memory after an item was refused: a container is freed once if the library owns it, gives up
one share if it is shared, and otherwise stays as it is. -/
def refusedIn : Item → Memory → Memory
  | plain _, m => m
  | container held, m =>
    if held.isEmpty then m
    else
      match held.owner with
      | .library => m.free held.handle
      | .shared => m.disown held.handle
      | .host => m

theorem refusedIn_container {c : Category} {held : Container c} (hfit : held.Fit) (m : Memory) :
    refusedIn (.container held) m = held.releaseIn m := by
  unfold refusedIn Container.releaseIn
  simp only
  split
  · rfl
  · cases howner : held.owner with
    | host => rfl
    | library =>
      rw [hfit.host]
      rfl
    | shared =>
      -- only buffers are shared, so there is a share to give up
      have hshareable := hfit.shareable howner
      cases c with
      | list => cases hshareable
      | buffer b =>
        show m.disown held.handle = held.host.disown b held.handle m
        rw [hfit.host]
        rfl

end Item

/-- What is stored of an item that is given by its handle. -/
def RawItem.payload : RawItem → Except Failure Payload
  | plain value => value.payload
  | array h | image h | list h => .ok (.handle h)

namespace Container

variable {k : Container .list} {name : Option String} {kind : ArgumentKind} {s : Session}

/-! ## When a list accepts a node -/

/-- A list accepts what it may store. -/
theorem addNode_of_storable {list : Nat} {l : ListObject} {bytes : Option Bytes} {value : Payload}
    (hhost : k.host = .reference) (hlist : k.handle = .ofId list)
    (hl : s.memory.object? list = some (.list l)) (hname : name.mapM encodeText = .ok bytes)
    (hstorable : s.memory.storable list kind.code value = true) :
    k.addNode name kind value s =
      .ok () { s with memory := s.memory.pushNode ⟨list, bytes, kind.code, value⟩ } := by
  have hrequire : k.require = .ok (.ofId list) := by
    rw [require, isEmpty, hlist]
    rfl
  have hadded : k.host.addNode (.ofId list) bytes kind.code value s.memory =
      (true, s.memory.pushNode ⟨list, bytes, kind.code, value⟩) := by
    rw [hhost]
    simp [Host.reference, addNode_of_list hl, hstorable]
  unfold addNode
  rw [hrequire, ofExcept_ok, pure_bind, if_pos (known_of_storable hstorable), hname, ofExcept_ok,
    pure_bind, bind_of_ok (onMemory_apply _ s), hadded]
  rfl

/-- A list appends a node that it may store, or the append fails and changes nothing. -/
theorem addNode_accepts_or_fails (hhost : k.host = .reference) (name : Option String)
    (kind : ArgumentKind) (value : Payload) (s : Session) :
    (∃ list l bytes, k.handle = .ofId list ∧ s.memory.object? list = some (.list l) ∧
        name.mapM encodeText = .ok bytes ∧ s.memory.storable list kind.code value = true) ∨
      ∃ cause, k.addNode name kind value s = .error (.failure cause) s := by
  unfold addNode
  -- the checks of the library
  cases hrequire : k.require with
  | error cause => exact .inr ⟨cause, rfl⟩
  | ok h =>
    obtain rfl : k.handle = h := by
      unfold require at hrequire
      split at hrequire
      · cases hrequire
      · exact Except.ok.inj hrequire
    rw [ofExcept_ok, pure_bind]
    split
    case isFalse => exact .inr ⟨_, rfl⟩
    case isTrue =>
      cases hname : name.mapM encodeText with
      | error cause => exact .inr ⟨cause, rfl⟩
      | ok bytes =>
        rw [ofExcept_ok, pure_bind, bind_of_ok (onMemory_apply _ s), hhost]
        -- the check of the host
        cases hid : k.handle.id? with
        | none => exact .inr ⟨_, by simp only [Host.reference, hid]; rfl⟩
        | some list =>
          simp only [Host.reference, hid]
          by_cases hobject : ∃ l, s.memory.object? list = some (.list l)
          · obtain ⟨l, hl⟩ := hobject
            rw [addNode_of_list hl]
            split
            case isTrue hstorable =>
              exact .inl ⟨list, l, bytes, Handle.id?_eq_some_iff.mp hid, hl, rfl, hstorable⟩
            case isFalse => exact .inr ⟨_, rfl⟩
          · rw [addNode_of_no_list (not_exists.mp hobject)]
            exact .inr ⟨_, rfl⟩

/-- When a list accepts a node. -/
theorem addNode_eq_ok_iff (hhost : k.host = .reference) {value : Payload} :
    (∃ s', k.addNode name kind value s = .ok () s') ↔
      ∃ list l, k.handle = .ofId list ∧ s.memory.object? list = some (.list l) ∧
        (∀ text ∈ name, Crosses text) ∧ s.memory.storable list kind.code value = true := by
  constructor
  · rintro ⟨s', hok⟩
    rcases addNode_accepts_or_fails hhost name kind value s with
      ⟨list, l, bytes, hlist, hl, hname, hstorable⟩ | ⟨cause, hfailed⟩
    · exact ⟨list, l, hlist, hl, (mapM_encodeText_eq_ok_iff.mp hname).1, hstorable⟩
    · rw [hfailed] at hok
      cases hok
  · rintro ⟨list, l, hlist, hl, hname, hstorable⟩
    exact ⟨_, addNode_of_storable hhost hlist hl
      (mapM_encodeText_eq_ok_iff.mpr ⟨hname, rfl⟩) hstorable⟩

/-! ## How an append ends -/

/-- How an append ends: a node that may be stored is at the end of the list, or the memory is
`refused`. -/
inductive Appends (k : Container .list) (name : Option String) (kind : ArgumentKind)
    (stored : Except Failure Payload) (s : Session) (refused : Memory) :
    EStateM.Result Stop Session Unit → Prop where
  | accepted {list : Nat} {bytes : Option Bytes} {value : Payload} {m : Memory}
    (hlist : k.handle = .ofId list) (hname : name.mapM encodeText = .ok bytes)
    (hstored : stored = .ok value) (hstorable : s.memory.storable list kind.code value = true)
    (h : s.memory.Appended ⟨list, bytes, kind.code, value⟩ m) :
    Appends k name kind stored s refused (.ok () { s with memory := m })
  | refused (cause : Failure) :
    Appends k name kind stored s refused
      (.error (.failure cause) { s with memory := refused })

theorem appends_addNode (hhost : k.host = .reference) (name : Option String)
    (kind : ArgumentKind) (value : Payload) (s : Session) :
    Appends k name kind (.ok value) s s.memory (k.addNode name kind value s) := by
  rcases addNode_accepts_or_fails hhost name kind value s with
    ⟨list, l, bytes, hlist, hl, hname, hstorable⟩ | ⟨cause, hfailed⟩
  · rw [addNode_of_storable hhost hlist hl hname hstorable]
    have htail : s.memory.object? (Node.mk list bytes kind.code value).list = some (.list l) := hl
    exact .accepted hlist hname rfl hstorable (.pushNode htail)
  · rw [hfailed]
    exact .refused cause

theorem appends_addPlain (hhost : k.host = .reference) (name : Option String) (value : Plain)
    (s : Session) :
    Appends k name value.kind value.payload s s.memory (k.addPlain name value s) := by
  unfold addPlain
  cases value.payload with
  | error cause => exact .refused cause
  | ok stored => exact appends_addNode hhost name value.kind stored s

theorem appends_addHandle (hhost : k.host = .reference) (name : Option String)
    (kind : ArgumentKind) (h : Handle) (s : Session) :
    Appends k name kind (.ok (.handle h)) s s.memory (k.addHandle name kind h s) := by
  unfold addHandle
  split
  · exact .refused .nullNode
  · exact appends_addNode hhost name kind (.handle h) s

/-! ## The three ways to append -/

theorem appends_push (hhost : k.host = .reference) (name : Option String) {item : Item}
    (hfit : item.Fit) (s : Session) :
    Appends k name item.kind item.payload s (item.refusedIn s.memory) (k.push name item s) := by
  cases item with
  | plain value => exact appends_addPlain hhost name value s
  | @container c held =>
    rw [Item.refusedIn_container hfit]
    have happends := appends_addHandle hhost name c.argumentKind held.handle s
    generalize hresult : k.addHandle name c.argumentKind held.handle s = result at happends
    cases happends with
    | @accepted list bytes value m hlist hname hstored hstorable h =>
      have hpushed : k.push name (.container held) s = .ok () { s with memory := m } :=
        bind_of_ok (attempt_of_ok hresult)
      rw [hpushed]
      exact .accepted hlist hname hstored hstorable h
    | refused cause =>
      -- the container is dropped where the list has refused it
      have hpushed : k.push name (.container held) s =
          .error (.failure cause) { s with memory := held.releaseIn s.memory } :=
        bind_of_ok (attempt_of_failure hresult)
      rw [hpushed]
      exact .refused cause

theorem appends_pushRaw (hhost : k.host = .reference) (name : Option String) {item : RawItem}
    (hkind : item.kind? = some kind) (s : Session) :
    Appends k name kind item.payload s s.memory (k.pushRaw name item s) := by
  cases item with
  | plain value =>
    obtain rfl : value.kind = kind := by simpa [RawItem.kind?] using hkind
    exact appends_addPlain hhost name value s
  | array h => simp [RawItem.kind?] at hkind
  | image h =>
    obtain rfl : ArgumentKind.image = kind := by simpa [RawItem.kind?] using hkind
    exact appends_addHandle hhost name .image h s
  | list h =>
    obtain rfl : ArgumentKind.dataList = kind := by simpa [RawItem.kind?] using hkind
    exact appends_addHandle hhost name .dataList h s

theorem pushAs_of_kind {item : RawItem} (hkind : item.kind? = some kind) :
    k.pushAs name kind item = k.pushRaw name item := by
  cases item with
  | array h => simp [RawItem.kind?] at hkind
  | plain | image | list => exact if_pos hkind

theorem pushAs_of_other_kind {item : RawItem} {own : ArgumentKind} (hkind : item.kind? = some own)
    (hother : kind ≠ own) (s : Session) :
    k.pushAs name kind item s = .error (.failure (.unstorable kind.code)) s := by
  have hne : item.kind? ≠ some kind := by
    rw [hkind]
    exact fun h => hother (Option.some.inj h).symm
  cases item with
  | array h => simp [RawItem.kind?] at hkind
  | plain | image | list =>
    show (if _ then _ else fail _ : SessionM Unit) s = _
    rw [if_neg hne]
    rfl

theorem appends_pushAs (hhost : k.host = .reference) (name : Option String) (kind : ArgumentKind)
    (item : RawItem) (s : Session) :
    Appends k name kind item.payload s s.memory (k.pushAs name kind item s) := by
  cases hkind : item.kind? with
  | none =>
    -- an array goes under any kind of object
    cases item with
    | plain | image | list => simp [RawItem.kind?] at hkind
    | array h =>
      unfold pushAs
      split
      · exact appends_addHandle hhost name kind h s
      · exact .refused (.unstorable kind.code)
  | some own =>
    by_cases hown : kind = own
    · subst hown
      rw [pushAs_of_kind hkind]
      exact appends_pushRaw hhost name hkind s
    · rw [pushAs_of_other_kind hkind hown]
      exact .refused (.unstorable kind.code)

/-- When an array is appended under a kind. -/
theorem pushAs_array_eq_ok_iff (hhost : k.host = .reference) {h : Handle}
    (hnull : h.isNull = false) {list : Nat} {l : ListObject} (hlist : k.handle = .ofId list)
    (hl : s.memory.object? list = some (.list l)) :
    (∃ s', k.pushAs name kind (.array h) s = .ok () s') ↔
      (∀ text ∈ name, Crosses text) ∧ ∃ c object, kind.category? = some c ∧
        s.memory.find? h = some object ∧ object.category = c ∧ (c = .list → h ≠ k.handle) := by
  unfold pushAs
  by_cases hwrapper : kind.isWrapper = true
  · have hprimitive : kind.isPrimitive = false := by
      cases kind <;> first | rfl | cases hwrapper
    simp only [hwrapper, if_true, addHandle, hnull, Bool.false_eq_true, if_false]
    rw [addNode_eq_ok_iff hhost]
    constructor
    · rintro ⟨other, l', hother, -, hname, hstorable⟩
      rw [hother]
      exact ⟨hname, (storable_handle hprimitive).mp hstorable⟩
    · rintro ⟨hname, hobject⟩
      rw [hlist] at hobject
      exact ⟨list, l, hlist, hl, hname, (storable_handle hprimitive).mpr hobject⟩
  · -- a kind that is not that of an object has no category
    have hcategory : kind.category? = none := by
      cases kind <;> first | rfl | exact absurd rfl hwrapper
    simp only [hwrapper, hcategory]
    constructor
    · rintro ⟨s', hok⟩
      cases hok
    · rintro ⟨-, c, object, hc, -⟩
      cases hc

/-- **Appending is atomic, and the three ways to append agree.**  Each of them puts exactly one node
at the end of the list and changes nothing else, or fails and changes nothing, except that a
container that was offered is released once as its owner says.  On plain values all three do the
same, and under another kind than its own a value is refused.  An array, whose kind cannot be told,
is refused unless a kind is said; a list then stores it if the name can cross and the handle names a
live object of that kind, which is not the list itself. -/
theorem append_is_atomic (k : Container .list) (hhost : k.host = .reference) (name : Option String)
    (s : Session) :
    (∀ item : Item, item.Fit →
      Appends k name item.kind item.payload s (item.refusedIn s.memory) (k.push name item s)) ∧
    (∀ (item : RawItem) (kind : ArgumentKind), item.kind? = some kind →
      Appends k name kind item.payload s s.memory (k.pushRaw name item s)) ∧
    (∀ (kind : ArgumentKind) (item : RawItem),
      Appends k name kind item.payload s s.memory (k.pushAs name kind item s)) ∧
    (∀ value : Plain,
      k.pushRaw name (.plain value) s = k.push name (.plain value) s ∧
      k.pushAs name value.kind (.plain value) s = k.push name (.plain value) s ∧
      ∀ kind, kind ≠ value.kind →
        k.pushAs name kind (.plain value) s = .error (.failure (.unstorable kind.code)) s) ∧
    ∀ h : Handle,
      k.pushRaw name (.array h) s =
        .error (.failure (.unstorable ArgumentKind.undefined.code)) s ∧
      ∀ (kind : ArgumentKind) (list : Nat) (l : ListObject), h.isNull = false →
        k.handle = .ofId list → s.memory.object? list = some (.list l) →
        ((∃ s', k.pushAs name kind (.array h) s = .ok () s') ↔
          (∀ text ∈ name, Crosses text) ∧ ∃ c object, kind.category? = some c ∧
            s.memory.find? h = some object ∧ object.category = c ∧
            (c = .list → h ≠ k.handle)) := by
  refine ⟨fun item hfit => ?push, fun item kind hkind => ?pushRaw, fun kind item => ?pushAs,
    fun value => ⟨rfl, ?same, fun kind hother => ?other⟩, fun h => ⟨rfl, ?array⟩⟩
  case push => exact appends_push hhost name hfit s
  case pushRaw => exact appends_pushRaw hhost name hkind s
  case pushAs => exact appends_pushAs hhost name kind item s
  case same =>
    have hkind : (RawItem.plain value).kind? = some value.kind := rfl
    rw [pushAs_of_kind hkind]
    rfl
  case other => exact pushAs_of_other_kind rfl hother s
  case array =>
    intro kind list l hnull hlist hl
    exact pushAs_array_eq_ok_iff hhost hnull hlist hl

/-- A list of the shelf stores the array under the kind that it is of, but not under another kind,
and it does not store itself. -/
theorem append_to_shelf :
    let k : Container .list := ⟨.ofId 1, .library, .reference⟩
    let s : Session := { memory := shelf }
    k.host = .reference ∧
      (∃ s', k.pushAs (some "a") .numericArray (.array (.ofId 0)) s = .ok () s') ∧
      (¬ ∃ s', k.pushAs (some "a") .tensor (.array (.ofId 0)) s = .ok () s') ∧
      ¬ ∃ s', k.pushAs none .dataList (.array (.ofId 1)) s = .ok () s' := by
  intro k s
  have hstored := fun (name : Option String) (kind : ArgumentKind) (h : Handle)
      (hnull : h.isNull = false) =>
    ((append_is_atomic k rfl name s).2.2.2.2 h).2 kind 1 ⟨[0, 1]⟩ hnull rfl rfl
  refine ⟨rfl, ?_, ?_, ?_⟩
  · rw [hstored _ _ _ rfl]
    refine ⟨?_, .numeric, _, rfl, rfl, rfl, by decide⟩
    rintro _ ⟨⟩
    decide
  · rw [hstored _ _ _ rfl]
    rintro ⟨-, c, object, hc, hobject, hcategory, -⟩
    obtain rfl := Option.some.inj hc
    obtain rfl := Option.some.inj hobject
    cases hcategory
  · rw [hstored _ _ _ rfl]
    rintro ⟨-, c, object, hc, -, -, hother⟩
    obtain rfl := Option.some.inj hc
    exact hother rfl rfl

end Container

end Custody
