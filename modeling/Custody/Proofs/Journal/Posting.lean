import Custody.Proofs.DataList.Atomic
import Custody.Proofs.Memory.Expand

/-!
# Postings

A posting says what a list was given: a name, if there is one, and a value.  The host stores it as a
node (`Posting.node`), with the name and a text as bytes and an object as its handle; the posting is
read again from the node (`Posting.posting?_node`).

- `Container.Appends.posts`: a successful append puts the node of one posting into the table, and
  the three ways to append are of this kind.
- `Memory.CopyOf.exists_posting`: the copy of a posting's node is the node of a posting of the same
  name and value, with a new object in place of another.
-/

namespace Custody

open SessionM Memory Text

/-! ## Values -/

/-- A value that a list stores: a plain one, or the number of an object. -/
inductive Stored where
  | plain (value : Plain)
  | object (c : Category) (id : Nat)
  deriving DecidableEq

/-- The form in which a plain value is stored. -/
def Plain.stored : Plain → Payload
  | boolean value => .boolean value
  | integer value => .integer value
  | real value => .real value
  | complex value => .complex value
  | text value => .text (utf8 value)

/-- Every plain value can cross but a text with a NUL. -/
def Plain.Crosses : Plain → Prop
  | text s => Text.Crosses s
  | _ => True

/-- A plain value is written down if it can cross. -/
theorem Plain.payload_eq_ok_iff {value : Plain} {p : Payload} :
    value.payload = .ok p ↔ value.Crosses ∧ p = value.stored := by
  cases value with
  | text s =>
    show (encodeText s).map Payload.text = .ok p ↔ Text.Crosses s ∧ p = .text (utf8 s)
    by_cases hs : Text.Crosses s
    · rw [encodeText_eq_ok_iff.mpr ⟨hs, rfl⟩]
      simp [Except.map, hs, eq_comm]
    · obtain ⟨position, hnul⟩ := exists_firstNul hs
      rw [hnul.encodeText_eq]
      simp [Except.map, hs]
  | boolean | integer | real | complex => simp [payload, Crosses, stored, eq_comm]

/-- A plain value is read from what was stored of it. -/
theorem Plain.read_stored (value : Plain) : read value.kind value.stored = some (.ok value) := by
  cases value with
  | boolean value => cases value <;> rfl
  | integer value => rfl
  | real value => rfl
  | complex value => rfl
  | text s => simp [read, kind, stored, Payload.asText?, decodeText, Except.mapError, Except.map]

@[simp] theorem Plain.category?_kind (value : Plain) : value.kind.category? = none := by
  cases value <;> rfl

@[simp] theorem Category.category?_argumentKind (c : Category) :
    c.argumentKind.category? = some c := by
  rcases c with ((_ | _) | _) | _ <;> rfl

namespace Stored

/-- The kind under which a value is stored. -/
def kind : Stored → ArgumentKind
  | plain value => value.kind
  | object c _ => c.argumentKind

def payload : Stored → Payload
  | plain value => value.stored
  | object _ id => .handle (.ofId id)

/-- The number of the object, if the value is one. -/
def object? : Stored → Option Nat
  | plain _ => none
  | object _ id => some id

/-- What is read from a node that holds the value: an object is seen through a view, since the list
keeps it. -/
def shown : Stored → NodeValue
  | plain value => .plain value
  | object c id => .view (c := c) ⟨.ofId id, .host, .reference⟩

/-- The value that a payload is, if it is read as a kind. -/
def read? (kind : ArgumentKind) (p : Payload) : Option Stored :=
  match kind.category? with
  | some c => p.asHandle.id?.map (object c)
  | none => (Plain.read kind p).bind fun value => value.toOption.map plain

@[simp] theorem read?_payload (value : Stored) : read? value.kind value.payload = some value := by
  cases value with
  | plain value => simp [read?, kind, payload, Plain.read_stored, Except.toOption]
  | object c id => simp [read?, kind, payload, Payload.asHandle]

/-- A value and what is in its place in a copy: the same plain value, or an object that is new. -/
inductive Copied (base : Nat) : Stored → Stored → Prop where
  | plain (value : Plain) : Copied base (plain value) (plain value)
  | object (c : Category) (id : Nat) {new : Nat} (hnew : base ≤ new) :
    Copied base (object c id) (object c new)

end Stored

/-! ## Postings and nodes -/

/-- What a list was given. -/
structure Posting where
  list : Nat
  name : Option String
  value : Stored
  deriving DecidableEq

/-- The node that the host keeps of a posting. -/
def Posting.node (p : Posting) : Node :=
  ⟨p.list, p.name.map utf8, p.value.kind.code, p.value.payload⟩

/-- The posting that a node is of, if its name and its value can be read. -/
def Node.posting? (node : Node) : Option Posting := do
  let kind ← ArgumentKind.ofCode? node.code
  let name ← node.name.mapM fun bytes => (decode bytes).toOption
  return ⟨node.list, name, ← Stored.read? kind node.value⟩

namespace Posting

/-- A posting is read from its node. -/
@[simp] theorem posting?_node (p : Posting) : p.node.posting? = some p := by
  have hname : (p.name.map utf8).mapM (fun bytes => (decode bytes).toOption) = some p.name := by
    cases p.name <;> simp [Except.toOption]
  simp [Node.posting?, node, ofCode?_code, hname]

theorem node_injective : Function.Injective node := by
  intro p q h
  have hsame := congrArg Node.posting? h
  rwa [posting?_node, posting?_node, Option.some.injEq] at hsame

@[simp] theorem nestedIn_node (p : Posting) : nestedIn p.node = p.value.object? := by
  obtain ⟨list, name, value⟩ := p
  cases value with
  | plain value =>
    show (nestedCategory? value.kind.code).bind _ = none
    rw [nestedCategory?_plain, Option.bind_none]
  | object c id =>
    show (nestedCategory? c.argumentKind.code).bind (fun _ => (Handle.ofId id).id?) = some id
    rw [nestedCategory?_argumentKind, Option.bind_some, Handle.id?_ofId]

end Posting

/-- The copy of a posting's node is the node of a posting. -/
theorem Memory.CopyOf.exists_posting {base : Nat} {p : Posting} {node : Node}
    (h : CopyOf base p.node node) :
    ∃ q : Posting, node = q.node ∧ q.name = p.name ∧ Stored.Copied base p.value q.value := by
  obtain ⟨list, name, code, value⟩ := node
  obtain ⟨old, oldName, oldValue⟩ := p
  obtain rfl : name = oldName.map utf8 := h.name
  obtain rfl : code = oldValue.kind.code := h.code
  cases oldValue with
  | plain v =>
    obtain rfl : value = v.stored := h.plain (nestedCategory?_plain v)
    exact ⟨⟨list, oldName, .plain v⟩, rfl, rfl, .plain v⟩
  | object c id =>
    have hheld : nestedCategory? c.argumentKind.code ≠ none := by
      rw [nestedCategory?_argumentKind]
      exact Option.some_ne_none c
    obtain ⟨new, hnew, hhandle⟩ := h.held hheld
    obtain rfl : value = .handle (.ofId new) := hhandle
    exact ⟨⟨list, oldName, .object c new⟩, rfl, rfl, .object c id hnew⟩

/-! ## Appending -/

/-- The list of a posting is live and may store the value. -/
structure Memory.Accepts (m : Memory) (p : Posting) : Prop where
  list : ∃ l, m.object? p.list = some (.list l)
  storable : m.storable p.list p.value.kind.code p.value.payload = true

/-- What a list accepts is live, and it is not the list. -/
theorem Memory.Accepts.object {m : Memory} {p : Posting} (h : m.Accepts p) {id : Nat}
    (hid : p.value.object? = some id) : m.Live id ∧ id ≠ p.list := by
  obtain ⟨⟨l, hl⟩, hstorable⟩ := h
  obtain ⟨list, name, value⟩ := p
  cases value with
  | plain value => cases hid
  | object c other =>
    obtain rfl : other = id := Option.some.inj hid
    have hprimitive : c.argumentKind.isPrimitive = false := by
      rcases c with ((_ | _) | _) | _ <;> rfl
    obtain ⟨_, object, -, hfound, rfl, hother⟩ := (storable_handle hprimitive).mp hstorable
    rw [find?_ofId] at hfound
    refine ⟨Live.of_object hfound, ?_⟩
    rintro rfl
    -- it would be a list, and the handle of the list is refused
    obtain rfl : object = .list l := Option.some.inj (hfound.symm.trans hl)
    exact hother rfl rfl

/-- The value that a list stores of an item. -/
def Item.stored? : Item → Option Stored
  | plain value => some (.plain value)
  | container (c := c) held => held.handle.id?.map (.object c)

/-- The value that a list stores under a kind of an item that is given by its handle. -/
def RawItem.stored? (kind : ArgumentKind) : RawItem → Option Stored
  | plain value => some (.plain value)
  | array h | image h | list h => do return .object (← kind.category?) (← h.id?)

/-- The posting of a value to the list of a container. -/
def Container.posting? (k : Container .list) (name : Option String) (stored : Option Stored) :
    Option Posting := do
  return ⟨← k.handle.id?, name, ← stored⟩

/-- What an append posts: nothing where it stops. -/
def Container.posted (k : Container .list) (name : Option String) (stored : Option Stored) :
    EStateM.Result Stop Session Unit → List Posting
  | .ok _ _ => (k.posting? name stored).toList
  | .error _ _ => []

/-- A handle that may be stored is that of an object, and the kind is that of its category. -/
private theorem exists_object_of_storable {m : Memory} {list : Nat} {kind : ArgumentKind}
    {h : Handle} (hkind : kind.isPrimitive = false)
    (hstorable : m.storable list kind.code (.handle h) = true) :
    ∃ c id, kind.category? = some c ∧ h = .ofId id ∧ c.argumentKind = kind := by
  obtain ⟨c, object, hc, hfound, -, -⟩ := (storable_handle hkind).mp hstorable
  obtain ⟨id, hid, -⟩ := Option.bind_eq_some_iff.mp hfound
  refine ⟨c, id, hc, Handle.id?_eq_some_iff.mp hid, ?_⟩
  cases kind <;> cases hc <;> rfl

variable {m : Memory} {list : Nat} {p : Payload}

/-- What a list may store of an item is a value of its kind. -/
theorem Item.stored?_of_storable {item : Item} (hp : item.payload = .ok p)
    (hstorable : m.storable list item.kind.code p = true) :
    ∃ value, item.stored? = some value ∧ value.kind = item.kind ∧ value.payload = p := by
  cases item with
  | plain value => exact ⟨.plain value, rfl, rfl, (Plain.payload_eq_ok_iff.mp hp).2.symm⟩
  | @container c held =>
    obtain rfl : Payload.handle held.handle = p := Except.ok.inj hp
    have hprimitive : c.argumentKind.isPrimitive = false := by
      rcases c with ((_ | _) | _) | _ <;> rfl
    obtain ⟨-, id, -, hid, -⟩ := exists_object_of_storable hprimitive hstorable
    exact ⟨.object c id, by simp [stored?, hid], rfl, by rw [hid]; rfl⟩

/-- Whether an item that is given by its handle may go under a kind: an array under that of any
object, every other item under its own. -/
def RawItem.allows (kind : ArgumentKind) (item : RawItem) : Bool :=
  match item.kind? with
  | some own => own = kind
  | none => kind.isWrapper

theorem RawItem.stored?_of_storable {item : RawItem} {kind : ArgumentKind}
    (hallows : item.allows kind = true) (hp : item.payload = .ok p)
    (hstorable : m.storable list kind.code p = true) :
    ∃ value, item.stored? kind = some value ∧ value.kind = kind ∧ value.payload = p := by
  have hobject : ∀ h, p = .handle h → kind.isPrimitive = false →
      ∃ value, (do return .object (← kind.category?) (← h.id?) : Option Stored) = some value ∧
        value.kind = kind ∧ value.payload = p := by
    rintro h rfl hprimitive
    obtain ⟨c, id, hc, rfl, hkind⟩ := exists_object_of_storable hprimitive hstorable
    exact ⟨.object c id, by simp [hc], hkind, rfl⟩
  cases item with
  | plain value =>
    obtain rfl : value.kind = kind := by simpa [allows, kind?] using hallows
    exact ⟨.plain value, rfl, rfl, (Plain.payload_eq_ok_iff.mp hp).2.symm⟩
  | array h =>
    refine hobject h (Except.ok.inj hp).symm ?_
    cases kind <;> first | rfl | cases hallows
  | image h =>
    obtain rfl : ArgumentKind.image = kind := by simpa [allows, kind?] using hallows
    exact hobject h (Except.ok.inj hp).symm rfl
  | list h =>
    obtain rfl : ArgumentKind.dataList = kind := by simpa [allows, kind?] using hallows
    exact hobject h (Except.ok.inj hp).symm rfl

/-- How an append ends: a list that accepts the value has one node more, or nothing is posted and
the memory is `refused`. -/
inductive Session.Posts (s : Session) (refused : Memory) : List Posting → Session → Prop where
  | accepted (p : Posting) (h : s.memory.Accepts p) :
    Posts s refused [p] { s with memory := s.memory.pushNode p.node }
  | refused : Posts s refused [] { s with memory := refused }

namespace Container

variable {k : Container .list} {name : Option String} {kind : ArgumentKind} {s : Session}

/-- Under a kind that an item does not allow, nothing is appended. -/
theorem pushAs_of_not_allowed {item : RawItem} (hallows : item.allows kind = false) :
    k.pushAs name kind item s = .error (.failure (.unstorable kind.code)) s := by
  cases hkind : item.kind? with
  | some own =>
    have hother : kind ≠ own := by
      rintro rfl
      simp [RawItem.allows, hkind] at hallows
    exact pushAs_of_other_kind hkind hother s
  | none =>
    cases item with
    | plain | image | list => simp [RawItem.kind?] at hkind
    | array h =>
      have hwrapper : kind.isWrapper = false := hallows
      simp only [pushAs, hwrapper]
      rfl

/-- A successful append puts the node of one posting into the table; one that fails posts
nothing. -/
theorem Appends.posts {payload : Except Failure Payload} {stored : Option Stored}
    {refused : Memory} {r : EStateM.Result Stop Session Unit}
    (h : Appends k name kind payload s refused r)
    (hstored : ∀ list p, payload = .ok p → s.memory.storable list kind.code p = true →
      ∃ value, stored = some value ∧ value.kind = kind ∧ value.payload = p) :
    s.Posts refused (k.posted name stored r) (endState r) := by
  cases h with
  | @accepted list bytes value m hlist hname hpayload hstorable happended =>
    obtain ⟨v, rfl, rfl, rfl⟩ := hstored list value hpayload hstorable
    obtain ⟨-, rfl⟩ := mapM_encodeText_eq_ok_iff.mp hname
    obtain ⟨l, hl, -⟩ := happended.tail
    have hposted : k.posted name (some v) (.ok () { s with memory := m }) =
        [⟨list, name, v⟩] := by simp [posted, posting?, hlist]
    rw [hposted, happended.eq_pushNode]
    exact .accepted ⟨list, name, v⟩ ⟨⟨l, hl⟩, hstorable⟩
  | refused cause => exact .refused

/-! ## The three ways to append -/

theorem posts_pushAs (hhost : k.host = .reference) (name : Option String) (kind : ArgumentKind)
    (item : RawItem) (s : Session) :
    s.Posts s.memory (k.posted name (item.stored? kind) (k.pushAs name kind item s))
      (endState (k.pushAs name kind item s)) := by
  cases hallows : item.allows kind with
  | true =>
    exact (appends_pushAs hhost name kind item s).posts
      fun _ _ hp hstorable => RawItem.stored?_of_storable hallows hp hstorable
  | false =>
    rw [pushAs_of_not_allowed hallows]
    exact .refused

theorem posts_pushRaw (hhost : k.host = .reference) (name : Option String) (item : RawItem)
    (s : Session) :
    s.Posts s.memory (k.posted name (item.kind?.bind item.stored?) (k.pushRaw name item s))
      (endState (k.pushRaw name item s)) := by
  cases hkind : item.kind? with
  | some kind =>
    -- under its own kind, an item is appended in the same way
    rw [← pushAs_of_kind hkind]
    exact posts_pushAs hhost name kind item s
  | none =>
    -- an array that does not say of which family it is, is refused
    cases item with
    | plain | image | list => simp [RawItem.kind?] at hkind
    | array h => exact .refused

theorem posts_push (hhost : k.host = .reference) (name : Option String) {item : Item}
    (hitem : item.Fit) (s : Session) :
    s.Posts (item.refusedIn s.memory) (k.posted name item.stored? (k.push name item s))
      (endState (k.push name item s)) :=
  (appends_push hhost name hitem s).posts
    fun _ _ hp hstorable => Item.stored?_of_storable hp hstorable

end Container

end Custody
