import Custody.Workbench.Basic

/-!
# Deeds

Simple operations on a buffer of any element kind, to be dispatched.  A deed shows the elements it
leaves behind.  The container is dropped after it, unless the deed is to keep it.
-/

namespace Custody

/-- What is done with a buffer. -/
inductive Deed where
  | inspect
  | reverse
  /-- Overwrite all elements by zero. -/
  | clear
  /-- Look at it, and do not drop it. -/
  | keep
  | fail (cause : Failure)
  | panic

structure Sight where
  category : BufferCategory
  kind : category.Kind
  elements : List kind.element.Word
  owner : Ownership
  /-- The container, if it was kept. -/
  kept : Option (Container (.buffer category))

namespace Deed

variable {b : BufferCategory} {kind : b.Kind}

/-- Look at a buffer and drop it. -/
def see (t : Buffer kind) : SessionM Sight := do
  let elements := t.data (← SessionM.memory)
  t.container.drop
  return ⟨b, kind, elements, t.container.owner, none⟩

def perform (deed : Deed) (kind : b.Kind) (t : Buffer kind) : SessionM Sight := do
  match deed with
  | inspect => see t
  | reverse =>
    t.modify List.reverse
    see t
  | clear =>
    t.modify (·.map fun _ => kind.element.zero)
    see t
  | keep => return ⟨b, kind, t.data (← SessionM.memory), t.container.owner, some t.container⟩
  -- what fails or panics drops the container on its way out
  | fail cause =>
    t.container.drop
    SessionM.fail cause
  | panic =>
    t.container.drop
    throw .panic

end Deed

namespace Work

/-- Put the container that a deed kept into a slot. -/
def storeKept (slot : Option String) (sight : Sight) : Work Sight := do
  sight.kept.forM fun k => store slot ⟨_, k⟩
  return sight

/-- Take a container and do a deed on it. -/
def dispatch (name : String) (deed : Deed) (slot : Option String) :
    Work (Except ((b : BufferCategory) × DispatchFailure b) Sight) := do
  let ⟨b, k⟩ ← takeBuffer name
  match ← act (k.dispatch (deed.perform)) with
  | .ok sight => .ok <$> storeKept slot sight
  | .error refused => return .error ⟨b, refused⟩

/-- Put a container that could not be dispatched back into its slot. -/
def putBack {b : BufferCategory} (name : String) (refused : DispatchFailure b) : Work Unit :=
  refused.container?.forM fun k => store (some name) ⟨_, k⟩

/-- Do a deed on an argument. -/
def operate (args : Arguments) (b : BufferCategory) (index : Nat) (passing : Passing) (deed : Deed)
    (slot : Option String) : Work Sight := do
  storeKept slot (← act (args.operate b index passing (deed.perform)))

end Work

end Custody
