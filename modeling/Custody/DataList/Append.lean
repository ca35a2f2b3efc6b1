import Custody.DataList.Value

/-!
# Appending to a list

A node is appended at the end of its list, with or without a name.  The host has the last word, and
what it refuses changes nothing.

An object that is appended belongs to the list from then on.  If it is refused, its container is
dropped.
-/

namespace Custody

open SessionM

namespace Container

/-! ## One node -/

/-- Append a stored value under a kind. -/
def addNode (k : Container .list) (name : Option String) (kind : ArgumentKind) (value : Payload) :
    SessionM Unit := do
  let h ← ofExcept k.require
  if kind.isPrimitive || kind.isWrapper then
    let name ← ofExcept (name.mapM encodeText)
    let accepted ← onMemory (k.host.addNode h name kind.code value)
    if accepted then pure () else fail (.unstorable kind.code)
  else fail (.unstorable kind.code)

def addPlain (k : Container .list) (name : Option String) (value : Plain) : SessionM Unit := do
  let stored ← ofExcept value.payload
  k.addNode name value.kind stored

/-- Append a handle under a kind; there has to be one. -/
def addHandle (k : Container .list) (name : Option String) (kind : ArgumentKind) (h : Handle) :
    SessionM Unit :=
  if h.isNull then fail .nullNode else k.addNode name kind (.handle h)

/-! ## The three ways to append -/

def push (k : Container .list) (name : Option String) : Item → SessionM Unit
  | .plain value => k.addPlain name value
  | .container (c := c) held => do
    match ← attempt (k.addHandle name c.argumentKind held.handle) with
    | .ok () => return ()
    | .error cause =>
      -- the list did not take the object over, so it goes with its container
      held.drop
      fail cause

/-- Append a value, or an object by its handle.  An array is refused, since its kind cannot be
told. -/
def pushRaw (k : Container .list) (name : Option String) : RawItem → SessionM Unit
  | .plain value => k.addPlain name value
  | .array _ => fail (.unstorable ArgumentKind.undefined.code)
  | .image h => k.addHandle name .image h
  | .list h => k.addHandle name .dataList h

/-- Append a value under a kind that is said.  An array goes under any kind of object; every other
value only under its own. -/
def pushAs (k : Container .list) (name : Option String) (kind : ArgumentKind) :
    RawItem → SessionM Unit
  | .array h =>
    if kind.isWrapper then k.addHandle name kind h else fail (.unstorable kind.code)
  | item =>
    if item.kind? = some kind then k.pushRaw name item else fail (.unstorable kind.code)

end Container

end Custody
