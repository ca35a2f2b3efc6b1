/-!
# Passing and ownership

A passing policy says how a handle that comes from the host is acquired and who then owns it; the
owner says what happens to the handle when its container goes away.

| passing   | acquire | owner   | release |
|-----------|---------|---------|---------|
| automatic | adopt   | library | free    |
| manual    | adopt   | host    | keep    |
| shared    | clone   | shared  | disown  |
| constant  | adopt   | host    | keep    |

What the library allocates or clones by itself, it owns.
-/

namespace Custody

/-- How a handle received from the host is to be treated. -/
inductive Passing where
  /-- The library owns the handle and frees it unless it is passed back. -/
  | automatic
  | manual
  /-- The library works on a copy that host and library share. -/
  | shared
  /-- The host keeps the handle, and the library only reads. -/
  | constant
  deriving DecidableEq, Repr

/-- Who is responsible for releasing a handle. -/
inductive Ownership where
  | library
  | host
  | shared
  deriving DecidableEq, Repr

/-- What happens to a handle when a container is made from it. -/
inductive Acquire where
  /-- The container holds the handle itself. -/
  | adopt
  /-- The container holds a deep copy. -/
  | clone
  deriving DecidableEq, Repr

/-- What happens to a handle when its container goes away. -/
inductive Release where
  | free
  | disown
  | keep
  deriving DecidableEq, Repr

namespace Passing

def all : List Passing := [automatic, manual, shared, constant]

def acquire : Passing → Acquire
  | automatic | manual | constant => .adopt
  | shared => .clone

/-- Who owns what the container then holds. -/
def owner : Passing → Ownership
  | automatic => .library
  | manual | constant => .host
  | shared => .shared

def name : Passing → String
  | automatic => "Automatic"
  | manual => "Manual"
  | shared => "Shared"
  | constant => "Constant"

def ofName? (name : String) : Option Passing := all.find? (·.name == name)

end Passing

namespace Ownership

def all : List Ownership := [library, host, shared]

/-- What is done with the handle in the end. -/
def release : Ownership → Release
  | library => .free
  | host => .keep
  | shared => .disown

/-- The owner after the handle has gone to the host as a result. -/
def afterPass : Ownership → Ownership
  | library | host => .host
  | shared => .shared

def name : Ownership → String
  | library => "Library"
  | host => "Host"
  | shared => "Shared"

def ofName? (name : String) : Option Ownership := all.find? (·.name == name)

end Ownership

def Acquire.name : Acquire → String
  | .adopt => "Adopt"
  | .clone => "Clone"

def Release.name : Release → String
  | .free => "Free"
  | .disown => "Disown"
  | .keep => "Keep"

end Custody
