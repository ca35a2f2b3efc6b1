import Custody.Tag.Element

/-!
# Categories of objects

A host keeps four categories of objects.  Three of them are buffers: tensors, numeric arrays and
images.  Tensors and numeric arrays are stored alike, and a handle alone does not tell them apart.
The fourth is the data list.

Each category of buffer has its own family of element kinds, `BufferCategory.Kind`.
-/

namespace Custody

/-! ## The categories -/

/-- The two categories that are stored as arrays. -/
inductive ArrayCategory where
  | tensor
  | numeric
  deriving DecidableEq, Repr

/-- The categories that hold elements. -/
inductive BufferCategory where
  | array (category : ArrayCategory)
  | image
  deriving DecidableEq, Repr

/-- The categories of objects that a host keeps for a library. -/
inductive Category where
  | buffer (category : BufferCategory)
  | list
  deriving DecidableEq, Repr

namespace BufferCategory

@[match_pattern] abbrev tensor : BufferCategory := .array .tensor

@[match_pattern] abbrev numeric : BufferCategory := .array .numeric

end BufferCategory

namespace Category

@[match_pattern] abbrev tensor : Category := .buffer .tensor

@[match_pattern] abbrev numeric : Category := .buffer .numeric

@[match_pattern] abbrev image : Category := .buffer .image

/-- Every category, in the order in which their error conditions are registered. -/
def all : List Category := [tensor, numeric, image, list]

def name : Category → String
  | tensor => "Tensor"
  | numeric => "NumericArray"
  | image => "Image"
  | list => "DataList"

def ofName? (name : String) : Option Category := all.find? (·.name == name)

def label : Category → String
  | tensor => "tensor"
  | numeric => "numeric array"
  | image => "image"
  | list => "data list"

/-- Whether a host keeps share counts for the category.  It never shares lists. -/
def shareable : Category → Bool
  | buffer _ => true
  | list => false

end Category

/-! ## Element kinds of a category -/

namespace BufferCategory

/-- The element kinds of a category. -/
def Kind : BufferCategory → Type
  | .tensor => TensorKind
  | .numeric => ArrayKind
  | .image => PixelKind

instance instDecidableEqKind : (b : BufferCategory) → DecidableEq b.Kind
  | .tensor => inferInstanceAs (DecidableEq TensorKind)
  | .numeric => inferInstanceAs (DecidableEq ArrayKind)
  | .image => inferInstanceAs (DecidableEq PixelKind)

def kinds : (b : BufferCategory) → List b.Kind
  | .tensor => TensorKind.all
  | .numeric => ArrayKind.all
  | .image => PixelKind.all

def kindOfCode? : (b : BufferCategory) → Int → Option b.Kind
  | .tensor, c => TensorKind.ofCode? c
  | .numeric, c => ArrayKind.ofCode? c
  | .image, c => PixelKind.ofCode? c

namespace Kind

def code : {b : BufferCategory} → b.Kind → Int
  | .tensor, k => TensorKind.code k
  | .numeric, k => ArrayKind.code k
  | .image, k => PixelKind.code k

def element : {b : BufferCategory} → b.Kind → ElementType
  | .tensor, k => TensorKind.element k
  | .numeric, k => ArrayKind.element k
  | .image, k => PixelKind.element k

def name : {b : BufferCategory} → b.Kind → String
  | .tensor, k => TensorKind.name k
  | .numeric, k => ArrayKind.name k
  | .image, k => PixelKind.name k

def label : {b : BufferCategory} → b.Kind → String
  | .tensor, k => TensorKind.label k
  | .numeric, k => ArrayKind.label k
  | .image, k => PixelKind.label k

end Kind

def kindOfName? (b : BufferCategory) (name : String) : Option b.Kind :=
  b.kinds.find? fun k => k.name == name

/-- The element kind of a category that has a machine type. -/
def kindOfElement? (b : BufferCategory) (t : ElementType) : Option b.Kind :=
  b.kinds.find? fun k => k.element == t

end BufferCategory

end Custody
