import Custody.Tag.Category

/-!
# Tags of values, colors and conversions

The remaining tags that library and host exchange: what an argument or a list node holds, the color
space of an image, and how a conversion treats values that do not fit.
-/

namespace Custody

/-! ## Arguments and nodes -/

/-- What an argument or a list node holds. -/
inductive ArgumentKind where
  | undefined | boolean | integer | real | complex
  | tensor | sparseArray | numericArray | image | text | dataList
  deriving DecidableEq, Repr

namespace ArgumentKind

/-- Every kind, in the order of the codes. -/
def all : List ArgumentKind :=
  [undefined, boolean, integer, real, complex,
   tensor, sparseArray, numericArray, image, text, dataList]

def code : ArgumentKind → Int
  | undefined => 0
  | boolean => 1
  | integer => 2
  | real => 3
  | complex => 4
  | tensor => 5
  | sparseArray => 6
  | numericArray => 7
  | image => 8
  | text => 9
  | dataList => 10

def ofCode? (code : Int) : Option ArgumentKind := all.find? (·.code == code)

def name : ArgumentKind → String
  | undefined => "Undefined"
  | boolean => "Boolean"
  | integer => "Integer"
  | real => "Real"
  | complex => "Complex"
  | tensor => "Tensor"
  | sparseArray => "SparseArray"
  | numericArray => "NumericArray"
  | image => "Image"
  | text => "Utf8String"
  | dataList => "DataStore"

def ofName? (name : String) : Option ArgumentKind := all.find? (·.name == name)

def label : ArgumentKind → String
  | text => "UTF8String"
  | k => k.name

/-- Scalars and texts, which are copied. -/
def isPrimitive : ArgumentKind → Bool
  | boolean | integer | real | complex | text => true
  | _ => false

/-- Objects of the host, which travel as handles. -/
def isWrapper : ArgumentKind → Bool
  | tensor | sparseArray | numericArray | image | dataList => true
  | _ => false

end ArgumentKind

/-- The kind under which objects of a category travel. -/
def Category.argumentKind : Category → ArgumentKind
  | .tensor => .tensor
  | .numeric => .numericArray
  | .image => .image
  | .list => .dataList

/-- The category of the objects that travel under a kind. -/
def ArgumentKind.category? : ArgumentKind → Option Category
  | tensor => some .tensor
  | numericArray => some .numeric
  | image => some .image
  | dataList => some .list
  | _ => none

/-! ## Color spaces -/

/-- How the channels of an image are to be read. -/
inductive ColorSpace where
  | undefined | gray | rgb | hsb | cmyk | xyz | luv | lab | lch | automatic
  deriving DecidableEq, Repr, Inhabited

namespace ColorSpace

/-- Every color space, in the order of the codes. -/
def all : List ColorSpace := [undefined, gray, rgb, hsb, cmyk, xyz, luv, lab, lch, automatic]

def code : ColorSpace → Int
  | undefined => -1
  | gray => 0
  | rgb => 1
  | hsb => 2
  | cmyk => 3
  | xyz => 4
  | luv => 5
  | lab => 6
  | lch => 7
  | automatic => 8

def ofCode? (code : Int) : Option ColorSpace := all.find? (·.code == code)

def name : ColorSpace → String
  | undefined => "Undefined"
  | gray => "Gray"
  | rgb => "Rgb"
  | hsb => "Hsb"
  | cmyk => "Cmyk"
  | xyz => "Xyz"
  | luv => "Luv"
  | lab => "Lab"
  | lch => "Lch"
  | automatic => "Automatic"

def ofName? (name : String) : Option ColorSpace := all.find? (·.name == name)

def label : ColorSpace → String
  | undefined => "Undefined"
  | gray => "Grayscale"
  | rgb => "RGB"
  | hsb => "HSB"
  | cmyk => "CMYK"
  | xyz => "XYZ"
  | luv => "LUV"
  | lab => "LAB"
  | lch => "LCH"
  | automatic => "Automatic"

/-- The number of channels that carry color, where the color space fixes it. -/
def colorChannels? : ColorSpace → Option Int
  | undefined | automatic => none
  | gray => some 1
  | cmyk => some 4
  | _ => some 3

end ColorSpace

/-! ## Conversion methods -/

/-- How a conversion treats values that the target cannot hold. -/
inductive ConvertMethod where
  /-- Fail on the first value that is lost. -/
  | check
  | clipCheck
  /-- Cast without asking. -/
  | coerce
  | clipCoerce
  /-- Round to an integer before the cast. -/
  | round
  | clipRound
  /-- Map the unit interval onto the integers of the other side, then round. -/
  | scale
  | clipScale
  deriving DecidableEq, Repr

namespace ConvertMethod

/-- Every method, in the order of the codes. -/
def all : List ConvertMethod :=
  [check, clipCheck, coerce, clipCoerce, round, clipRound, scale, clipScale]

def code : ConvertMethod → Int
  | check => 1
  | clipCheck => 2
  | coerce => 3
  | clipCoerce => 4
  | round => 5
  | clipRound => 6
  | scale => 7
  | clipScale => 8

def ofCode? (code : Int) : Option ConvertMethod := all.find? (·.code == code)

def name : ConvertMethod → String
  | check => "Check"
  | clipCheck => "ClipCheck"
  | coerce => "Coerce"
  | clipCoerce => "ClipCoerce"
  | round => "Round"
  | clipRound => "ClipRound"
  | scale => "Scale"
  | clipScale => "ClipScale"

def ofName? (name : String) : Option ConvertMethod := all.find? (·.name == name)

def label : ConvertMethod → String
  | check => "Check"
  | clipCheck => "ClipAndCheck"
  | coerce => "Coerce"
  | clipCoerce => "ClipAndCoerce"
  | round => "Round"
  | clipRound => "ClipAndRound"
  | scale => "Scale"
  | clipScale => "ClipAndScale"

/-- Whether values are first clipped to the range of the target. -/
def clips : ConvertMethod → Bool
  | clipCheck | clipCoerce | clipRound | clipScale => true
  | _ => false

/-- Whether a lost value makes the conversion fail. -/
def checks : ConvertMethod → Bool
  | check | clipCheck => true
  | _ => false

/-- Whether values are rounded before they are cast to an integer. -/
def rounds : ConvertMethod → Bool
  | round | clipRound | scale | clipScale => true
  | _ => false

/-- Whether values are scaled between the unit interval and the integers. -/
def scales : ConvertMethod → Bool
  | scale | clipScale => true
  | _ => false

end ConvertMethod

end Custody
