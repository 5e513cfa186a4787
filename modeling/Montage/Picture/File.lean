import Montage.Raster.Basic
import Montage.Text.Quoted

/-!
# Image files

An image file holds a raster and says what its samples mean. Read into the program, every image has
red, green, blue and opacity, the last one full where the file has none and zero where a pixel is
the one that the file declares transparent.
-/

namespace Montage

namespace ImageFile

/-- What the samples of a file mean. -/
inductive Mode where
  /-- Black or white. -/
  | bilevel
  /-- Brightness. -/
  | grey
  /-- Brightness and opacity. -/
  | greyAlpha
  /-- Red, green and blue. -/
  | rgb
  /-- Red, green, blue and opacity. -/
  | rgba
  /-- The number of a colour in a palette. -/
  | indexed
  /-- Cyan, magenta, yellow and black ink. -/
  | inks
  deriving DecidableEq, Repr

/-- The name of a mode. -/
def Mode.name : Mode → String
  | bilevel => "1"
  | grey => "L"
  | greyAlpha => "LA"
  | rgb => "RGB"
  | rgba => "RGBA"
  | indexed => "P"
  | inks => "CMYK"

/-- The mode with a name. -/
def Mode.ofName? (name : String) : Option Mode :=
  [bilevel, grey, greyAlpha, rgb, rgba, indexed, inks].find? (·.name == name)

/-- The mode of a raster that says nothing else. -/
def Mode.ofChannels? : Option Nat → Option Mode
  | none => some grey
  | some 2 => some greyAlpha
  | some 3 => some rgb
  | some 4 => some rgba
  | some _ => none

/-- A colour of a palette. -/
structure Colour where
  /-- The red light. -/
  red : UInt8
  /-- The green light. -/
  green : UInt8
  /-- The blue light. -/
  blue : UInt8
  deriving DecidableEq, Repr

/-- The colour with the same red, green and blue light. -/
def Colour.shade (light : UInt8) : Colour :=
  ⟨light, light, light⟩

/-- The colours that samples stand for, three each; samples that are left over are no colour. -/
def Colour.ofSamples : List UInt8 → List Colour
  | red :: green :: blue :: rest => ⟨red, green, blue⟩ :: ofSamples rest
  | _ => []

/-- The pixels that a file declares transparent. The numbers have sixteen bits, whatever the depth
of the samples. -/
inductive Transparency where
  /-- None. -/
  | absent
  /-- Those of one brightness, or of one number in the palette. -/
  | value (value : Nat)
  /-- Those of one colour. -/
  | colour (red green blue : Nat)
  deriving DecidableEq, Repr

end ImageFile

/-- The contents of an image file. -/
structure ImageFile where
  /-- What the samples mean. -/
  mode : ImageFile.Mode
  /-- The samples. -/
  raster : Raster
  /-- The colours of the palette. -/
  palette : Array ImageFile.Colour
  /-- The pixels that are transparent. -/
  transparency : ImageFile.Transparency
  deriving DecidableEq

namespace ImageFile

/-- A product of two samples on the scale from 0 to 255, rounded. -/
def multiply (a b : Nat) : Nat :=
  let product := a * b + 128
  (product / 256 + product) / 256

/-- The opacity of a pixel whose value is compared with the transparent one. -/
def opacity (transparent : Bool) : UInt8 :=
  if transparent then 0 else 255

/-- The sample that a number of sixteen bits is compared as. -/
def lowByte (n : Nat) : UInt8 :=
  UInt8.ofNat (min n 0xFFFF)

/-- Whether the pixels of a bilevel file that are white, or those that are not, are transparent. -/
def Transparency.isLevel (t : Transparency) (white : Bool) : Bool :=
  match t with
  | .value n => (n != 0) == white
  | _ => false

/-- Whether a brightness is the transparent one. -/
def Transparency.isShade (t : Transparency) (v : UInt8) : Bool :=
  match t with
  | .value n => lowByte n == v
  | _ => false

/-- Whether the number of a colour is the transparent one. -/
def Transparency.isIndex (t : Transparency) (v : UInt8) : Bool :=
  t == .value v.toNat

/-- Whether a colour is the transparent one. -/
def Transparency.isColour (t : Transparency) (c : Colour) : Bool :=
  match t with
  | .colour red green blue => ⟨lowByte red, lowByte green, lowByte blue⟩ == c
  | _ => false

/-- The sample of channel `c` of a pixel with red, green, blue and opacity. -/
def samples (red green blue alpha : UInt8) (c : Nat) : UInt8 :=
  match c with
  | 0 => red
  | 1 => green
  | 2 => blue
  | _ => alpha

/-- A pixel of a file in red, green, blue and opacity. -/
def rgbaSample (f : ImageFile) (pixel : Nat → UInt8) : Nat → UInt8 :=
  let v := pixel 0
  match f.mode with
  | .bilevel =>
    let shade : UInt8 := if v = 0 then 0 else 255
    samples shade shade shade (opacity (f.transparency.isLevel (v != 0)))
  | .grey => samples v v v (opacity (f.transparency.isShade v))
  | .greyAlpha => samples v v v (pixel 1)
  | .rgb =>
    let colour : Colour := ⟨v, pixel 1, pixel 2⟩
    samples colour.red colour.green colour.blue (opacity (f.transparency.isColour colour))
  | .rgba => pixel
  | .indexed =>
    let colour := f.palette[v.toNat]?.getD (.shade 0)
    samples colour.red colour.green colour.blue (opacity (f.transparency.isIndex v))
  | .inks =>
    let light := 255 - (pixel 3).toNat
    let shade (i : Nat) : UInt8 := UInt8.ofNat (light - multiply (pixel i).toNat light)
    samples (shade 0) (shade 1) (shade 2) 255

/-- The image of a file. -/
def toRgba (f : ImageFile) : Raster :=
  Raster.generate f.raster.height f.raster.width (some 4) fun y x c =>
    f.rgbaSample (f.raster.get y x) c

/-- An image without its opacity. -/
def dropOpacity (r : Raster) : Raster :=
  Raster.generate r.height r.width (some 3) r.get

end ImageFile

end Montage
