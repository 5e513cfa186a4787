import Montage.Number.Binary64
import Montage.Picture.Codec
import Montage.Raster.Basic

/-!
# The library that works on samples

Interpolating, filtering, converting colours and writing files is left to a library of image
operations. `Imaging` packages the operations that are called, each with what is relied on: the
shapes of the results, that channels do not mix, and what the three formats without loss keep. How
the samples come about is open.
-/

namespace Montage

namespace Raster

/-- The meaning of the samples of a pixel. -/
inductive Colours where
  /-- One brightness. -/
  | grey
  /-- Red, green and blue. -/
  | rgb
  /-- Red, green, blue and opacity. -/
  | rgba
  deriving DecidableEq, Repr

/-- The number of channels; grey rasters are flat. -/
def Colours.channels : Colours → Option Nat
  | grey => none
  | rgb => some 3
  | rgba => some 4

end Raster

/-- The operations of an image library, and what is relied on. -/
class Imaging where
  /-- A raster interpolated on a grid of another size. -/
  resample (r : Raster) (height width : Nat) : Raster
  /-- The grid has the height that is asked for. -/
  height_resample (r : Raster) (height width : Nat) : (resample r height width).height = height
  /-- The grid has the width that is asked for. -/
  width_resample (r : Raster) (height width : Nat) : (resample r height width).width = width
  /-- There are as many channels as before. -/
  channels_resample (r : Raster) (height width : Nat) :
    (resample r height width).channels = r.channels
  /-- Each channel of a raster with pixels is interpolated by itself. -/
  sameChannel_resample {r q : Raster} {c : Nat} (hshape : r.SameShape q) (hheight : 0 < r.height)
    (hwidth : 0 < r.width) (hc : c < r.depth) (h : r.SameChannel c q) (height width : Nat) :
    (resample r height width).SameChannel c (resample q height width)
  /-- A raster under a bell curve of a width, which is cut off at a radius for each axis. -/
  gaussian (sigma : Binary64) (down across : Nat) (r : Raster) : Raster
  /-- A blurred raster has its shape still. -/
  sameShape_gaussian (sigma : Binary64) (down across : Nat) (r : Raster) :
    r.SameShape (gaussian sigma down across r)
  /-- Each channel is blurred by itself. -/
  sameChannel_gaussian {r q : Raster} {c : Nat} (hshape : r.SameShape q) (hc : c < r.depth)
    (h : r.SameChannel c q) (sigma : Binary64) (down across : Nat) :
    (gaussian sigma down across r).SameChannel c (gaussian sigma down across q)
  /-- A sample of a pixel in other colours. -/
  convertSample (source target : Raster.Colours) (pixel : Nat → UInt8) (c : Nat) : UInt8
  /-- In its own colours a pixel stays as it is. -/
  convertSample_self (colours : Raster.Colours) (pixel : Nat → UInt8) {c : Nat}
    (hc : c < colours.channels.getD 1) : convertSample colours colours pixel c = pixel c
  /-- What is known about the format with a name. -/
  codec? (name : String) : Option Codec
  /-- What is found under a name has that name. -/
  name_of_codec? {name : String} {codec : Codec} (h : codec? name = some codec) :
    codec.name = name
  /-- The three formats without loss are known. They have all modes, except that a bitmap has no
  brightness with opacity. From a bitmap alone opacity cannot be read. -/
  exists_codec? {name : String} (h : name ∈ ["PNG", "TIFF", "BMP"]) : ∃ codec,
    codec? name = some codec ∧ (codec.keepsOpacity = false ↔ name = "BMP") ∧
      ∀ mode ∈ [.grey, .greyAlpha, .rgb, .rgba],
        mode ∈ codec.modes ↔ ¬ (mode = .greyAlpha ∧ name = "BMP")
  /-- The file of an image. -/
  bytes (image : EncodedImage) : List UInt8

attribute [simp] Imaging.height_resample Imaging.width_resample Imaging.channels_resample

end Montage
