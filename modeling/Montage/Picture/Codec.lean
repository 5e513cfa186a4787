import Montage.Picture.File

/-!
# Formats that images are written in

A raster is written as brightness or as colours, with opacity or without. A format has some of these
four modes, and words for each mode that it refuses.
-/

namespace Montage

/-- An image in a format; the file that it stands for reads back as this raster if the format keeps
every sample. -/
structure EncodedImage where
  /-- The format. -/
  format : String
  /-- What the samples of the file mean. -/
  mode : ImageFile.Mode
  /-- The samples. -/
  raster : Raster
  deriving DecidableEq

/-- A format that images can be written in. -/
structure Codec where
  /-- The name of the format. -/
  name : String
  /-- The modes that it has. -/
  modes : List ImageFile.Mode
  /-- How it refuses another mode. -/
  refusal : ImageFile.Mode → String
  /-- Whether the opacity that it is given can be read from it. -/
  keepsOpacity : Bool := true

/-- The file that an image becomes in a format that has its mode. -/
def Codec.write (codec : Codec) (mode : ImageFile.Mode) (r : Raster) : EncodedImage :=
  if mode = .rgba ∧ !codec.keepsOpacity then ⟨codec.name, .rgb, ImageFile.dropOpacity r⟩
  else ⟨codec.name, mode, r⟩

end Montage
