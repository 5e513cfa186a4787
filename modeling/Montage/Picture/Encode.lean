import Montage.Imaging
import Montage.Raster.Fault
import Montage.Text.Uppercase

/-!
# Writing an image

A result is written in a format that is meant to keep every sample. The name of the format may be
given in any case. Whether it is one of those that are allowed is found by its name alone; the rest
is left to the library.
-/

namespace Montage

/-- Why an image cannot be written in a format. -/
inductive EncodeFault where
  /-- The format is none of those that are allowed. -/
  | notLossless (format : String) (allowed : List String)
  /-- No format has that number of channels. -/
  | channels (format : String) (channels : Nat)
  /-- The format has an empty name. -/
  | namelessFormat
  /-- Nothing is known about the format. -/
  | unknownFormat (format : String)
  /-- The format has no such mode. -/
  | mode (format reason : String)
  /-- The image has no pixels. -/
  | emptyImage (format : String)
  deriving DecidableEq, Repr

/-- The text of a fault. -/
def EncodeFault.message (fault : EncodeFault) : String :=
  let (format, reason) := match fault with
    | notLossless f allowed => (f, "not a lossless format (" ++ ", ".intercalate allowed ++ ")")
    | channels f c =>
      (f, "Cannot handle this data type: " ++ Raster.Fault.shapeText [1, 1, c] ++ ", |u1")
    | namelessFormat => ("", "unknown file extension: ")
    | unknownFormat f => (f, Text.quote f)
    | mode f reason => (f, reason)
    | emptyImage f => (f, "cannot write empty image")
  "cannot encode image as " ++ format ++ ": " ++ reason

/-- The file that an image becomes in the format with a name. -/
def encodeAs [Imaging] (format : String) (mode : ImageFile.Mode) (r : Raster) :
    Except EncodeFault EncodedImage :=
  if format = "" then .error .namelessFormat
  else match Imaging.codec? format with
    | none => .error (.unknownFormat format)
    | some codec =>
      if codec.modes.contains mode then .ok (codec.write mode r)
      else .error (.mode format (codec.refusal mode))

/-- The file that an image becomes in a format. That there is such a file is settled before it turns
out that the image has pixels. -/
def Raster.encode [Imaging] (allowed : List String) (format : String) (r : Raster) :
    Except EncodeFault EncodedImage :=
  let format := Text.uppercase format
  if !allowed.contains format then .error (.notLossless format allowed)
  else match ImageFile.Mode.ofChannels? r.channels with
    | none => .error (.channels format r.depth)
    | some mode =>
      match encodeAs format mode r with
      | .error fault => .error fault
      | .ok image =>
        if r.height = 0 ∨ r.width = 0 then .error (.emptyImage format) else .ok image

end Montage
