import Montage.Log.Event
import Montage.Picture.File
import Montage.Picture.Path

/-!
# Files and where they lie

A folder holds files under paths. A path is followed name by name, so that a file in the place of a
folder stops it. Nothing but its folders is known about what lies above the start. Of an image file
it is known what comes of decoding it, which is left to a library: an image, perhaps with remarks
about the file, or a failure. Reading an image from a path succeeds where a file is found that can
be decoded.
-/

namespace Montage

/-- An image that was decoded. -/
structure Decoded where
  /-- The image. -/
  image : Raster
  /-- It has red, green, blue and opacity. -/
  channels_eq : image.channels = some 4
  /-- The name of the mode that the file has. -/
  mode : String
  deriving DecidableEq

/-- The image of a file. -/
def ImageFile.decode (f : ImageFile) : Decoded :=
  ⟨f.toRgba, rfl, f.mode.name⟩

/-- What comes of decoding a file. -/
inductive Decoding where
  /-- An image. -/
  | done (decoded : Decoded)
  /-- No image, for a reason. -/
  | refused (reason : String)
  /-- No image, since the library breaks off. -/
  | broken (message : String)
  deriving DecidableEq

/-- What lies under a name. -/
inductive Entry where
  /-- An image file, with the remarks that are printed while it is decoded. -/
  | image (remarks : List String) (decoding : Decoding)
  /-- A file that is no image. -/
  | text (contents : String)
  /-- A folder. -/
  | folder
  deriving DecidableEq

/-- Files under their paths, the path cut at its slashes, with `root` before the names of a path
that starts there; folders on the way to a file need not be listed. -/
abbrev Folder := List (List String × Entry)

namespace Folder

/-- What lies under a path that is cut into names. -/
def entry? (f : Folder) (names : List String) : Option Entry :=
  if Path.isOutermost names then some .folder
  else match List.find? (·.1 == names) f with
    | some (_, entry) => some entry
    | none => if List.any f (names.isPrefixOf ·.1) then some .folder else none

/-- Follows names from a place that is given by its names. The last name need not lead to
anything. -/
def follow (f : Folder) (here : List String) : List String → Except PathFault (List String)
  | [] => .ok here
  | name :: rest =>
    match f.entry? here with
    | none => .error .missing
    | some .folder =>
      if Path.isIdle name then follow f here rest
      else if name = Path.above then follow f (Path.parent here) rest
      else if Path.longestName < name.utf8ByteSize then .error .tooLong
      else follow f (here ++ [name]) rest
    | some _ => .error .throughFile

/-- What lies under a path. -/
def resolve (f : Folder) (path : String) : Except PathFault Entry :=
  if path.toList.contains '\x00' then .error .nullCharacter
  else if path = "" then .error .missing
  else if Path.longest < path.utf8ByteSize then .error .tooLong
  else match f.follow (Path.origin path) (Path.split path) with
    | .error e => .error e
    | .ok names =>
      match f.entry? names with
      | some entry => .ok entry
      | none => .error .missing

/-- Puts a text under a path that is cut into names, in place of a file that lay there. -/
def write (f : Folder) (names : List String) (contents : String) : Folder :=
  (names, .text contents) :: List.filter (·.1 != names) f

/-- Starts an empty text file under a path whose dots are resolved by its text; fails where no file
can be written. -/
def createText (f : Folder) (path : String) : Except PathFault (List String × Folder) :=
  let start := Path.origin path
  if path.toList.contains '\x00' then .error .nullCharacter
  else if Path.longest < (Path.canonical path).utf8ByteSize then .error .tooLong
  else match f.follow start ((Path.normalize path).drop start.length) with
    | .error e => .error e
    | .ok names =>
      match f.entry? names with
      | some .folder => .error .isFolder
      | _ => .ok (names, f.write names "")

/-- Adds to the text file under a path that is cut into names. -/
def appendText (f : Folder) (names : List String) (more : String) : Folder :=
  match f.entry? names with
  | some (.text contents) => f.write names (contents ++ more)
  | _ => f

end Folder

/-- Why no image could be read. -/
inductive LoadFault where
  /-- There is no file under the path. -/
  | unreachable (path : String) (fault : PathFault)
  /-- The file is no image. -/
  | noImage (path : String)
  /-- The file cannot be decoded, for a reason. -/
  | undecodable (path reason : String)
  /-- The library breaks off. -/
  | broken (message : String)
  deriving DecidableEq, Repr

/-- The text of a fault. -/
def LoadFault.message : LoadFault → String
  | unreachable path fault => about path (fault.reason path)
  | noImage path => about path ("cannot identify image file " ++ Text.quote path)
  | undecodable path reason => about path reason
  | broken message => message
where
  /-- The text about an image that cannot be decoded. -/
  about (path reason : String) : String :=
    "cannot decode image '" ++ path ++ "': " ++ reason

/-- The image that comes of decoding the file under a path. -/
def Decoding.image (path : String) : Decoding → Except LoadFault Decoded
  | done decoded => .ok decoded
  | refused reason => .error (.undecodable path reason)
  | broken message => .error (.broken message)

/-- Reads the image under a path. The remarks that are printed on the way come with it. -/
def Folder.load (f : Folder) (path : String) : List String × Except LoadFault Decoded :=
  match f.resolve path with
  | .error fault => ([], .error (.unreachable path fault))
  | .ok .folder => ([], .error (.unreachable path .isFolder))
  | .ok (.text _) => ([], .error (.noImage path))
  | .ok (.image remarks decoding) => (remarks, decoding.image path)

end Montage
