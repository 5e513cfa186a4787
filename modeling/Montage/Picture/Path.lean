import Montage.Text.Quoted

/-!
# Paths

A path is a text of names with slashes between them, and begins with a slash where it starts at the
root. Cut into names it is a list, with `root` at its front or, where it leads out of the folder it
starts in, `above` as often as it goes up. `normalize` resolves the dots by the text alone.
-/

namespace Montage

/-- Why a path leads to no file. -/
inductive PathFault where
  /-- Nothing lies there. -/
  | missing
  /-- A file stands in the place of a folder. -/
  | throughFile
  /-- A folder lies there. -/
  | isFolder
  /-- The path or one of its names is too long. -/
  | tooLong
  /-- No name holds a null character. -/
  | nullCharacter
  deriving DecidableEq, Repr

/-- Why a path leads to no file, in words. -/
def PathFault.reason (path : String) : PathFault → String
  | missing => "no such file"
  | throughFile => "[Errno 20] Not a directory: " ++ Text.quote path
  | isFolder => "[Errno 21] Is a directory: " ++ Text.quote path
  | tooLong => "[Errno 36] File name too long: " ++ Text.quote path
  | nullCharacter => "embedded null byte"

namespace Path

/-- The name that stands for the root. -/
def root : String := "/"

/-- The name that stands for the folder above. -/
def above : String := ".."

/-- The most bytes that a name may have. -/
def longestName : Nat := 255

/-- The most bytes that a path may have. -/
def longest : Nat := 4095

/-- A text cut at its slashes. -/
def cut : List Char → List (List Char)
  | [] => [[]]
  | c :: rest =>
    let names := cut rest
    if c = '/' then [] :: names else (c :: names.headD []) :: names.tail

/-- The names of a path as they stand in it. -/
def split (path : String) : List String :=
  (cut path.toList).map String.ofList

/-- Where a path starts. -/
def origin (path : String) : List String :=
  if path.startsWith root then [root] else []

/-- Whether a name leads nowhere else. -/
def isIdle (name : String) : Bool :=
  name = "" || name = "."

/-- The folder above another. Above the root lies the root again. -/
def parent (names : List String) : List String :=
  match names.getLast? with
  | none => [above]
  | some name =>
    if name = root then names else if name = above then names ++ [above] else names.dropLast

/-- The names on a path after its dots and empty names are resolved by the text alone. -/
def normalize (path : String) : List String :=
  (split path).foldl
    (fun names name =>
      if isIdle name then names else if name = above then parent names else names ++ [name])
    (origin path)

/-- The path of names. -/
def text : List String → String
  | [] => "."
  | name :: names =>
    if name = root then root ++ "/".intercalate names else "/".intercalate (name :: names)

/-- Whether a path starts with exactly two slashes. Such a path starts at the root too, but keeps
both of them. -/
def hasTwoSlashes (path : String) : Bool :=
  path.startsWith "//" && !path.startsWith "///"

/-- A path with its dots resolved by the text alone. -/
def canonical (path : String) : String :=
  (if hasTwoSlashes path then "/" else "") ++ text (normalize path)

/-- Whether names lead to a folder that is always there: the start of all paths, those above it, and
the root. -/
def isOutermost (names : List String) : Bool :=
  names = [root] || names.all (· == above)

end Path

end Montage
