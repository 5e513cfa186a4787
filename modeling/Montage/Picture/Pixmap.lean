import Montage.Picture.File

/-!
# Pixmaps

The form in which rasters lie on a disk: a few header lines in plain text, each a keyword and a
value, and then the samples as bytes. `write` makes such a file and `read?` accepts those with a
sample depth of eight bits and a channel count that some mode has.
-/

namespace Montage.Pixmap

/-- The first line of every pixmap. -/
def signature : String := "P7"

/-- The line that ends the header. -/
def headerEnd : String := "ENDHDR"

/-- The header lines of a raster. -/
def header (r : Raster) : List String :=
  [signature, s!"WIDTH {r.width}", s!"HEIGHT {r.height}", s!"DEPTH {r.depth}", "MAXVAL 255",
    headerEnd]

/-- A raster as a file. -/
def write (r : Raster) : ByteArray :=
  (String.join ((header r).map (· ++ "\n"))).toUTF8 ++ ⟨r.samples⟩

/-- A line of text as a keyword and a value. -/
def field (line : List Char) : String × String :=
  (String.ofList (line.takeWhile (· != ' ')), String.ofList ((line.dropWhile (· != ' ')).drop 1))

/-- The fields of a header, and the bytes behind it; no header has more than `n` lines. -/
def fields : (n : Nat) → List UInt8 → Option (List (String × String) × List UInt8)
  | 0, _ => none
  | n + 1, bytes =>
    let line := field ((bytes.takeWhile (· != 10)).map fun b => Char.ofNat b.toNat)
    match bytes.dropWhile (· != 10) with
    | [] => none
    | _ :: rest =>
      if line.1 = headerEnd then some ([], rest)
      else (fields n rest).map fun (more, samples) => (line :: more, samples)

/-- The number in a field. -/
def number (fields : List (String × String)) (keyword : String) : Option Nat :=
  (fields.lookup keyword).bind String.toNat?

/-- The image of a file that is a pixmap. -/
def read? (bytes : ByteArray) : Option ImageFile := do
  let (fields, samples) ← fields 64 bytes.toList
  if fields.head? ≠ some (signature, "") then none
  let width ← number fields "WIDTH"
  let height ← number fields "HEIGHT"
  let depth ← number fields "DEPTH"
  if number fields "MAXVAL" ≠ some 255 ∨ samples.length < height * width * depth then none
  let channels := if depth = 1 then none else some depth
  let mode ← ImageFile.Mode.ofChannels? channels
  let stored := samples.toArray
  let raster := Raster.generate height width channels fun y x c =>
    stored[(y * width + x) * depth + c]?.getD 0
  return ⟨mode, raster, #[], .absent⟩

end Montage.Pixmap
