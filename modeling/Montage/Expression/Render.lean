import Montage.Expression.Decode

/-!
# Showing an expression

Three views of a compiled expression: an indented tree with the last operation first, the shortest
text that compiles to it, and its words in hexadecimal. The first two write the numbers of the tree
in decimal, which fails where a number is too long for that; hexadecimal has no such limit.
-/

namespace Montage

namespace Node

/-- The lines of a tree. The operations of a chain stand at one indentation, the last one first;
operands and the argument of an overlay stand two columns further in. -/
def lines (indent : Nat) : Node → List String
  | image index => [pad indent ++ s!"{Tag.image.mnemonic} {index}"]
  | frame how source width height =>
    (pad indent ++ how.tag.mnemonic) :: (pad (indent + 2) ++ toString width) ::
      (pad (indent + 2) ++ toString height) :: source.lines indent
  | blur source strength =>
    (pad indent ++ Tag.blur.mnemonic) :: (pad (indent + 2) ++ toString strength) ::
      source.lines indent
  | overlay source argument =>
    (pad indent ++ Tag.overlay.mnemonic) :: (argument.lines (indent + 2) ++ source.lines indent)
where
  /-- The blanks before a line. -/
  pad (n : Nat) : String :=
    String.ofList (List.replicate n ' ')

/-- The drawing of a tree. -/
def render (n : Node) : String :=
  "\n".intercalate (n.lines 0)

/-- The text of a tree. -/
def text : Node → String
  | image index => toString index
  | frame how source width height =>
    source.text ++ "." ++ how.tag.mnemonic ++ s!"({width}x{height})"
  | blur source strength => source.text ++ "." ++ Tag.blur.mnemonic ++ s!"({strength})"
  | overlay source argument =>
    source.text ++ "." ++ Tag.overlay.mnemonic ++ "(" ++ argument.text ++ ")"

end Node

namespace Words

/-- A view of the tree of words, in which all numbers of the tree are written. -/
def view (shape : Node → String) (words : List Int) : Except WordFault String := do
  let node ← Node.decode words
  let _ ← ((node.images ++ node.operands).mapM Numeral.written).mapError .numeral
  return shape node

/-- The drawing of the words of an expression. -/
def render : List Int → Except WordFault String :=
  view Node.render

/-- The shortest text that compiles to the words of an expression. -/
def text : List Int → Except WordFault String :=
  view Node.text

/-- A number in hexadecimal, filled up with blanks to eight columns. -/
def hexColumn (n : Int) : String :=
  let digits := Nat.toDigits 16 n.natAbs
  let signed := if n < 0 then '-' :: digits else digits
  String.ofList (List.replicate (8 - signed.length) ' ' ++ signed)

/-- Two rows in hexadecimal: the offsets of the words, and the words. -/
def dump (words : List Int) : String :=
  let offsets := (List.range words.length).map fun (i : Nat) => hexColumn i
  " ".intercalate offsets ++ "\n" ++ " ".intercalate (words.map hexColumn)

end Words

end Montage
