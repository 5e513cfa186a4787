import Montage.Expression.Decode

/-!
# What an evaluator works with

An evaluator of expressions knows nothing about pixels. It works through a `Backend`, which can copy
a picture, bring it to a box, blur it and draw one picture on another. Each of these may change a
state and may fail, and after a failure the state stays as it was then. Pictures may be values, or
names of arrays in a store that the operations change. The words it reads by `Words.nextItem`, which
knows the operands of each tag by name; the decoder has a table of arities instead.
-/

namespace Montage

/-- Reads a tag and the operands that it owns. -/
def Words.nextItem (words : List Int) : Except WordFault (Item × List Int) := do
  let (tag, rest) ← nextTag words
  match tag with
  | .image =>
    let (index, rest) ← next rest
    return (.image index, rest)
  | .fit =>
    let (height, rest) ← next rest
    let (width, rest) ← next rest
    return (.frame .fit width height, rest)
  | .fill =>
    let (height, rest) ← next rest
    let (width, rest) ← next rest
    return (.frame .fill width height, rest)
  | .blur =>
    let (strength, rest) ← next rest
    return (.blur strength, rest)
  | .overlay => return (.overlay, rest)

/-- A computation that may change a state and may fail. -/
abbrev Effect (State Error Result : Type) : Type :=
  ExceptT Error (StateM State) Result

/-- The operations on pictures. -/
structure Backend (State Error Picture : Type) where
  /-- An independent copy of a picture. -/
  copy : Picture → Effect State Error Picture
  /-- A picture brought to a box of a width and a height. -/
  frame : Framing → Int → Int → Picture → Effect State Error Picture
  /-- A picture blurred with a strength in hundredths. -/
  blur : Int → Picture → Effect State Error Picture
  /-- The first picture with the second one drawn on its centre. -/
  overlay : Picture → Picture → Effect State Error Picture

/-- Why an evaluation fails. -/
inductive EvalFault (Error : Type) where
  /-- The words are not an expression, or name an image that is not there. -/
  | words (fault : WordFault)
  /-- An operation on pictures failed. -/
  | operation (error : Error)
  deriving DecidableEq, Repr

namespace Backend

variable {State Error Picture Result : Type}

/-- An operation of the backend as a part of an evaluation. -/
def lift (action : Effect State Error Result) : Effect State (EvalFault Error) Result :=
  ExceptT.adapt .operation action

/-- An evaluation that fails because of its words. -/
def reject (fault : WordFault) : Effect State (EvalFault Error) Result :=
  throw (.words fault)

variable (b : Backend State Error Picture)

/-- Applies one step to a picture. -/
def perform (picture : Picture) : Step Picture → Effect State Error Picture
  | .frame how width height => b.frame how width height picture
  | .blur strength => b.blur strength picture
  | .overlay argument => b.overlay picture argument

/-- A copy of the image with an index. -/
def fetch (images : Array Picture) (index : Int) : Effect State (EvalFault Error) Picture :=
  if 0 ≤ index then
    match images[index.toNat]? with
    | some picture => lift (b.copy picture)
    | none => reject (Malformed.noImage index images.size).refusal
  else reject (Malformed.noImage index images.size).refusal

end Backend

end Montage
