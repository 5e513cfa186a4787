import Montage.Evaluation.Backend
import Montage.Expression.Chain

/-!
# The meaning of expressions

Three ways to say what an expression draws, each by plain recursion. `Backend.direct` reads words
from the end and recurses for every operation; `Node.draw` goes through a tree of operations; and
`Chain.draw` goes through the syntax tree from left to right, where an image reference replaces the
picture at hand.
-/

namespace Montage

variable {State Error Picture : Type} (b : Backend State Error Picture) (images : Array Picture)

namespace Backend

/-- One operation of the plain recursion: it reads its tag and its operands, has the expressions
before them evaluated, an argument before the source, and then acts. -/
def directly (next : List Int → Effect State (EvalFault Error) (Picture × List Int))
    (words : List Int) : Effect State (EvalFault Error) (Picture × List Int) :=
  match Words.nextItem words with
  | .error e => reject e
  | .ok (.image index, rest) => do
    let picture ← b.fetch images index
    return (picture, rest)
  | .ok (.frame how width height, rest) => do
    let (source, rest') ← next rest
    let picture ← lift (b.frame how width height source)
    return (picture, rest')
  | .ok (.blur strength, rest) => do
    let (source, rest') ← next rest
    let picture ← lift (b.blur strength source)
    return (picture, rest')
  | .ok (.overlay, rest) => do
    let (argument, rest') ← next rest
    let (source, rest'') ← next rest'
    let picture ← lift (b.overlay source argument)
    return (picture, rest'')

/-- The plain recursion to a depth of `n` operations. -/
def runDirect : (n : Nat) → List Int → Effect State (EvalFault Error) (Picture × List Int)
  | 0 => fun _ => reject Malformed.pastStart.refusal
  | n + 1 => b.directly images (runDirect n)

/-- Evaluates the expression that ends where the unread words start. Each operation reads a word, so
that the words bound the depth. -/
def direct (words : List Int) : Effect State (EvalFault Error) (Picture × List Int) :=
  b.runDirect images words.length words

/-- Evaluates the expression that ends just before a cursor; answers its start and its picture. -/
def directAt (words : List Int) (cursor : Nat) :
    Effect State (EvalFault Error) (Nat × Picture) := do
  let (picture, rest) ← b.direct images (words.take cursor).reverse
  return (rest.length, picture)

/-- Evaluates a compiled expression by the plain recursion. -/
def evaluateDirect (words : List Int) : Effect State (EvalFault Error) Picture :=
  if words = [] then reject (Malformed.empty .evaluating).refusal
  else do
    let (start, picture) ← b.directAt images words words.length
    if start = 0 then return picture
    else reject (Malformed.leftOver .evaluating start).refusal

end Backend

/-- The picture of a tree of operations. -/
def Node.draw : Node → Effect State (EvalFault Error) Picture
  | image index => b.fetch images index
  | frame how source width height => do
    let picture ← source.draw
    Backend.lift (b.frame how width height picture)
  | blur source strength => do
    let picture ← source.draw
    Backend.lift (b.blur strength picture)
  | overlay source argument => do
    let above ← argument.draw
    let picture ← source.draw
    Backend.lift (b.overlay picture above)

/-- The picture of a syntax tree, step by step from left to right. -/
def Chain.draw : Chain → Effect State (EvalFault Error) Picture
  | root index => b.fetch images index.val
  | image before index => do
    let _ ← before.draw
    b.fetch images index.val
  | frame how before width height => do
    let picture ← before.draw
    Backend.lift (b.frame how width.value height.value picture)
  | blur before strength => do
    let picture ← before.draw
    Backend.lift (b.blur strength.value picture)
  | overlay before argument => do
    let picture ← before.draw
    let above ← argument.draw
    Backend.lift (b.overlay picture above)

end Montage
