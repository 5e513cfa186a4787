import Montage.Evaluation.Backend

/-!
# Running a compiled expression

The words are read from the end. The steps of a chain are collected until its image is found and are
then carried out in source order, while the argument of an overlay is evaluated as soon as its tag
has been read. So only overlay arguments recurse, and among several faults the one that is met first
in this order is reported. As in decoding, the bound `n` is at least the number of unread words.
-/

namespace Montage.Backend

variable {State Error Picture : Type} (b : Backend State Error Picture) (images : Array Picture)

/-- Evaluates the expression that ends where the unread words start; `pending` holds the steps of
its chain that were read already, the first to be applied at the head. -/
def run : (n : Nat) → List (Step Picture) → List Int →
    Effect State (EvalFault Error) (Picture × List Int)
  | 0, _, _ => reject Malformed.pastStart.refusal
  | n + 1, pending, words =>
    match Words.nextItem words with
    | .error e => reject e
    | .ok (.image index, rest) => do
      let root ← b.fetch images index
      let picture ← pending.foldlM (fun p step => lift (b.perform p step)) root
      return (picture, rest)
    | .ok (.frame how width height, rest) => run n (.frame how width height :: pending) rest
    | .ok (.blur strength, rest) => run n (.blur strength :: pending) rest
    | .ok (.overlay, rest) => do
      let (argument, rest') ← run n [] rest
      run n (.overlay argument :: pending) rest'

/-- Evaluates the expression that ends just before a cursor; answers its picture and its start. -/
def runAt (words : List Int) (cursor : Nat) :
    Effect State (EvalFault Error) (Nat × Picture) := do
  let (picture, rest) ← b.run images cursor [] (words.take cursor).reverse
  return (rest.length, picture)

/-- Evaluates a compiled expression. Words that are left over are a fault only once all else has
succeeded. -/
def evaluate (words : List Int) : Effect State (EvalFault Error) Picture :=
  if words = [] then reject (Malformed.empty .evaluating).refusal
  else do
    let (start, picture) ← b.runAt images words words.length
    if start = 0 then return picture
    else reject (Malformed.leftOver .evaluating start).refusal

end Montage.Backend
