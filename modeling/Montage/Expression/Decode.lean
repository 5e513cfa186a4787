import Montage.Expression.Node
import Montage.Number.Numeral

/-!
# Reading words from the end

Words are read from the last to the first. The arity of a tag tells how many operand words it owns;
an overlay owns a whole expression, whose end is found by reading it. No lengths are stored.
`readNode` collects the steps of a chain down to its image and then applies them in source order, so
that it calls itself only for the arguments of overlays. Its bound `n` is at least the number of
unread words; each call reads a word, so at `n = 0` none is left.
-/

namespace Montage

/-- The two ways of going through words. -/
inductive Purpose where
  /-- To rebuild the tree. -/
  | decoding
  /-- To carry out the operations. -/
  | evaluating
  deriving DecidableEq, Repr

/-- Why words are not an expression. -/
inductive Malformed where
  /-- A word in the place of a tag is none. -/
  | unknownTag (word : Int)
  /-- An operation lacks words. -/
  | pastStart
  /-- There are no words at all. -/
  | empty (purpose : Purpose)
  /-- Words are left before the expression. -/
  | leftOver (purpose : Purpose) (count : Nat)
  /-- An image index names none of the images. -/
  | noImage (index : Int) (imageCount : Nat)
  deriving DecidableEq, Repr

/-- The text of a fault in words. A word may be too long to be written; a number of words never
is. -/
def Malformed.message : Malformed → Except Numeral.Fault String
  | unknownTag word =>
    (Numeral.written word).map fun shown => s!"word {shown} is not an operation tag"
  | pastStart => .ok "Expression ran past the start of the buffer."
  | empty .decoding => .ok "Cannot decode an empty expression."
  | empty .evaluating => .ok "Cannot evaluate an empty expression."
  | leftOver .decoding n =>
    .ok s!"{n} word(s) left undecoded before the root image reference."
  | leftOver .evaluating n =>
    .ok s!"{n} word(s) left unconsumed before the root image reference."
  | noImage index n =>
    (Numeral.written index).map fun shown => s!"Image index {shown} out of range for {n} image(s)."

/-- How words are refused. -/
inductive WordFault where
  /-- They are not an expression. -/
  | malformed (fault : Malformed)
  /-- They are not, but a number in them is too long for a message that says so, or for a view of
  them. -/
  | numeral (fault : Numeral.Fault)
  deriving DecidableEq, Repr

/-- How words with a fault are refused: the fault is put into words at once. -/
def Malformed.refusal (fault : Malformed) : WordFault :=
  match fault.message with
  | .ok _ => .malformed fault
  | .error reason => .numeral reason

/-- The word that a fault names. -/
def Malformed.named? : Malformed → Option Int
  | unknownTag word => some word
  | noImage index _ => some index
  | _ => none

/-- A fault is put into words unless the word that it names has no numeral. -/
theorem Malformed.message_eq_error_iff {fault : Malformed} {reason : Numeral.Fault} :
    fault.message = .error reason ↔
      reason = .written ∧ ∃ word ∈ fault.named?, ¬ Numeral.Writable word := by
  have hshown (word : Int) (text : String → String) :
      (Numeral.written word).map text = .error reason ↔
        reason = .written ∧ ¬ Numeral.Writable word := by
    rw [← Numeral.written_eq_error_iff]
    cases Numeral.written word <;> simp [Except.map]
  cases fault with
  | unknownTag word => simp [message, named?, hshown]
  | noImage index count => simp [message, named?, hshown]
  | pastStart => simp [message, named?]
  | empty purpose => cases purpose <;> simp [message, named?]
  | leftOver purpose count => cases purpose <;> simp [message, named?]

/-- Words are refused without a message where a word that it would name has no numeral. -/
theorem Malformed.refusal_eq_numeral_iff {fault : Malformed} {reason : Numeral.Fault} :
    fault.refusal = .numeral reason ↔
      reason = .written ∧ ∃ word ∈ fault.named?, ¬ Numeral.Writable word := by
  rw [← message_eq_error_iff, refusal]
  cases fault.message <;> simp

/-- Else they are refused as malformed, for the fault that they have. -/
theorem Malformed.refusal_eq_malformed_iff {fault fault' : Malformed} :
    fault.refusal = .malformed fault' ↔
      fault = fault' ∧ ∀ word ∈ fault.named?, Numeral.Writable word := by
  have hwritten : (∀ word ∈ fault.named?, Numeral.Writable word) ↔
      ∀ reason, fault.message ≠ .error reason := by
    simp [message_eq_error_iff]
  rw [hwritten, refusal]
  cases fault.message <;> simp

/-- A tag with the operand words that it owns. -/
inductive Item where
  /-- An input image. -/
  | image (index : Int)
  /-- A framing and its box. -/
  | frame (how : Framing) (width height : Int)
  /-- A blur and its strength. -/
  | blur (strength : Int)
  /-- An overlay, whose argument is still unread. -/
  | overlay
  deriving DecidableEq, Repr

/-- A tag with its operands in source order. -/
def Item.ofOperands : (tag : Tag) → Vector Int (tag.arity.getD 0) → Item
  | .fit, (operands : Vector Int 2) => .frame .fit operands[0] operands[1]
  | .fill, (operands : Vector Int 2) => .frame .fill operands[0] operands[1]
  | .blur, (operands : Vector Int 1) => .blur operands[0]
  | .image, (operands : Vector Int 1) => .image operands[0]
  | .overlay, _ => .overlay

namespace Words

/-- Reads one word; the unread words stand in the order of reading. -/
def next : List Int → Except WordFault (Int × List Int)
  | [] => .error Malformed.pastStart.refusal
  | word :: rest => .ok (word, rest)

/-- Reads a tag. -/
def nextTag (words : List Int) : Except WordFault (Tag × List Int) := do
  let (word, rest) ← next words
  match Tag.ofWord? word with
  | some tag => return (tag, rest)
  | none => throw (Malformed.unknownTag word).refusal

/-- Reads several words, one after the other. -/
def nextMany : (count : Nat) → List Int → Except WordFault (Vector Int count × List Int)
  | 0, words => return (#v[], words)
  | count + 1, words => do
    let (read, rest) ← nextMany count words
    let (word, rest) ← next rest
    return (read.push word, rest)

/-- Reads a tag and as many operands as it has, the last one first. -/
def readItem (words : List Int) : Except WordFault (Item × List Int) := do
  let (tag, rest) ← nextTag words
  if tag.isNested then return (.overlay, rest)
  let (operands, rest) ← nextMany (tag.arity.getD 0) rest
  return (.ofOperands tag operands.reverse, rest)

end Words

namespace Node

/-- Reads one expression; `pending` holds the steps of its chain that were read already, the first
to be applied at the head. -/
def readNode : (n : Nat) → List (Step Node) → List Int → Except WordFault (Node × List Int)
  | 0, _, _ => .error Malformed.pastStart.refusal
  | n + 1, pending, words =>
    match Words.readItem words with
    | .error e => .error e
    | .ok (.image index, rest) => .ok (pending.foldl apply (image index), rest)
    | .ok (.frame how width height, rest) => readNode n (.frame how width height :: pending) rest
    | .ok (.blur strength, rest) => readNode n (.blur strength :: pending) rest
    | .ok (.overlay, rest) =>
      match readNode n [] rest with
      | .error e => .error e
      | .ok (argument, rest') => readNode n (.overlay argument :: pending) rest'

/-- The tree of a compiled expression. -/
def decode (words : List Int) : Except WordFault Node :=
  if words = [] then .error (Malformed.empty .decoding).refusal
  else match readNode words.length [] words.reverse with
    | .error e => .error e
    | .ok (node, []) => .ok node
    | .ok (_, rest) => .error (Malformed.leftOver .decoding rest.length).refusal

end Node

end Montage
