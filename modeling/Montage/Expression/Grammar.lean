import Montage.Expression.Rule
import Montage.Number.Numeral

/-!
# The grammar of expressions

An expression is an image reference followed by steps, each after a dot:

    number     := digit+
    size       := number 'x' number
    imageRef   := digit
    fit        := "ft(" size ")"
    fill       := "fl(" size ")"
    overlay    := "pi(" expression ")"
    blur       := "gb(" number ")"
    step       := fit | fill | overlay | blur | imageRef
    expression := imageRef ('.' step)*

A number writes its value, an image reference its index and the image tag, and a step with brackets
writes its tag once it is closed. An image reference among the steps replaces all that stands before
it in its chain, so the words of that chain are dropped. `nestedExpression` counts down the overlays
that may still be opened, which bounds the recursion of the grammar.

The grammar is composed of blocks, and it is the same for all of them. With `Rule.blocks` it gives
the rules that read a text; other blocks tell what the rules do besides.
-/

namespace Montage

/-- The text that is being read, and the limits that it is held to. -/
structure Task where
  /-- The text of the expression. -/
  expression : String
  /-- The limits. -/
  limits : Limits

/-! ## Blocks -/

/-- The blocks for comparing a run of digits with a maximum. -/
structure NumeralBlocks (R : Type) where
  /-- Converts a run of digits, and goes on with its value. -/
  convert : List Char → (Option Nat → R) → R
  /-- Stops with a fault. -/
  stop : Fault → R

/-- The blocks for reading a number. -/
structure NumberBlocks (R : Type) extends NumeralBlocks R where
  /-- Goes on with the offset that was reached. -/
  place : (Nat → R) → R
  /-- Reads digits, as many as there are and at least one, and goes on with them. -/
  digits : (List Char → R) → R
  /-- Writes a word of an expression. -/
  emit : String → Word → R
  /-- Takes everything back where there is no match. -/
  transact : R → R

/-- The blocks for reading an expression. -/
structure GrammarBlocks (R : Type) extends NumberBlocks R where
  /-- Matches without reading. -/
  nothing : R
  /-- Reads a fixed text. -/
  literal : String → R
  /-- Reads one digit, and goes on with its value. -/
  digit : (Int → R) → R
  /-- One after the other. -/
  andThen : R → R → R
  /-- One, and where it fails the other. -/
  orElse : R → R → R
  /-- Over and over until it fails. -/
  many : R → R
  /-- With one more overlay open. -/
  nested : R → R
  /-- Goes on with the number of overlays that are open. -/
  depth : (Nat → R) → R
  /-- Goes on with a mark of the buffer. -/
  mark : (Nat → R) → R
  /-- Drops the words that were written after a mark. -/
  rollback : Nat → R
  /-- Looks at a word that was written, and goes on with it. -/
  get : Int → (Int → R) → R

/-! ## The grammar over any blocks -/

section Productions

variable {R : Type}

/-- Whether a run of digits stands for a number above a maximum. More digits than the numeral of the
maximum has decide it without reading the number; a maximum without a numeral is a fault. -/
def NumeralBlocks.exceeds (B : NumeralBlocks R) (digits : List Char) (maximum : Int)
    (next : Bool → R) : R :=
  match Numeral.written maximum with
  | .error fault => B.stop (.numeral fault)
  | .ok shown =>
    if shown.length < digits.length then next true
    else B.convert digits fun
      | some n => next (decide (maximum < n))
      | none => B.stop (.numeral (.read digits.length))

namespace NumberBlocks

variable (B : NumberBlocks R) (t : Task)

/-- Writes the value of a run of digits that starts at an offset. -/
def writeNumber (start : Nat) (run : List Char) : R :=
  let digits := Numeral.stripZeros run
  B.exceeds digits t.limits.maxNumber fun
    | true => B.stop (.rejected (.numberTooLarge t.expression start t.limits.maxNumber))
    | false => B.convert digits fun
      | some n => B.emit t.expression (.number n)
      | none => B.stop (.numeral (.read digits.length))

/-- A run of digits, as long as possible. -/
def number : R :=
  B.transact (B.place fun start => B.digits fun run => B.writeNumber t start run)

end NumberBlocks

namespace GrammarBlocks

variable (B : GrammarBlocks R) (t : Task)

/-- A width and a height. -/
def size : R :=
  B.transact (B.andThen (B.number t) (B.andThen (B.literal "x") (B.number t)))

/-- Writes a reference to an image. -/
def writeImage (index : Int) : R :=
  B.andThen (B.emit t.expression (.number index)) (B.emit t.expression (.tag .image))

/-- Writes a reference to an image, if it exists, whose index stands at an offset. -/
def checkedImage (start : Nat) (index : Int) : R :=
  match t.limits.imageCount with
  | some count =>
    if count ≤ index then
      B.stop (.rejected (.indexOutOfRange t.expression start index count))
    else B.writeImage t index
  | none => B.writeImage t index

/-- One digit, the index of an image. -/
def imageRef : R :=
  B.transact (B.place fun start => B.digit fun index => B.checkedImage t start index)

/-- A step with brackets: its two letters, the argument, and at last its tag. -/
def call (tag : Tag) (argument : R) : R :=
  B.andThen (B.literal (tag.mnemonic ++ "("))
    (B.andThen argument (B.andThen (B.literal ")") (B.emit t.expression (.tag tag))))

/-- A step that fits the picture into a box. -/
def fit : R := B.transact (B.call t .fit (B.size t))

/-- A step that fills a box with the picture. -/
def fill : R := B.transact (B.call t .fill (B.size t))

/-- A step that blurs the picture. -/
def blur : R := B.transact (B.call t .blur (B.number t))

/-- A step that draws the picture of an expression, which `inner` reads. -/
def overlayOf (inner : R) : R := B.transact (B.call t .overlay inner)

/-- A step, with `inner` for the expressions inside brackets. -/
def stepOf (inner : R) : R :=
  B.transact (B.orElse (B.fit t) (B.orElse (B.fill t)
    (B.orElse (B.overlayOf t inner) (B.orElse (B.blur t) (B.imageRef t)))))

/-- A dot and a step. -/
def chainedStepOf (inner : R) : R :=
  B.transact (B.andThen (B.literal ".") (B.stepOf t inner))

/-- After a chained step: where it was an image reference, the words of its chain, which started at
a mark, give way to the reference. -/
def dropDeadChain (mark : Nat) : R :=
  B.get (-1) fun last =>
    if last = Tag.image.word then
      B.get (-2) fun index => B.andThen (B.rollback mark) (B.writeImage t index)
    else B.nothing

/-- What an expression consists of, after a mark was taken. -/
def chainOf (inner : R) (mark : Nat) : R :=
  B.andThen (B.imageRef t) (B.many (B.andThen (B.chainedStepOf t inner) (B.dropDeadChain t mark)))

/-- An expression, with `inner` for the expressions inside brackets. -/
def expressionOf (inner : R) : R :=
  B.transact (B.mark fun mark => B.chainOf t inner mark)

/-- An expression inside brackets, when `levels` more overlays may be opened. What is inside is only
put together once its place is known, so levels that no text comes to cost nothing. -/
def nestedExpression : (levels : Nat) → R
  | 0 => B.place fun start =>
    B.stop (.rejected (.tooDeep t.expression start t.limits.maxDepth))
  | levels + 1 => B.place fun _ => B.nested (B.expressionOf t (nestedExpression levels))

/-- An expression inside brackets, when as many overlays may be opened as the limit leaves. -/
def argument : R :=
  B.depth fun depth => B.nestedExpression t (t.limits.maxDepth - depth).toNat

/-- A step that draws the picture of an expression. -/
def overlay : R := B.overlayOf t (B.argument t)

/-- A step. -/
def step : R := B.stepOf t (B.argument t)

/-- A dot and a step. -/
def chainedStep : R := B.chainedStepOf t (B.argument t)

/-- An expression. -/
def expression : R := B.expressionOf t (B.argument t)

end GrammarBlocks

end Productions

/-! ## The grammar of rules -/

/-- Rules as blocks. -/
def Rule.blocks : GrammarBlocks Rule where
  convert digits next := next (Numeral.value? digits)
  stop := stop
  place := place
  digits := digits
  emit := emit
  transact := transact
  nothing := nothing
  literal := literal
  digit := digit
  andThen := andThen
  orElse := orElse
  many := many
  nested := nested
  depth := depth
  mark := mark
  rollback := rollback
  get := get

namespace Grammar

variable (t : Task)

/-- Blocks that give an answer and read nothing. -/
def verdict : NumeralBlocks (Except Fault Bool) where
  convert digits next := next (Numeral.value? digits)
  stop := .error

/-- Whether a run of digits stands for a number above a maximum. -/
def exceeds (digits : List Char) (maximum : Int) : Except Fault Bool :=
  verdict.exceeds digits maximum .ok

/-- Writing the value of a run of digits that starts at an offset. -/
def writeNumber (start : Nat) (run : List Char) : Rule :=
  Rule.blocks.writeNumber t start run

/-- A run of digits, as long as possible. -/
def number : Rule :=
  Rule.blocks.number t

/-- A width and a height. -/
def size : Rule :=
  Rule.blocks.size t

/-- Writing a reference to an image. -/
def writeImage (index : Int) : Rule :=
  Rule.blocks.writeImage t index

/-- Writing a reference to an image, if it exists, whose index stands at an offset. -/
def checkedImage (start : Nat) (index : Int) : Rule :=
  Rule.blocks.checkedImage t start index

/-- One digit, the index of an image. -/
def imageRef : Rule :=
  Rule.blocks.imageRef t

/-- A step with brackets. -/
def call (tag : Tag) (argument : Rule) : Rule :=
  Rule.blocks.call t tag argument

/-- A step that fits the picture into a box. -/
def fit : Rule :=
  Rule.blocks.fit t

/-- A step that fills a box with the picture. -/
def fill : Rule :=
  Rule.blocks.fill t

/-- A step that blurs the picture. -/
def blur : Rule :=
  Rule.blocks.blur t

/-- A step that draws the picture of an expression, which `inner` reads. -/
def overlayOf (inner : Rule) : Rule :=
  Rule.blocks.overlayOf t inner

/-- A step, with `inner` for the expressions inside brackets. -/
def stepOf (inner : Rule) : Rule :=
  Rule.blocks.stepOf t inner

/-- A dot and a step, with `inner` for the expressions inside brackets. -/
def chainedStepOf (inner : Rule) : Rule :=
  Rule.blocks.chainedStepOf t inner

/-- What follows a chained step. -/
def dropDeadChain (mark : Nat) : Rule :=
  Rule.blocks.dropDeadChain t mark

/-- An expression, with `inner` for the expressions inside brackets. -/
def expressionOf (inner : Rule) : Rule :=
  Rule.blocks.expressionOf t inner

/-- An expression inside brackets, when `levels` more overlays may be opened. -/
def nestedExpression (levels : Nat) : Rule :=
  Rule.blocks.nestedExpression t levels

/-- An expression inside brackets. -/
def argument : Rule :=
  Rule.blocks.argument t

/-- A step that draws the picture of an expression. -/
def overlay : Rule :=
  Rule.blocks.overlay t

/-- A step. -/
def step : Rule :=
  Rule.blocks.step t

/-- A dot and a step. -/
def chainedStep : Rule :=
  Rule.blocks.chainedStep t

/-- An expression. -/
def expression : Rule :=
  Rule.blocks.expression t

end Grammar

end Montage
