import Montage.Expression.Grammar

/-!
# Maps of blocks

A map from some blocks to others that goes with each of them goes with the grammar too: it takes
what the grammar composes of the first blocks to what it composes of the second ones
(`GrammarBlocks.Map.map_expression`). So what holds between two kinds of blocks, one by one, holds
between their readings of every text.
-/

namespace Montage

variable {R Q : Type} {t : Task} {tag : Tag} {inner : R}

/-- A map goes with the blocks that compare a run of digits with a maximum. -/
structure NumeralBlocks.Map (B : NumeralBlocks R) (C : NumeralBlocks Q) (f : R → Q) : Prop where
  /-- It goes with conversions. -/
  convert : ∀ digits next, f (B.convert digits next) = C.convert digits fun value => f (next value)
  /-- It goes with stopping. -/
  stop : ∀ fault, f (B.stop fault) = C.stop fault

/-- A map goes with the blocks that read a number. -/
structure NumberBlocks.Map (B : NumberBlocks R) (C : NumberBlocks Q) (f : R → Q) : Prop extends
    toNumeralMap : NumeralBlocks.Map B.toNumeralBlocks C.toNumeralBlocks f where
  /-- It goes with looking at the offset. -/
  place : ∀ next, f (B.place next) = C.place fun start => f (next start)
  /-- It goes with reading digits. -/
  digits : ∀ next, f (B.digits next) = C.digits fun run => f (next run)
  /-- It goes with writing a word. -/
  emit : ∀ expression w, f (B.emit expression w) = C.emit expression w
  /-- It goes with taking everything back. -/
  transact : ∀ r, f (B.transact r) = C.transact (f r)

/-- A map goes with the blocks that read an expression. -/
structure GrammarBlocks.Map (B : GrammarBlocks R) (C : GrammarBlocks Q) (f : R → Q) : Prop extends
    toNumberMap : NumberBlocks.Map B.toNumberBlocks C.toNumberBlocks f where
  /-- It goes with matching at once. -/
  nothing : f B.nothing = C.nothing
  /-- It goes with fixed texts. -/
  literal : ∀ text, f (B.literal text) = C.literal text
  /-- It goes with reading a digit. -/
  digit : ∀ next, f (B.digit next) = C.digit fun index => f (next index)
  /-- It goes with sequences. -/
  andThen : ∀ r q, f (B.andThen r q) = C.andThen (f r) (f q)
  /-- It goes with alternatives. -/
  orElse : ∀ r q, f (B.orElse r q) = C.orElse (f r) (f q)
  /-- It goes with repetition. -/
  many : ∀ r, f (B.many r) = C.many (f r)
  /-- It goes with opening an overlay. -/
  nested : ∀ r, f (B.nested r) = C.nested (f r)
  /-- It goes with looking at the open overlays. -/
  depth : ∀ next, f (B.depth next) = C.depth fun depth => f (next depth)
  /-- It goes with marks. -/
  mark : ∀ next, f (B.mark next) = C.mark fun mark => f (next mark)
  /-- It goes with dropping words. -/
  rollback : ∀ mark, f (B.rollback mark) = C.rollback mark
  /-- It goes with looking at a word. -/
  get : ∀ index next, f (B.get index next) = C.get index fun w => f (next w)

/-- A map that goes with the blocks goes with the comparison. -/
theorem NumeralBlocks.Map.map_exceeds {B : NumeralBlocks R} {C : NumeralBlocks Q} {f : R → Q}
    (h : B.Map C f) (digits : List Char) (maximum : Int) (next : Bool → R) :
    f (B.exceeds digits maximum next) = C.exceeds digits maximum fun above => f (next above) := by
  unfold exceeds
  split
  · exact h.stop _
  · split
    · rfl
    · rw [h.convert]
      congr 1
      funext value
      cases value with
      | some n => rfl
      | none => exact h.stop _

namespace NumberBlocks.Map

variable {B : NumberBlocks R} {C : NumberBlocks Q} {f : R → Q} (h : B.Map C f)

include h

theorem map_writeNumber (start : Nat) (run : List Char) :
    f (B.writeNumber t start run) = C.writeNumber t start run := by
  unfold writeNumber
  rw [h.map_exceeds]
  congr 1
  funext above
  cases above with
  | true => exact h.stop _
  | false =>
    rw [h.convert]
    congr 1
    funext value
    cases value with
    | some n => exact h.emit _ _
    | none => exact h.stop _

theorem map_number : f (B.number t) = C.number t := by
  simp only [number, h.transact, h.place, h.digits, h.map_writeNumber]

end NumberBlocks.Map

namespace GrammarBlocks.Map

variable {B : GrammarBlocks R} {C : GrammarBlocks Q} {f : R → Q} (h : B.Map C f)

include h

theorem map_size : f (B.size t) = C.size t := by
  simp only [size, h.transact, h.andThen, h.literal, h.map_number]

theorem map_writeImage (index : Int) : f (B.writeImage t index) = C.writeImage t index := by
  simp only [writeImage, h.andThen, h.emit]

theorem map_imageRef : f (B.imageRef t) = C.imageRef t := by
  have hchecked (start : Nat) (index : Int) :
      f (B.checkedImage t start index) = C.checkedImage t start index := by
    unfold checkedImage
    split
    · split
      · exact h.stop _
      · exact h.map_writeImage _
    · exact h.map_writeImage _
  simp only [imageRef, h.transact, h.place, h.digit, hchecked]

theorem map_call : f (B.call t tag inner) = C.call t tag (f inner) := by
  simp only [call, h.andThen, h.literal, h.emit]

theorem map_stepOf : f (B.stepOf t inner) = C.stepOf t (f inner) := by
  simp only [stepOf, fit, fill, overlayOf, blur, h.transact, h.orElse, h.map_call, h.map_size,
    h.map_number, h.map_imageRef]

theorem map_chainedStepOf : f (B.chainedStepOf t inner) = C.chainedStepOf t (f inner) := by
  simp only [chainedStepOf, h.transact, h.andThen, h.literal, h.map_stepOf]

theorem map_dropDeadChain (mark : Nat) : f (B.dropDeadChain t mark) = C.dropDeadChain t mark := by
  unfold dropDeadChain
  rw [h.get]
  congr 1
  funext last
  split
  · simp only [h.get, h.andThen, h.rollback, h.map_writeImage]
  · exact h.nothing

/-- A map that goes with the blocks goes with expressions. -/
theorem map_expressionOf : f (B.expressionOf t inner) = C.expressionOf t (f inner) := by
  simp only [expressionOf, chainOf, h.transact, h.mark, h.andThen, h.many, h.map_imageRef,
    h.map_chainedStepOf, h.map_dropDeadChain]

/-- A map that goes with the blocks goes with the arguments of overlays. -/
theorem map_nestedExpression (levels : Nat) :
    f (B.nestedExpression t levels) = C.nestedExpression t levels := by
  induction levels with
  | zero => simp only [nestedExpression, h.place, h.stop]
  | succ levels ih => simp only [nestedExpression, h.place, h.nested, h.map_expressionOf, ih]

theorem map_argument : f (B.argument t) = C.argument t := by
  simp only [argument, h.depth, h.map_nestedExpression]

/-- A map that goes with the blocks goes with the whole grammar. -/
theorem map_expression : f (B.expression t) = C.expression t := by
  simp only [expression, h.map_expressionOf, h.map_argument]

end GrammarBlocks.Map

end Montage
