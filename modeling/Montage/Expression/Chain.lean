import Montage.Expression.Node

/-!
# The text of an expression as a tree

A `Chain` is the syntax tree of an expression: an image reference followed by steps, nested to the
left, so that the last step is the root. Unlike a `Node` it keeps the digits of its numbers as they
were written, and image references among the steps. `text` writes it out again, `prune` is the tree
of operations that it stands for: an image reference among the steps discards what stands before it.
-/

namespace Montage

/-- A non-empty run of digits. -/
structure Digits where
  /-- The characters. -/
  run : List Char
  /-- There is at least one. -/
  run_ne_nil : run ≠ []
  /-- All of them are digits. -/
  isDigit_of_mem : ∀ c ∈ run, c.isDigit = true

/-- The number that a run of digits stands for. -/
def Digits.value (d : Digits) : Nat :=
  Nat.ofDigitChars 10 d.run 0

/-- The digits at the start of a text are a run, if there are any. -/
theorem Digits.exists_of_takeWhile {text : List Char} (h : text.takeWhile Char.isDigit ≠ []) :
    ∃ number : Digits, text.takeWhile Char.isDigit = number.run :=
  ⟨⟨_, h, List.all_eq_true.1 List.all_takeWhile⟩, rfl⟩

/-- The syntax tree of an expression. -/
inductive Chain where
  /-- An image reference at the start. -/
  | root (index : Fin 10)
  /-- An image reference as a step. -/
  | image (before : Chain) (index : Fin 10)
  /-- A step with a box. -/
  | frame (how : Framing) (before : Chain) (width height : Digits)
  /-- A blurring step. -/
  | blur (before : Chain) (strength : Digits)
  /-- An overlay. -/
  | overlay (before argument : Chain)

namespace Chain

/-- The characters of an image reference. -/
def indexText (index : Fin 10) : List Char :=
  [Nat.digitChar index]

/-- The characters of a step with brackets, after its dot. -/
def callText (tag : Tag) (argument : List Char) : List Char :=
  tag.mnemonic.toList ++ '(' :: (argument ++ [')'])

/-- The text of an expression. -/
def text : Chain → List Char
  | root index => indexText index
  | image before index => before.text ++ '.' :: indexText index
  | frame how before width height =>
    before.text ++ '.' :: callText how.tag (width.run ++ 'x' :: height.run)
  | blur before strength => before.text ++ '.' :: callText .blur strength.run
  | overlay before argument => before.text ++ '.' :: callText .overlay argument.text

/-- The operations that an expression stands for. -/
def prune : Chain → Node
  | root index => .image index.val
  | image _ index => .image index.val
  | frame how before width height => .frame how before.prune width.value height.value
  | blur before strength => .blur before.prune strength.value
  | overlay before argument => .overlay before.prune argument.prune

/-- A text is an expression of the language when some syntax tree has it. -/
def Grammatical (s : String) : Prop :=
  ∃ c : Chain, c.text = s.toList

/-- No expression is empty. -/
theorem text_ne_nil (c : Chain) : c.text ≠ [] := by
  cases c <;> simp [text, indexText]

end Chain

/-- The run of a single digit. -/
def Digits.single (index : Fin 10) : Digits :=
  ⟨Chain.indexText index, List.cons_ne_nil _ _, by
    simp [Chain.indexText]⟩

end Montage
