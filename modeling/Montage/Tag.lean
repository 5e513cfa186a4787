/-!
# Operation tags

The closed set of operations that a compiled expression is made of. A tag closes the words of its
operation, so reading from the end a tag tells how many operand words stand before it. The main
statement, `ofWord?_eq_some_iff`, says that a word is read as a tag exactly when it is that tag's
word.
-/

namespace Montage

/-- An operation of a compiled expression. -/
inductive Tag where
  /-- Shrink the picture until it lies inside a box. -/
  | fit
  /-- Scale the picture until it covers a box. -/
  | fill
  /-- Draw another picture on the centre of this one. -/
  | overlay
  /-- Blur the picture. -/
  | blur
  /-- Take an input image. -/
  | image
  deriving DecidableEq, Repr

namespace Tag

/-- The word that stands for an operation. -/
def word : Tag → Int
  | fit => 0
  | fill => 1
  | overlay => 2
  | blur => 3
  | image => 4

/-- The operation that a word stands for. -/
def ofWord? : Int → Option Tag
  | 0 => some fit
  | 1 => some fill
  | 2 => some overlay
  | 3 => some blur
  | 4 => some image
  | _ => none

/-- The name of an operation in messages. -/
def name : Tag → String
  | fit => "FIT"
  | fill => "FILL"
  | overlay => "OVERLAY"
  | blur => "BLUR"
  | image => "IMAGE"

/-- The two letters that name an operation in an expression. -/
def mnemonic : Tag → String
  | fit => "ft"
  | fill => "fl"
  | overlay => "pi"
  | blur => "gb"
  | image => "id"

/-- How many operand words stand before the tag; none where the operand is an expression. -/
def arity : Tag → Option Nat
  | fit => some 2
  | fill => some 2
  | overlay => none
  | blur => some 1
  | image => some 1

/-- Whether the operand is an expression of its own. -/
def isNested (t : Tag) : Bool :=
  t.arity.isNone

/-- How a tag is written where its name and its word both matter. -/
def label (t : Tag) : String :=
  "<Tag." ++ t.name ++ ": " ++ toString t.word ++ ">"

/-- A tag's word is read as that tag. -/
@[simp]
theorem ofWord?_word (t : Tag) : ofWord? t.word = some t := by
  cases t <;> rfl

/-- Different tags have different words. -/
theorem word_inj {t t' : Tag} : t.word = t'.word ↔ t = t' := by
  cases t <;> cases t' <;> simp [word]

/-- A word is read as a tag exactly when it is that tag's word. -/
theorem ofWord?_eq_some_iff {w : Int} {t : Tag} : ofWord? w = some t ↔ w = t.word := by
  constructor
  · intro h
    unfold ofWord? at h
    split at h <;> cases h <;> rfl
  · rintro rfl
    exact ofWord?_word t

end Tag

end Montage
