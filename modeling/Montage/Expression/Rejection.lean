import Montage.Number.Index
import Montage.Number.Numeral

/-!
# Rejected expressions

Why the text of an expression is refused: it breaks the grammar, or one of the limits. A rejection
names the text, the place and the reason; `message` puts them into words. Numbers in a description
may be too long to be written. The main statements, `isOk_locate` and `wording_eq_error_iff`, say
that a place inside or behind the text can be shown if its column can, and that a description has
words unless a number in it is too long.
-/

namespace Montage

namespace Rejection

/-- The kinds of rejection. -/
inductive Kind where
  /-- The text does not match the grammar. -/
  | ungrammatical
  /-- The words do not fit into the buffer. -/
  | tooLong
  /-- Overlays are nested too deeply. -/
  | tooDeep
  /-- A number is above the maximum. -/
  | numberTooLarge
  /-- An image reference names an image that is not there. -/
  | indexOutOfRange (index imageCount : Int)
  deriving DecidableEq, Repr

/-- A part of a description. -/
inductive Piece where
  /-- Words. -/
  | words (text : String)
  /-- A number. -/
  | number (value : Int)
  deriving DecidableEq, Repr

/-- Why a place in a text has no description. -/
inductive PlaceFault where
  /-- The text has no such place. -/
  | index (fault : Index.Fault)
  /-- The number of its column, or another number of the description, is too long. -/
  | column (fault : Numeral.Fault)
  /-- The place is not known. -/
  | unknown
  deriving DecidableEq, Repr

/-- The text of a fault. -/
def PlaceFault.message : PlaceFault → String
  | index fault => fault.message "string"
  | column fault => fault.message
  | unknown => "unsupported operand type(s) for +: 'NoneType' and 'int'"

end Rejection

/-- A refusal of an expression text. -/
structure Rejection where
  /-- What is wrong. -/
  kind : Rejection.Kind
  /-- The whole text. -/
  expression : String
  /-- Where it is wrong, as an offset into the text, if that is known. -/
  position : Option Int
  /-- A description; where it is empty the position is described instead. -/
  note : List Rejection.Piece
  deriving DecidableEq, Repr

namespace Rejection

/-- A number of a description. -/
def shown (n : Int) : Except PlaceFault String :=
  (Numeral.written n).mapError .column

/-- A description in words. -/
def wording : List Piece → Except PlaceFault String
  | [] => .ok ""
  | .words text :: rest => (wording rest).map (text ++ ·)
  | .number n :: rest => do
    let text ← shown n
    (wording rest).map (text ++ ·)

/-- Only a number that cannot be written is not shown. -/
theorem shown_eq_error_iff {n : Int} {fault : PlaceFault} :
    shown n = .error fault ↔ fault = .column .written ∧ ¬ Numeral.Writable n := by
  by_cases h : Numeral.Writable n
  · rw [shown, h.written_eq]
    exact ⟨nofun, fun hlong => absurd h hlong.2⟩
  · rw [shown, Numeral.written_eq_error_iff.2 ⟨rfl, h⟩]
    exact ⟨fun heq => ⟨(Except.error.inj heq).symm, h⟩, fun hwritten => congrArg _ hwritten.1.symm⟩

/-- A description has no words exactly if one of its numbers cannot be written. -/
theorem wording_eq_error_iff {note : List Piece} {fault : PlaceFault} :
    wording note = .error fault ↔
      fault = .column .written ∧ ∃ n, .number n ∈ note ∧ ¬ Numeral.Writable n := by
  have hbehind {rest : List Piece} {text : String} :
      (wording rest).map (text ++ ·) = .error fault ↔ wording rest = .error fault := by
    cases wording rest <;> simp [Except.map]
  induction note with
  | nil => simp [wording]
  | cons piece rest ih =>
    cases piece with
    | words text => simp [wording, hbehind, ih]
    | number n =>
      rw [wording]
      cases hshown : shown n with
      | error reason =>
        obtain ⟨rfl, hlong⟩ := shown_eq_error_iff.1 hshown
        simp only [bind, Except.bind, Except.error.injEq, List.mem_cons, Piece.number.injEq]
        exact ⟨fun h => ⟨h.symm, n, .inl rfl, hlong⟩, fun h => h.1.symm⟩
      | ok text =>
        have hshort : Numeral.Writable n := Decidable.of_not_not fun hlong => by
          rw [shown_eq_error_iff.2 ⟨rfl, hlong⟩] at hshown
          cases hshown
        simp only [bind, Except.bind, hbehind, ih, List.mem_cons, Piece.number.injEq]
        refine and_congr_right fun _ => ⟨fun ⟨m, hm, hlong⟩ => ⟨m, .inr hm, hlong⟩, ?_⟩
        rintro ⟨m, rfl | hm, hlong⟩
        · exact absurd hshort hlong
        · exact ⟨m, hm, hlong⟩

/-- The column of an offset; columns count from one. -/
def column (offset : Int) : Except PlaceFault String :=
  shown (offset + 1)

/-- The description of an offset: the character found there, or the end of the text. A negative
offset counts from the end, and no description exists for an offset before the start. -/
def locate (text : List Char) (offset : Int) : Except PlaceFault String :=
  if (text.length : Int) ≤ offset then
    (column offset).map fun column => s!"unexpected end of input at column {column}"
  else
    match Index.place text.length offset with
    | .error fault => .error (.index fault)
    | .ok place =>
      (column offset).map fun column => s!"unexpected '{text[place]}' at column {column}"

/-- In a text that is shorter than the indexes reach, an offset that is not before the start has a
description where its column has a number. -/
theorem isOk_locate {text : List Char} {offset : Nat} (hlength : text.length < Index.wordBound)
    (hcolumn : (column offset).isOk) : (locate text offset).isOk := by
  unfold locate
  obtain ⟨shown, hshown⟩ : ∃ shown, column offset = .ok shown := by
    cases h : column offset with
    | error fault => simp [h, Except.isOk, Except.toBool] at hcolumn
    | ok shown => exact ⟨shown, rfl⟩
  split
  · rw [hshown]
    rfl
  · rename_i hinside
    have hlt : offset < text.length := by omega
    have hplace : Index.place text.length offset = .ok ⟨offset, hlt⟩ := by
      rw [Index.place_eq_ok_iff]
      exact ⟨⟨by simp only [Index.wordBound]; omega, by omega⟩, .inl rfl⟩
    rw [hplace, hshown]
    rfl

/-- What is wrong, in words, unless the position or a number cannot be described. -/
def describe (r : Rejection) : Except PlaceFault String :=
  match r.note, r.position with
  | [], some offset => locate r.expression.toList offset
  | note, _ => wording note

/-- What is wrong, in words; empty where it cannot be described. -/
def detail (r : Rejection) : String :=
  r.describe.toOption.getD ""

/-- The text of a rejection. -/
def message (r : Rejection) : String :=
  let start := "illegal expression '" ++ r.expression ++ "'"
  if r.detail = "" then start else start ++ ": " ++ r.detail

/-- The text breaks the grammar at an offset. -/
def ungrammatical (expression : String) (position : Nat) : Rejection :=
  ⟨.ungrammatical, expression, some position, []⟩

/-- A digit at an offset names none of the images. -/
def indexOutOfRange (expression : String) (position index imageCount : Int) : Rejection :=
  ⟨.indexOutOfRange index imageCount, expression, some position,
    [.words "image index ", .number index, .words " at column ", .number (position + 1),
      .words " is out of range (", .number imageCount,
      .words (if imageCount = 1 then " image given)" else " images given)")]⟩

/-- A digit names none of the images. Its place must be known. -/
def indexOutOfRange? (expression : String) (position : Option Int) (index imageCount : Int) :
    Except PlaceFault Rejection :=
  match position with
  | some offset => .ok (indexOutOfRange expression offset index imageCount)
  | none => .error .unknown

/-- The number that starts at an offset is above the maximum. -/
def numberTooLarge (expression : String) (position : Nat) (maximum : Int) : Rejection :=
  ⟨.numberTooLarge, expression, some position,
    [.words "number at column ", .number (position + 1), .words " exceeds the maximum of ",
      .number maximum]⟩

/-- The overlay whose expression starts at an offset is nested too deeply. -/
def tooDeep (expression : String) (position : Nat) (maximum : Int) : Rejection :=
  ⟨.tooDeep, expression, some position,
    [.words "overlay nesting deeper than ", .number maximum, .words " levels at column ",
      .number (position + 1)]⟩

/-- The buffer is full when the text up to an offset has been read. -/
def tooLong (expression : String) (position : Nat) (reason : String) : Rejection :=
  ⟨.tooLong, expression, some position, [.words reason]⟩

end Rejection

end Montage
