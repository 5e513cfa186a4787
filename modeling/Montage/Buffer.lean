import Montage.Number.Index
import Montage.Number.Numeral
import Montage.Tag

/-!
# The word buffer

A bounded, append-only store of words with tentative writes: a mark remembers the length, and
rolling back to it drops what was written since. Freezing ends all writing. Every change is noted in
a journal, in order. The main statements are `push_eq_ok_iff` and `words_rollback`, which say when a
change is accepted and which words it leaves.
-/

namespace Montage

/-- What is written to a buffer: a plain number, or a tag standing for its word. -/
inductive Word where
  /-- An operand. -/
  | number (value : Int)
  /-- The tag that closes an operation. -/
  | tag (tag : Tag)
  deriving DecidableEq, Repr

namespace Word

/-- The number that is stored. -/
def code : Word → Int
  | number value => value
  | tag t => t.word

/-- How a written word is shown in the journal. -/
def label : Word → String
  | number value => toString value
  | tag t => t.label

end Word

/-- A finished expression: its words in postfix order, and the text they came from. -/
structure Encoded where
  /-- The words. -/
  words : Array Int
  /-- The text that was compiled, empty when there was none. -/
  source : String
  deriving DecidableEq, Repr

namespace Buffer

/-- One noted change of a buffer. -/
inductive Change where
  /-- A word was appended at an index. -/
  | put (word : Word) (index : Nat)
  /-- The last `count` words were dropped, back to the length `mark`. -/
  | undo (count mark : Nat)
  deriving DecidableEq, Repr

/-- Why a buffer refuses a request. -/
inductive Fault where
  /-- A buffer needs room for at least one word. -/
  | capacity (capacity : Int)
  /-- There is no room for another word. -/
  | full (capacity : Nat)
  /-- A frozen buffer accepts no word. -/
  | frozenPush
  /-- A frozen buffer cannot be rolled back. -/
  | frozenRollback
  /-- The mark lies outside the words that the buffer holds. -/
  | mark (mark : Int) (length : Nat)
  deriving DecidableEq, Repr

/-- The text about a buffer of a capacity that is used up. -/
def overflow (capacity : Int) : String :=
  s!"encode buffer capacity of {capacity} words exceeded"

/-- The text of a fault. A number that was asked for and has no numeral is a fault of its own. -/
def Fault.message : Fault → String
  | capacity c => worded c fun shown => s!"Buffer capacity must be positive, got {shown}."
  | full c => overflow c
  | frozenPush => "Cannot push to a frozen encode buffer."
  | frozenRollback => "Cannot roll back a frozen encode buffer."
  | mark m n => worded m fun shown => s!"Invalid rollback mark {shown} for buffer of length {n}."
where
  /-- A text about a number. -/
  worded (number : Int) (text : String → String) : String :=
    match Numeral.written number with
    | .ok shown => text shown
    | .error fault => fault.message

end Buffer

/-- A bounded store of words. -/
structure Buffer where
  /-- The most words that the buffer holds. -/
  capacity : Nat
  /-- The words, first written first. -/
  words : Array Int
  /-- Whether writing has ended. -/
  frozen : Bool
  /-- The changes so far, first made first. -/
  journal : Array Buffer.Change
  deriving DecidableEq, Repr

namespace Buffer

/-- An empty buffer of a given capacity, which must be positive. -/
def create (capacity : Int) : Except Fault Buffer :=
  if capacity ≤ 0 then .error (.capacity capacity)
  else .ok ⟨capacity.toNat, #[], false, #[]⟩

/-- The number of words. -/
def size (b : Buffer) : Nat :=
  b.words.size

/-- Appends one word. -/
def push (b : Buffer) (w : Word) : Except Fault Buffer :=
  if b.frozen then .error .frozenPush
  else if b.capacity ≤ b.size then .error (.full b.capacity)
  else .ok { b with
    words := b.words.push w.code
    journal := b.journal.push (.put w b.size) }

/-- The current length, to be handed to `rollback` later. -/
def mark (b : Buffer) : Nat :=
  b.size

/-- Drops the words written since a mark was taken; at the current length nothing changes. -/
def rollback (b : Buffer) (mark : Int) : Except Fault Buffer :=
  if b.frozen then .error .frozenRollback
  else if mark < 0 ∨ (b.size : Int) < mark then .error (.mark mark b.size)
  else if mark.toNat < b.size then .ok { b with
    words := b.words.take mark.toNat
    journal := b.journal.push (.undo (b.size - mark.toNat) mark.toNat) }
  else .ok b

/-- Ends all writing and hands out the words. -/
def freeze (b : Buffer) (source : String) : Encoded × Buffer :=
  (⟨b.words, source⟩, { b with frozen := true })

/-- The word at an index. -/
def get (b : Buffer) (index : Int) : Except Index.Fault Int :=
  (Index.place b.words.size index).map fun i => b.words[i]

/-- The short description of a buffer. -/
def summary (b : Buffer) : String :=
  s!"EncodeBuffer(len={b.size}, capacity={b.capacity})"

/-- The text of a noted change. -/
def Change.message : Change → String
  | put w i => "PUT " ++ w.label ++ s!" @{i}"
  | undo k m => s!"UNDO {k} word(s) back to @{m}"

/-- A push is accepted exactly when the buffer is open and has room, and then the word is last. -/
theorem push_eq_ok_iff {b b' : Buffer} {w : Word} :
    b.push w = .ok b' ↔
      b.frozen = false ∧ b.size < b.capacity ∧
        b' = { b with
          words := b.words.push w.code
          journal := b.journal.push (.put w b.size) } := by
  unfold push
  split
  · rename_i hfrozen
    simp [hfrozen]
  · rename_i hopen
    split
    · rename_i hfull
      constructor
      · intro h
        cases h
      · rintro ⟨-, hroom, -⟩
        omega
    · rename_i hroom
      constructor
      · intro h
        exact ⟨by simpa using hopen, by omega, (Except.ok.inj h).symm⟩
      · rintro ⟨-, -, rfl⟩
        rfl

/-- A rollback that is accepted had a mark within the length, and leaves the words up to it. -/
theorem words_rollback {b b' : Buffer} {m : Int} (h : b.rollback m = .ok b') :
    0 ≤ m ∧ m ≤ b.size ∧ b'.words = b.words.take m.toNat := by
  unfold rollback at h
  split at h
  · simp at h
  · split at h
    · simp at h
    · rename_i hm
      rw [not_or] at hm
      refine ⟨by omega, by omega, ?_⟩
      split at h
      · rw [← Except.ok.inj h]
      · rw [← Except.ok.inj h, Array.take_eq_extract, Array.extract_eq_self_of_le]
        simp only [size] at *
        omega

end Buffer

end Montage
