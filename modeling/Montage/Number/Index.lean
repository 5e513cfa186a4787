/-!
# Indexes

An index names a place in a sequence: from 0 on it counts from the start, and below 0 from the end.
It has to fit into a signed word of 64 bits, however long the sequence is. The main statement,
`place_eq_ok_iff`, says which indexes name a place.
-/

namespace Montage.Index

/-- Why an index names no place. -/
inductive Fault where
  /-- The sequence ends before the place. -/
  | outOfRange
  /-- The index does not fit into a word. -/
  | tooLarge
  deriving DecidableEq, Repr

/-- The text of a fault; the sequence is named by its kind. -/
def Fault.message (sequence : String) : Fault → String
  | outOfRange => sequence ++ " index out of range"
  | tooLarge => "cannot fit 'int' into an index-sized integer"

/-- The least number above all words. -/
def wordBound : Int := 0x8000000000000000

/-- The number of places before the one that an index names. -/
def offset (length : Nat) (index : Int) : Int :=
  if index < 0 then index + length else index

/-- The place that an index names in a sequence. -/
def place (length : Nat) (index : Int) : Except Fault (Fin length) :=
  if index < -wordBound ∨ wordBound ≤ index then .error .tooLarge
  else if h : 0 ≤ offset length index ∧ (offset length index).toNat < length then
    .ok ⟨(offset length index).toNat, h.2⟩
  else .error .outOfRange

/-- An index counts to a place exactly when it is the number of that place, or falls short of it by
the length. -/
theorem offset_eq_iff {length : Nat} {index : Int} {i : Fin length} :
    offset length index = (i : Nat) ↔ index = (i : Nat) ∨ index = (i : Nat) - (length : Int) := by
  have hlt := i.isLt
  unfold offset
  split <;> omega

/-- An index names a place exactly when it fits into a word and counts up to that place. -/
theorem place_eq_ok_iff {length : Nat} {index : Int} {i : Fin length} :
    place length index = .ok i ↔
      (-wordBound ≤ index ∧ index < wordBound) ∧
        (index = (i : Nat) ∨ index = (i : Nat) - (length : Int)) := by
  have hlt := i.isLt
  rw [← offset_eq_iff]
  unfold place
  split
  · constructor
    · intro h
      cases h
    · intro h
      omega
  · split
    · rw [Except.ok.injEq, Fin.ext_iff]
      simp only
      omega
    · constructor
      · intro h
        cases h
      · intro h
        omega

end Montage.Index
