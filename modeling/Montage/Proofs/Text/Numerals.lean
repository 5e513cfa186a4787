import Montage.Number.Numeral
import Mathlib.Algebra.Group.Nat.Defs

/-!
# Telling numerals apart

An integer is shown by digits, with a sign in front where it is negative, so different integers are
shown differently (`toString_inj`), and no other character gets into the text. How many digits there
are is known from the powers of ten (`writable_of_lt`, `not_writable_pow`).
-/

namespace Montage.Numeral

/-! ## Lengths -/

/-- A number of a few digits is writable. -/
theorem writable_of_lt {n : Int} {digits : Nat} (hpos : 0 < digits) (hdigits : digits ≤ longest)
    (h : n.natAbs < 10 ^ digits) : Writable n := by
  have hlength : (decimal n.natAbs).length ≤ digits := by
    rw [decimal, String.length_toList]
    exact (Nat.length_repr_le_iff hpos).2 h
  exact Nat.le_trans hlength hdigits

/-- A power of ten has a digit more than its exponent. -/
theorem longest_lt_length_decimal :
    longest < (decimal (10 ^ longest : Nat)).length := by
  have hpos : 0 < longest := by decide
  refine Nat.lt_of_not_le fun hle => ?_
  rw [decimal, String.length_toList] at hle
  exact Nat.lt_irrefl _ ((Nat.length_repr_le_iff hpos).1 hle)

/-- So it has no numeral, whatever its sign. -/
theorem not_writable_pow {n : Int} (h : n.natAbs = 10 ^ longest) : ¬ Writable n := by
  rw [Writable, h, Nat.not_le]
  exact longest_lt_length_decimal

/-! ## Characters -/

/-- A natural number is shown by digits. -/
theorem isDigit_of_mem_repr {n : Nat} {c : Char} (h : c ∈ n.repr.toList) : c.isDigit = true := by
  rw [Nat.toList_repr] at h
  exact Nat.isDigit_of_mem_toDigits (by decide) (by decide) h

/-- A negative integer is shown with its sign first. -/
theorem toList_toString_negSucc (n : Nat) :
    (toString (Int.negSucc n)).toList = '-' :: (n + 1).repr.toList := by
  show ("-" ++ (n + 1).repr).toList = _
  rw [String.toList_append]
  rfl

/-- An integer is shown by digits and perhaps a sign. -/
theorem isDigit_of_mem_toString {n : Int} {c : Char} (h : c ∈ (toString n).toList) :
    c.isDigit = true ∨ c = '-' := by
  cases n with
  | ofNat n => exact .inl (isDigit_of_mem_repr h)
  | negSucc n =>
    rw [toList_toString_negSucc, List.mem_cons] at h
    exact h.symm.imp_left isDigit_of_mem_repr

/-- A character that is no digit and no sign is not in a numeral. -/
theorem not_mem_toString {c : Char} (hdigit : c.isDigit = false) (hsign : c ≠ '-') (n : Int) :
    c ∉ (toString n).toList := by
  intro h
  obtain h | h := isDigit_of_mem_toString h
  · exact absurd h (by simp [hdigit])
  · exact hsign h

/-- Different natural numbers are shown differently. -/
theorem repr_inj {m n : Nat} : m.repr = n.repr ↔ m = n := by
  refine ⟨fun h => ?_, congrArg Nat.repr⟩
  have hvalue (k : Nat) : Nat.ofDigitChars 10 k.repr.toList 0 = k := by
    rw [Nat.toList_repr, Nat.ofDigitChars_toDigits (by decide) (by decide)]
  rw [← hvalue m, h, hvalue]

/-- Different integers are shown differently. -/
theorem toString_inj {m n : Int} : toString m = toString n ↔ m = n := by
  refine ⟨fun h => ?_, congrArg toString⟩
  -- Only a negative integer has a sign.
  have hsign (k l : Nat) : toString (Int.ofNat k) ≠ toString (Int.negSucc l) := by
    intro h
    have hmem : '-' ∈ k.repr.toList := by
      rw [show k.repr = toString (Int.negSucc l) from h, toList_toString_negSucc]
      exact List.mem_cons_self
    exact absurd (isDigit_of_mem_repr hmem) (by decide)
  cases m with
  | ofNat m =>
    cases n with
    | ofNat n => exact congrArg Int.ofNat (repr_inj.1 h)
    | negSucc n => exact absurd h (hsign m n)
  | negSucc m =>
    cases n with
    | ofNat n => exact absurd h.symm (hsign n m)
    | negSucc n =>
      have hlists := congrArg String.toList h
      rw [toList_toString_negSucc, toList_toString_negSucc, List.cons_inj_right,
        String.toList_inj, repr_inj] at hlists
      exact congrArg Int.negSucc (Nat.succ.inj hlists)

end Montage.Numeral
