import Montage.Text.Quoted
import Mathlib.Tactic.SplitIfs

/-!
# Texts on one line

A text that holds no line end stays on the line that it is written on. Numerals have none, and text
between quotes has none either, because its line ends are escaped (`isLine_quote`). A text that is
put together has a line end exactly where one of its parts has one (`isLine_append`,
`isLine_intercalate`).
-/

namespace Montage.Text

variable {s t : String}

/-- A text without a line end. -/
def IsLine (s : String) : Prop :=
  '\n' ∉ s.toList

instance (s : String) : Decidable (IsLine s) :=
  inferInstanceAs (Decidable ('\n' ∉ s.toList))

theorem isLine_append : IsLine (s ++ t) ↔ IsLine s ∧ IsLine t := by
  unfold IsLine
  rw [String.toList_append, List.mem_append, not_or]

/-- Texts in a row are on one line if each of them is. -/
theorem isLine_intercalate (hs : IsLine s) {parts : List String} :
    IsLine (s.intercalate parts) ↔ ∀ part ∈ parts, IsLine part := by
  induction parts with
  | nil => simp [IsLine]
  | cons part parts ih =>
    cases parts with
    | nil => simp
    | cons next parts =>
      rw [String.intercalate_cons_cons]
      simp only [isLine_append, List.forall_mem_cons, hs, ih, and_true]

theorem isLine_char {c : Char} : IsLine (toString c) ↔ c ≠ '\n' := by
  have hchar : (toString c).toList = [c] := String.toList_singleton c
  rw [IsLine, hchar, List.mem_singleton, ne_comm]

/-- A numeral is on one line. -/
theorem isLine_nat (n : Nat) : IsLine (toString n) := by
  intro h
  rw [Nat.toString_eq_repr, Nat.toList_repr] at h
  exact absurd (Nat.isDigit_of_mem_toDigits (by decide) (by decide) h) (by decide)

theorem isLine_int (n : Int) : IsLine (toString n) := by
  cases n with
  | ofNat n => exact isLine_nat n
  | negSucc n =>
    have hminus : IsLine "-" := by decide
    exact isLine_append.2 ⟨hminus, isLine_nat _⟩

/-! ## Quoted text -/

theorem not_mem_hexDigits (width n : Nat) : '\n' ∉ hexDigits width n := by
  unfold hexDigits
  rw [List.mem_map]
  rintro ⟨i, -, hdigit⟩
  have hlt := Nat.mod_lt (n >>> (4 * i)) (show 16 > 0 by decide)
  revert hdigit
  generalize n >>> (4 * i) % 16 = digit at hlt
  revert digit
  decide

/-- No character is written with a line end, unless the quote is one. -/
theorem not_mem_escapeChar {quote : Char} (hquote : quote ≠ '\n') (c : Char) :
    '\n' ∉ escapeChar quote c := by
  have hcode (letter : Char) (width : Nat) (hletter : letter ≠ '\n') :
      '\n' ∉ '\\' :: letter :: hexDigits width c.toNat := by
    simp only [List.mem_cons, not_or]
    exact ⟨by decide, hletter.symm, not_mem_hexDigits width c.toNat⟩
  by_cases hc : c = '\n'
  · -- The line end itself is written with a letter.
    subst hc
    simp [escapeChar, hquote.symm]
  · have hother : '\n' ∉ [c] := by simpa using Ne.symm hc
    unfold escapeChar
    split_ifs
    · simpa using Ne.symm hc
    · decide
    · decide
    · decide
    · exact hother
    · exact hcode 'x' 2 (by decide)
    · exact hcode 'u' 4 (by decide)
    · exact hcode 'U' 8 (by decide)

/-- Text between quotes is on one line. -/
theorem isLine_quote (s : String) : IsLine (quote s) := by
  have hmark : quoteFor s.toList ≠ '\n' := by
    unfold quoteFor
    split <;> decide
  unfold IsLine quote
  rw [String.toList_ofList]
  simp only [List.cons_append, List.mem_cons, List.mem_append, List.mem_flatMap,
    List.not_mem_nil, or_false, not_or, not_exists, not_and]
  exact ⟨hmark.symm, fun c _ => not_mem_escapeChar hmark c, hmark.symm⟩

end Montage.Text
