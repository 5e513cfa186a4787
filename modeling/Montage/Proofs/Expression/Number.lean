import Mathlib.Algebra.Group.Nat.Defs
import Montage.Proofs.Expression.Blocks
import Montage.Proofs.Expression.Reads
import Montage.Proofs.Text.Numerals
import Montage.Expression.Chain
import Montage.Settings

/-!
# Numbers and their maximum

A run of digits is held to the maximum before it is read: more digits than the numeral of the
maximum has, superfluous zeros apart, stand for a number above it. `exceeds_eq_ok` says that the
answer is the right one whenever the maximum has a numeral that can be read itself. Every maximum
that is read from an environment is of this kind (`legible_limits_load`).
-/

namespace Montage

namespace Numeral

/-- Zeros at the start do not change a number. -/
theorem ofDigitChars_dropWhile (run : List Char) :
    Nat.ofDigitChars 10 (run.dropWhile (· == '0')) 0 = Nat.ofDigitChars 10 run 0 := by
  induction run with
  | nil => rfl
  | cons c run ih =>
    by_cases hc : c = '0'
    · subst hc
      rw [List.dropWhile_cons_of_pos (by rfl), ih, Nat.ofDigitChars_cons]
      rfl
    · rw [List.dropWhile_cons_of_neg (by simpa using hc)]

/-- A run without its superfluous zeros stands for the same number. -/
theorem ofDigitChars_stripZeros (run : List Char) :
    Nat.ofDigitChars 10 (stripZeros run) 0 = Nat.ofDigitChars 10 run 0 := by
  rw [← ofDigitChars_dropWhile run, stripZeros]
  split
  · rename_i hnil
    rw [hnil]
    rfl
  · rfl

/-- A digit stands for a number below ten. -/
theorem digit_lt_ten {c : Char} (h : c.isDigit = true) : c.toNat - '0'.toNat < 10 := by
  have hhigh := (Char.isDigit_iff_toNat.1 h).2
  have : '9'.toNat = 57 := rfl
  have : '0'.toNat = 48 := rfl
  omega

/-- What is left of a run without the zeros at its start begins with another digit. -/
theorem digit_pos_of_dropWhile {run cs : List Char} {c : Char}
    (hrun : ∀ c ∈ run, c.isDigit = true) (hdrop : run.dropWhile (· == '0') = c :: cs) :
    c.isDigit = true ∧ 0 < c.toNat - '0'.toNat := by
  have hne : c ≠ '0' := by
    have := List.head_dropWhile_not (p := (· == '0')) (l := run) (by simp [hdrop])
    simpa [hdrop] using this
  have hdigit : c.isDigit = true :=
    hrun c ((List.dropWhile_suffix _).subset (hdrop ▸ List.mem_cons_self))
  have hzero : c.toNat ≠ '0'.toNat := fun heq => hne (Char.toNat_inj.1 heq)
  have := (Char.isDigit_iff_toNat.1 hdigit).1
  exact ⟨hdigit, by omega⟩

/-- The digits behind a number make it at most as large as if they were all nines. -/
theorem ofDigitChars_lt {run : List Char} (hrun : ∀ c ∈ run, c.isDigit = true) (init : Nat) :
    Nat.ofDigitChars 10 run init < (init + 1) * Nat.pow 10 run.length := by
  induction run generalizing init with
  | nil => simp
  | cons c run ih =>
    have hdigit := digit_lt_ten (hrun c List.mem_cons_self)
    have hstep : 10 * init + (c.toNat - '0'.toNat) + 1 ≤ (init + 1) * 10 := by omega
    -- A digit moves what was read so far up by one place.
    calc Nat.ofDigitChars 10 (c :: run) init
        = Nat.ofDigitChars 10 run (10 * init + (c.toNat - '0'.toNat)) := Nat.ofDigitChars_cons
      _ < (10 * init + (c.toNat - '0'.toNat) + 1) * Nat.pow 10 run.length :=
        ih (fun d hd => hrun d (List.mem_cons_of_mem c hd)) _
      _ ≤ (init + 1) * 10 * Nat.pow 10 run.length := Nat.mul_le_mul_right _ hstep
      _ = (init + 1) * Nat.pow 10 (c :: run).length := by
        rw [Nat.mul_assoc, Nat.mul_comm 10]
        rfl

/-- A number is below the numbers that have more digits, superfluous zeros apart. -/
theorem lt_of_length_repr_lt {run : List Char} {m : Nat} (hrun : ∀ c ∈ run, c.isDigit = true)
    (hlength : m.repr.length < (stripZeros run).length) : m < Nat.ofDigitChars 10 run 0 := by
  have hpos : 0 < m.repr.length := Nat.length_repr_pos
  have hlt : m < 10 ^ m.repr.length := (Nat.length_repr_le_iff hpos).1 (Nat.le_refl _)
  rw [← ofDigitChars_dropWhile run]
  cases hdrop : run.dropWhile (· == '0') with
  | nil =>
    simp only [stripZeros, hdrop, List.length_cons, List.length_nil] at hlength
    omega
  | cons c cs =>
    simp only [stripZeros, hdrop, List.length_cons] at hlength
    have hvalue := (digit_pos_of_dropWhile hrun hdrop).2
    rw [Nat.ofDigitChars_cons, Nat.ofDigitChars_eq_ofDigitChars_zero]
    -- The first digit alone is worth more than all numbers with fewer digits.
    calc m < 10 ^ m.repr.length := hlt
      _ ≤ 10 ^ cs.length := Nat.pow_le_pow_right (by omega) (by omega)
      _ ≤ 10 ^ cs.length * (10 * 0 + (c.toNat - '0'.toNat)) :=
        Nat.le_mul_of_pos_right _ (by omega)
      _ ≤ _ := Nat.le_add_right _ _

/-- An integer of fewer digits than a number has is below it. -/
theorem lt_of_length_decimal_lt {run : List Char} {maximum : Int}
    (hrun : ∀ c ∈ run, c.isDigit = true)
    (hlength : (toString maximum).length < (stripZeros run).length) :
    maximum < Nat.ofDigitChars 10 run 0 := by
  -- The sign of a negative maximum would count as a digit, but no number is below it.
  by_cases hsign : maximum < 0
  · omega
  · have hshown : (toString maximum).length = maximum.toNat.repr.length := by
      rw [Int.toString_eq_repr, Int.repr_eq_if, if_pos (by omega)]
    have hlt := lt_of_length_repr_lt hrun (hshown ▸ hlength)
    omega

/-- Whoever can read the numeral of an integer with its sign can also write the integer. -/
theorem written_eq_ok_of_length {n : Int} (h : (decimal n).length ≤ longest) :
    written n = .ok (toString n) := by
  refine written_eq_ok_iff.2 ⟨Nat.le_trans ?_ h, rfl⟩
  cases n with
  | ofNat k => exact Nat.le_refl _
  | negSucc k =>
    show ((k + 1).repr).toList.length ≤ ("-" ++ (k + 1).repr).toList.length
    simp

end Numeral

/-- The numeral of the maximum, with its sign, is not too long to be read. -/
def Limits.Legible (limits : Limits) : Prop :=
  (Numeral.decimal limits.maxNumber).length ≤ Numeral.longest

instance (limits : Limits) : Decidable limits.Legible :=
  inferInstanceAs (Decidable (_ ≤ _))

/-- A maximum with fewer digits than can be read is legible, whatever its sign. -/
theorem Limits.legible_of_length_lt {limits : Limits}
    (h : (Numeral.decimal limits.maxNumber.natAbs).length < Numeral.longest) :
    limits.Legible := by
  unfold Legible
  cases hmaximum : limits.maxNumber with
  | ofNat n =>
    rw [hmaximum] at h
    exact Nat.le_of_lt h
  | negSucc n =>
    rw [hmaximum] at h
    rw [Numeral.decimal, Numeral.toList_toString_negSucc, List.length_cons]
    exact h

namespace Grammar

variable {run : List Char} {maximum : Int}

/-- A run of digits is compared by its length, or by its value, or not at all. -/
theorem exceeds_cases (digits : List Char) (maximum : Int) :
    (∃ cause, exceeds digits maximum = .error (.numeral cause)) ∨
      ((toString maximum).length < digits.length ∧ exceeds digits maximum = .ok true) ∨
      ∃ n, Numeral.value? digits = some n ∧
        exceeds digits maximum = .ok (decide (maximum < n)) := by
  simp only [exceeds, NumeralBlocks.exceeds, verdict]
  cases hshown : Numeral.written maximum with
  | error cause => exact .inl ⟨cause, rfl⟩
  | ok shown =>
    obtain ⟨-, rfl⟩ := Numeral.written_eq_ok_iff.1 hshown
    by_cases hlength : (toString maximum).length < digits.length
    · exact .inr (.inl ⟨hlength, if_pos hlength⟩)
    · simp only [if_neg hlength]
      cases hvalue : Numeral.value? digits with
      | none => exact .inl ⟨_, rfl⟩
      | some n => exact .inr (.inr ⟨n, rfl, rfl⟩)

/-- A run that is found to be no larger than the maximum can be read. -/
theorem value?_of_exceeds (h : exceeds (Numeral.stripZeros run) maximum = .ok false) :
    Numeral.value? (Numeral.stripZeros run) = some (Nat.ofDigitChars 10 run 0) := by
  obtain ⟨_, herror⟩ | ⟨-, habove⟩ | ⟨n, hvalue, -⟩ :=
    exceeds_cases (Numeral.stripZeros run) maximum
  · cases herror.symm.trans h
  · cases habove.symm.trans h
  · obtain ⟨hlength, -⟩ := Numeral.value?_eq_some_iff.1 hvalue
    exact Numeral.value?_eq_some_iff.2 ⟨hlength, Numeral.ofDigitChars_stripZeros run⟩

/-- A run that is found to be too large stands for a number above the maximum. -/
theorem lt_of_exceeds (hrun : ∀ c ∈ run, c.isDigit = true)
    (h : exceeds (Numeral.stripZeros run) maximum = .ok true) :
    maximum < Nat.ofDigitChars 10 run 0 := by
  obtain ⟨_, herror⟩ | ⟨hlength, -⟩ | ⟨n, hvalue, hdecided⟩ :=
    exceeds_cases (Numeral.stripZeros run) maximum
  · cases herror.symm.trans h
  · exact Numeral.lt_of_length_decimal_lt hrun hlength
  · obtain ⟨-, rfl⟩ := Numeral.value?_eq_some_iff.1 hvalue
    rw [Numeral.ofDigitChars_stripZeros, h] at hdecided
    exact of_decide_eq_true (Except.ok.inj hdecided).symm

/-- A run of digits is found to exceed a legible maximum exactly when its number does. -/
theorem exceeds_eq_ok (hrun : ∀ c ∈ run, c.isDigit = true)
    (hlegible : (Numeral.decimal maximum).length ≤ Numeral.longest) :
    exceeds (Numeral.stripZeros run) maximum =
      .ok (decide (maximum < Nat.ofDigitChars 10 run 0)) := by
  simp only [exceeds, NumeralBlocks.exceeds, verdict, Numeral.written_eq_ok_of_length hlegible]
  split
  · rename_i hlength
    simp [Numeral.lt_of_length_decimal_lt hrun hlength]
  · rename_i hlength
    -- The run has no more digits than the maximum shows, so it can be read as well.
    have hshort : (Numeral.stripZeros run).length ≤ Numeral.longest := by
      rw [Numeral.decimal, String.length_toList] at hlegible
      omega
    rw [Numeral.value?_eq_some_iff.2 ⟨hshort, Numeral.ofDigitChars_stripZeros run⟩]

/-- A legible maximum is compared with the value of a number. -/
theorem exceeds_eq_decide {limits : Limits} (hlegible : limits.Legible) (number : Digits) :
    exceeds (Numeral.stripZeros number.run) limits.maxNumber =
      .ok (decide (limits.maxNumber < number.value)) :=
  exceeds_eq_ok number.isDigit_of_mem hlegible

/-- With a legible maximum, a number is found not to be above it exactly where it is not. -/
theorem exceeds_eq_false_iff {limits : Limits} (hlegible : limits.Legible) {number : Digits} :
    exceeds (Numeral.stripZeros number.run) limits.maxNumber = .ok false ↔
      (number.value : Int) ≤ limits.maxNumber := by
  rw [exceeds_eq_decide hlegible, Except.ok.injEq, decide_eq_false_iff_not]
  exact Int.not_lt

/-- The comparison fails only where the numeral of the maximum cannot be read. -/
theorem exists_of_exceeds_eq_error {fault : Fault} (hrun : ∀ c ∈ run, c.isDigit = true)
    (h : exceeds (Numeral.stripZeros run) maximum = .error fault) :
    (∃ cause, fault = .numeral cause) ∧ Numeral.longest < (Numeral.decimal maximum).length := by
  constructor
  · obtain ⟨cause, herror⟩ | ⟨-, habove⟩ | ⟨n, -, hdecided⟩ :=
      exceeds_cases (Numeral.stripZeros run) maximum
    · exact ⟨cause, Except.error.inj (h.symm.trans herror)⟩
    · cases habove.symm.trans h
    · cases hdecided.symm.trans h
  · refine Nat.lt_of_not_le fun hlegible => ?_
    rw [exceeds_eq_ok hrun hlegible] at h
    cases h

end Grammar

/-! ## Writing a number -/

/-- Blocks that convert a run of digits by reading it, and do nothing else. -/
def NumeralBlocks.IsPlain {R : Type} (B : NumeralBlocks R) : Prop :=
  ∀ digits next, B.convert digits next = next (Numeral.value? digits)

/-- Rules are plain blocks. -/
theorem Rule.isPlain_blocks : Rule.blocks.IsPlain := fun _ _ => rfl

/-- Blocks that go on with a verdict, or stop without one. -/
def NumeralBlocks.follow {R : Type} (B : NumeralBlocks R) (next : Bool → R) :
    Except Fault Bool → R
  | .ok above => next above
  | .error fault => B.stop fault

/-- Plain blocks that compare a run of digits with a maximum go on with the verdict. -/
theorem NumeralBlocks.IsPlain.exceeds_eq {R : Type} {B : NumeralBlocks R} (hB : B.IsPlain)
    (digits : List Char) (maximum : Int) (next : Bool → R) :
    B.exceeds digits maximum next = B.follow next (Grammar.exceeds digits maximum) :=
  have hmap : Grammar.verdict.Map B (B.follow next) :=
    ⟨fun digits answer => (hB digits fun value => B.follow next (answer value)).symm,
      fun _ => rfl⟩
  (hmap.map_exceeds digits maximum .ok).symm

namespace NumeralBlocks.IsPlain

variable {R : Type} {B : NumberBlocks R} (hB : B.IsPlain) {t : Task} {start : Nat}
  {run : List Char} {fault : Fault}

include hB

/-- Without a verdict on a run of digits nothing is written. -/
theorem writeNumber_of_error
    (h : Grammar.exceeds (Numeral.stripZeros run) t.limits.maxNumber = .error fault) :
    B.writeNumber t start run = B.stop fault := by
  rw [NumberBlocks.writeNumber, hB.exceeds_eq, h, NumeralBlocks.follow]

/-- A number above the maximum is not written. -/
theorem writeNumber_of_above
    (h : Grammar.exceeds (Numeral.stripZeros run) t.limits.maxNumber = .ok true) :
    B.writeNumber t start run =
      B.stop (.rejected (.numberTooLarge t.expression start t.limits.maxNumber)) := by
  rw [NumberBlocks.writeNumber, hB.exceeds_eq, h, NumeralBlocks.follow]

/-- A number within the maximum is written. -/
theorem writeNumber_of_within
    (h : Grammar.exceeds (Numeral.stripZeros run) t.limits.maxNumber = .ok false) :
    B.writeNumber t start run = B.emit t.expression (.number (Nat.ofDigitChars 10 run 0)) := by
  rw [NumberBlocks.writeNumber, hB.exceeds_eq, h, NumeralBlocks.follow]
  simp only [hB _, Grammar.value?_of_exceeds h]

end NumeralBlocks.IsPlain

/-! ## The maximum of the settings -/

namespace Numeral

/-- A number that is read from a run of digits has no more digits than can be written. -/
theorem length_repr_of_value? {run : List Char} {n : Nat} (hrun : ∀ c ∈ run, c.isDigit = true)
    (h : value? run = some n) : n.repr.length ≤ longest := by
  obtain ⟨hlength, rfl⟩ := value?_eq_some_iff.1 h
  have hlt : Nat.ofDigitChars 10 run 0 < Nat.pow 10 run.length := by
    simpa using ofDigitChars_lt hrun 0
  cases run with
  | nil => decide
  | cons c run => exact Nat.le_trans ((Nat.length_repr_le_iff (Nat.succ_pos _)).2 hlt) hlength

/-- Underscores between the digits do not make a number longer. -/
theorem length_repr_of_readSpaced? {body : List Char} {n : Nat} (h : readSpaced? body = some n) :
    n.repr.length ≤ longest := by
  unfold readSpaced? at h
  split at h
  · exact length_repr_of_value? (fun c hc => (List.mem_filter.1 hc).2) h
  · cases h

/-- The number in a setting can be written without its sign. -/
theorem length_repr_of_readInteger? {s : String} {n : Int} (h : readInteger? s = some n) :
    n.natAbs.repr.length ≤ longest := by
  have hsigned {text : List Char} (h : readSigned? text = some n) :
      n.natAbs.repr.length ≤ longest := by
    unfold readSigned? at h
    split at h <;> obtain ⟨m, hm, rfl⟩ := Option.map_eq_some_iff.1 h
    · obtain ⟨k, hk, hcast⟩ := Option.bind_eq_some_iff.1 hm
      obtain rfl := Option.some.inj hcast
      rw [Int.natAbs_neg, Int.natAbs_natCast]
      exact length_repr_of_readSpaced? hk
    · exact length_repr_of_readSpaced? hm
    · exact length_repr_of_readSpaced? hm
  exact hsigned h

end Numeral

/-- A limit that is read from the environment is legible if the value that it replaces is. -/
theorem legible_readPositive {name : String} {raw : Option String} {default : Int}
    (hdefault : (Numeral.decimal default).length ≤ Numeral.longest) :
    (Numeral.decimal (readPositive name raw default).1).length ≤ Numeral.longest := by
  unfold readPositive
  dsimp only
  split
  · exact hdefault
  · split
    · exact hdefault
    · rename_i n hread
      split
      · exact hdefault
      · -- A positive number has no sign, so its numeral has as many characters as digits.
        rename_i hpositive
        have hlength := Numeral.length_repr_of_readInteger? hread
        have hshown : toString n = n.natAbs.repr := by
          rw [Int.toString_eq_repr, Int.repr_eq_if, if_pos (by omega)]
          congr 1
          omega
        rwa [Numeral.decimal, hshown, String.length_toList]

/-- Whatever the environment holds, the maximum of the settings is legible. -/
theorem Settings.legible_limits_load (env : String → Option String) (imageCount : Option Int) :
    ((Settings.load env).1.limits imageCount).Legible :=
  legible_readPositive (show (Numeral.decimal 2147483647).length ≤ Numeral.longest by decide)

end Montage
