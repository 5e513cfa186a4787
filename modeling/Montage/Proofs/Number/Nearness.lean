import Montage.Number.Binary64
import Mathlib.Tactic.Linarith
import Mathlib.Tactic.Positivity
import Mathlib.Tactic.FieldSimp
import Mathlib.Tactic.GCongr
import Mathlib.Tactic.Ring
import Mathlib.Algebra.Order.Field.Rat

/-!
# How far roundings lead away

A result that is neither tiny nor huge is rounded by a relative error of about `2 ^ -53`.
`Binary64.Near` says of a number that it is as near to a quotient as so many roundings leave it; the
operations of the format keep it, with one rounding more (`Near.mul`, `Near.divNat`,
`exists_quotient`). After a few roundings a whole number of moderate size is still the nearest one
(`Near.toNearestInt_eq`).
-/

namespace Montage.Binary64

/-- The number of units in one is a power of two. -/
theorem exists_unitsPerOne : ∃ k, k = 1074 ∧ unitsPerOne = 2 ^ k := by
  have hshift (k : ℕ) : 1 <<< k = 2 ^ k := Nat.one_shiftLeft k
  exact ⟨1074, rfl, hshift 1074⟩

/-- A quotient that is not beyond the format is rounded to a finite number. It lies on a grid whose
spacing is that of the units, or at most `2 ^ -52` of the quotient. -/
theorem exists_round {num den k : ℕ} (negative : Bool) (hden : 0 < den) (hk : k ≤ 2097)
    (hbound : num < 2 ^ k * den) : ∃ j, (round negative num den).isFinite = true ∧
      (round negative num den).isNegative = negative ∧
      (round negative num den).magnitude = roundHalfEven num (den * 2 ^ j) * 2 ^ j ∧
      2 ^ 52 * (den * 2 ^ j) ≤ num + 2 ^ 52 * den := by
  have hlog : Nat.log2 (num / den) < 2097 := by
    by_cases hzero : num / den = 0
    · simp [hzero]
    · have hlt : num / den < 2 ^ k := (Nat.div_lt_iff_lt_mul hden).2 hbound
      have := (Nat.log2_lt hzero).2 hlt
      omega
  refine ⟨Nat.log2 (num / den) - 52, ?_⟩
  have hspacing : 2 ^ 52 * (den * 2 ^ (Nat.log2 (num / den) - 52)) ≤ num + 2 ^ 52 * den := by
    by_cases hfine : Nat.log2 (num / den) < 52
    · have hshift : Nat.log2 (num / den) - 52 = 0 := by omega
      rw [hshift]
      omega
    · have hne : num / den ≠ 0 := by
        intro hzero
        simp [hzero] at hfine
      have hpow : 2 ^ 52 * 2 ^ (Nat.log2 (num / den) - 52) ≤ num / den := by
        rw [← Nat.pow_add, Nat.add_sub_of_le (by omega)]
        exact Nat.log2_self_le hne
      calc 2 ^ 52 * (den * 2 ^ (Nat.log2 (num / den) - 52))
          = 2 ^ 52 * 2 ^ (Nat.log2 (num / den) - 52) * den := by ring
        _ ≤ num / den * den := Nat.mul_le_mul_right den hpow
        _ ≤ num := Nat.div_mul_le_self num den
        _ ≤ num + 2 ^ 52 * den := Nat.le_add_right _ _
  unfold round
  simp only [Nat.shiftLeft_eq]
  generalize hshift : Nat.log2 (num / den) - 52 = shift at hspacing ⊢
  generalize hmantissa : roundHalfEven num (den * 2 ^ shift) = mantissa
  -- A mantissa of 54 bits is carried over, which leaves the magnitude as it is.
  by_cases hcarry : mantissa = 2 * leadingBit
  · rw [if_pos hcarry, if_neg (by simp only; omega)]
    refine ⟨rfl, rfl, ?_, hspacing⟩
    rw [magnitude, Nat.shiftLeft_eq, hcarry]
    ring
  · rw [if_neg hcarry, if_neg (by simp only; omega)]
    exact ⟨rfl, rfl, by rw [magnitude, Nat.shiftLeft_eq], hspacing⟩

/-- Rounding to units moves a quotient by a relative error of `2 ^ -53`, or by half a unit. -/
theorem abs_magnitude_round_sub_le {num den k : ℕ} (negative : Bool) (hden : 0 < den)
    (hk : k ≤ 2097) (hbound : num < 2 ^ k * den) :
    |((round negative num den).magnitude : ℚ) - num / den| ≤ num / den / 2 ^ 53 + 1 / 2 := by
  obtain ⟨j, -, -, hmagnitude, hspacing⟩ := exists_round negative hden hk hbound
  have hpos : 0 < den * 2 ^ j := Nat.mul_pos hden (Nat.two_pow_pos j)
  obtain ⟨hlower, hupper⟩ := @roundHalfEven_near num _ hpos
  have hden' : (0 : ℚ) < den := by exact_mod_cast hden
  generalize roundHalfEven num (den * 2 ^ j) = rounded at hmagnitude hlower hupper
  have hlower' : 2 * (num : ℚ) ≤ (2 * rounded + 1) * (den * 2 ^ j) := by exact_mod_cast hlower
  have hupper' : 2 * (rounded : ℚ) * (den * 2 ^ j) ≤ 2 * num + den * 2 ^ j := by
    exact_mod_cast hupper
  have hspacing' : 2 ^ 52 * ((den : ℚ) * 2 ^ j) ≤ num + 2 ^ 52 * den := by
    exact_mod_cast hspacing
  have hdistance : ((round negative num den).magnitude : ℚ) - num / den =
      (rounded * (den * 2 ^ j) - num) / den := by
    rw [hmagnitude]
    push_cast
    field_simp
  have hbudget : (num : ℚ) / den / 2 ^ 53 + 1 / 2 = (num / 2 ^ 53 + den / 2) / den := by
    field_simp
  rw [hdistance, hbudget, abs_div, abs_of_pos hden']
  gcongr
  rw [abs_le]
  constructor <;> linarith

/-- The size of a finite number. -/
def value (x : Binary64) : ℚ :=
  x.magnitude / unitsPerOne

/-- A bound of the relative error of a rounding, a quarter above `2 ^ -53`. -/
def slack : ℚ :=
  5 / 2 ^ 55

/-- A quotient that is zero, or neither below `2 ^ -e` nor above `2 ^ e`. -/
def InRange (e : ℕ) (q : ℚ) : Prop :=
  q = 0 ∨ (2 ^ e)⁻¹ ≤ q ∧ q ≤ 2 ^ e

/-- A number that is finite and not negative, and as near to a quotient as a number of roundings
leave it. -/
structure Near (roundings : ℕ) (x : Binary64) (q : ℚ) : Prop where
  /-- The number is finite. -/
  finite : x.isFinite = true
  /-- The number is not negative. -/
  sign : x.isNegative = false
  /-- The number is not far below the quotient. -/
  lower : q * (1 - slack) ^ roundings ≤ x.value
  /-- The number is not far above the quotient. -/
  upper : x.value ≤ q * (1 + slack) ^ roundings

/-- Rounding moves a quotient in the range by a small part of it. -/
theorem round_of_inRange {num den e k : ℕ} (hden : 0 < den) (he : e ≤ 1000) (hk : k = 1074)
    (h : InRange e (num / den / 2 ^ k)) :
    (round false num den).isFinite = true ∧ (round false num den).isNegative = false ∧
      |((round false num den).magnitude : ℚ) - num / den| ≤ num / den * slack := by
  have hden' : (0 : ℚ) < den := by exact_mod_cast hden
  have hpos : (0 : ℚ) < 2 ^ k := by positivity
  have hle : (num : ℚ) / den ≤ 2 ^ (e + k) := by
    obtain hzero | ⟨-, hle⟩ := h
    · rw [div_eq_zero_iff, or_iff_left hpos.ne'] at hzero
      rw [hzero]
      positivity
    · rwa [div_le_iff₀ hpos, ← pow_add] at hle
  have hbound : num < 2 ^ (e + k + 1) * den := by
    have hlt : (num : ℚ) < 2 ^ (e + k + 1) * den := by
      rw [← div_lt_iff₀ hden']
      exact lt_of_le_of_lt hle (pow_lt_pow_right₀ (by norm_num) (Nat.lt_succ_self _))
    exact_mod_cast hlt
  obtain ⟨-, hfinite, hsign, -, -⟩ := exists_round false hden (by omega) hbound
  refine ⟨hfinite, hsign, ?_⟩
  have herror := abs_magnitude_round_sub_le false hden (by omega) hbound
  obtain hzero | ⟨hlower, -⟩ := h
  · -- Less than one unit away from zero there is only zero.
    rw [div_eq_zero_iff, or_iff_left hpos.ne'] at hzero
    rw [hzero] at herror ⊢
    have hmagnitude : (round false num den).magnitude = 0 := by
      by_contra hne
      have hone : (1 : ℚ) ≤ (round false num den).magnitude := by
        exact_mod_cast Nat.one_le_iff_ne_zero.2 hne
      rw [sub_zero, abs_of_nonneg (by linarith)] at herror
      linarith
    simp [hmagnitude]
  · -- A half unit is a small part of a quotient in the range.
    have hlarge : (2 : ℚ) ^ 54 ≤ num / den := by
      have hsplit : (2 : ℚ) ^ k = 2 ^ e * 2 ^ (k - e) := by
        rw [← pow_add, Nat.add_sub_of_le (by omega)]
      have hge : (2 : ℚ) ^ (k - e) ≤ num / den := by
        rw [le_div_iff₀ hpos, hsplit, inv_mul_cancel_left₀ (by positivity)] at hlower
        exact hlower
      exact le_trans (pow_le_pow_right₀ (by norm_num) (by omega)) hge
    refine le_trans herror ?_
    rw [slack]
    linarith

theorem unitsPerOne_pos : (0 : ℚ) < unitsPerOne := by
  obtain ⟨k, -, hunits⟩ := exists_unitsPerOne
  rw [hunits]
  exact_mod_cast Nat.two_pow_pos k

/-- A quotient in the range is rounded by a small relative error. -/
theorem near_round {num den e : ℕ} (hden : 0 < den) (he : e ≤ 1000)
    (h : InRange e (num / den / unitsPerOne)) :
    Near 1 (round false num den) (num / den / unitsPerOne) := by
  obtain ⟨k, hk, hunits⟩ := exists_unitsPerOne
  have hunits' : (unitsPerOne : ℚ) = 2 ^ k := by
    rw [hunits]
    push_cast
    rfl
  rw [hunits'] at h ⊢
  obtain ⟨hfinite, hsign, herror⟩ := round_of_inRange hden he hk h
  rw [abs_le] at herror
  have hpos : (0 : ℚ) < 2 ^ k := by positivity
  refine ⟨hfinite, hsign, ?_, ?_⟩
  · rw [value, hunits', pow_one, div_mul_eq_mul_div]
    gcongr
    linarith
  · rw [value, hunits', pow_one, div_mul_eq_mul_div]
    gcongr
    linarith

/-! ## Several roundings -/

section Several

variable {x y : Binary64} {p q v : ℚ} {j k e n : ℕ}

/-- What a few roundings may add is a small part. -/
theorem one_add_slack_pow_le (hn : n ≤ 8) : (1 + slack) ^ n ≤ 1 + 1 / 2 ^ 49 :=
  calc (1 + slack) ^ n ≤ (1 + slack) ^ 8 := pow_le_pow_right₀ (by norm_num [slack]) hn
    _ ≤ 1 + 1 / 2 ^ 49 := by norm_num [slack]

/-- What a few roundings may take away is a small part. -/
theorem le_one_sub_slack_pow (hn : n ≤ 8) : 1 - 1 / 2 ^ 49 ≤ (1 - slack) ^ n :=
  calc 1 - 1 / 2 ^ 49 ≤ (1 - slack) ^ 8 := by norm_num [slack]
    _ ≤ (1 - slack) ^ n := pow_le_pow_of_le_one (by norm_num [slack]) (by norm_num [slack]) hn

theorem value_nonneg (x : Binary64) : 0 ≤ x.value :=
  div_nonneg (Nat.cast_nonneg _) (Nat.cast_nonneg _)

/-- A number that is not negative is near to a quotient that is not. -/
theorem Near.nonneg (h : Near k x q) : 0 ≤ q := by
  have hpow : 0 < (1 + slack) ^ k := by
    have : 0 < 1 + slack := by norm_num [slack]
    positivity
  exact nonneg_of_mul_nonneg_left (le_trans x.value_nonneg h.upper) hpow

/-- A few roundings do not lead far out of the range. -/
theorem InRange.of_near (h : InRange e q) (hn : n ≤ 8) (hlower : q * (1 - slack) ^ n ≤ v)
    (hupper : v ≤ q * (1 + slack) ^ n) : InRange (e + 1) v := by
  obtain rfl | ⟨hge, hle⟩ := h
  · rw [zero_mul] at hlower hupper
    exact .inl (le_antisymm hupper hlower)
  · have hpos : (0 : ℚ) < (2 ^ e)⁻¹ := by positivity
    have hhalf : (1 : ℚ) / 2 ≤ (1 - slack) ^ n := le_trans (by norm_num) (le_one_sub_slack_pow hn)
    have htwo : (1 + slack) ^ n ≤ 2 := le_trans (one_add_slack_pow_le hn) (by norm_num)
    have hnonneg : 0 ≤ q := le_trans hpos.le hge
    have hone : 0 ≤ 1 + slack := by norm_num [slack]
    refine .inr ⟨?_, ?_⟩
    · calc ((2 : ℚ) ^ (e + 1))⁻¹ = (2 ^ e)⁻¹ * (1 / 2) := by
            rw [pow_succ, mul_inv, one_div]
        _ ≤ q * (1 - slack) ^ n := by gcongr
        _ ≤ v := hlower
    · calc v ≤ q * (1 + slack) ^ n := hupper
        _ ≤ 2 ^ e * 2 := by gcongr
        _ = 2 ^ (e + 1) := (pow_succ 2 e).symm

/-- One rounding after others. -/
theorem Near.of_between (h : Near 1 x v) (hlower : q * (1 - slack) ^ n ≤ v)
    (hupper : v ≤ q * (1 + slack) ^ n) : Near (n + 1) x q := by
  refine ⟨h.finite, h.sign, ?_, ?_⟩
  · calc q * (1 - slack) ^ (n + 1) = q * (1 - slack) ^ n * (1 - slack) := by
          rw [pow_succ, mul_assoc]
      _ ≤ v * (1 - slack) := by
          have : 0 ≤ 1 - slack := by norm_num [slack]
          gcongr
      _ ≤ x.value := by simpa using h.lower
  · calc x.value ≤ v * (1 + slack) := by simpa using h.upper
      _ ≤ q * (1 + slack) ^ n * (1 + slack) := by
          have : 0 ≤ 1 + slack := by norm_num [slack]
          gcongr
      _ = q * (1 + slack) ^ (n + 1) := by rw [pow_succ, mul_assoc]

/-- One rounding, to units, after others. -/
theorem Near.of_round {num den : ℕ} (hden : 0 < den) (hn : n ≤ 8) (he : e ≤ 999)
    (h : InRange e q) (hv : (num : ℚ) / den / unitsPerOne = v) (hlower : q * (1 - slack) ^ n ≤ v)
    (hupper : v ≤ q * (1 + slack) ^ n) : Near (n + 1) (round false num den) q := by
  have hrange := h.of_near hn hlower hupper
  subst hv
  exact (near_round hden (Nat.succ_le_succ he) hrange).of_between hlower hupper

/-- A quotient of whole numbers in the range. -/
theorem near_ofRatio {a b : ℕ} (hb : 0 < b) (he : e ≤ 1000) (h : InRange e (a / b)) :
    Near 1 (ofRatio false a b) (a / b) := by
  have hunits : ((a * unitsPerOne : ℕ) : ℚ) / b / unitsPerOne = a / b := by
    have := unitsPerOne_pos
    push_cast
    field_simp
  rw [← hunits] at h ⊢
  exact near_round hb he h

/-- The factors of a product may have been rounded before. -/
theorem Near.mul_between (hx : Near j x p) (hy : Near k y q) :
    p * q * (1 - slack) ^ (j + k) ≤ x.value * y.value ∧
      x.value * y.value ≤ p * q * (1 + slack) ^ (j + k) := by
  have hp := hx.nonneg
  have hq := hy.nonneg
  have hless : 0 ≤ 1 - slack := by norm_num [slack]
  have hmore : 0 ≤ 1 + slack := by norm_num [slack]
  constructor
  · calc p * q * (1 - slack) ^ (j + k) = p * (1 - slack) ^ j * (q * (1 - slack) ^ k) := by ring
      _ ≤ x.value * y.value := mul_le_mul hx.lower hy.lower (by positivity) x.value_nonneg
  · calc x.value * y.value ≤ p * (1 + slack) ^ j * (q * (1 + slack) ^ k) :=
          mul_le_mul hx.upper hy.upper y.value_nonneg (by positivity)
      _ = p * q * (1 + slack) ^ (j + k) := by ring

/-- A product in the range. -/
theorem Near.mul (hx : Near j x p) (hy : Near k y q) (hjk : j + k ≤ 8) (he : e ≤ 999)
    (h : InRange e (p * q)) : Near (j + k + 1) (x.mul y) (p * q) := by
  obtain ⟨hlower, hupper⟩ := hx.mul_between hy
  have hpos := unitsPerOne_pos
  have hunits : ((x.magnitude * y.magnitude : ℕ) : ℚ) / unitsPerOne / unitsPerOne =
      x.value * y.value := by
    rw [value, value]
    push_cast
    field_simp
  have hproduct : x.mul y = round false (x.magnitude * y.magnitude) unitsPerOne := by
    obtain ⟨hx', hxs, -, -⟩ := hx
    obtain ⟨hy', hys, -, -⟩ := hy
    cases x with
    | nan | infinite => cases hx'
    | finite s m sh =>
      cases y with
      | nan | infinite => cases hy'
      | finite t n sh' =>
        obtain rfl : s = false := hxs
        obtain rfl : t = false := hys
        rfl
  rw [hproduct]
  exact .of_round (by exact_mod_cast hpos) hjk he h hunits hlower hupper

/-- A quotient by a whole number, in the range. -/
theorem Near.divNat (hx : Near k x q) (hn : 0 < n) (hk : k ≤ 8) (he : e ≤ 999)
    (h : InRange e (q / n)) : Near (k + 1) (x.divNat n) (q / n) := by
  have hn' : (0 : ℚ) < n := by exact_mod_cast hn
  have hlower : q / n * (1 - slack) ^ k ≤ x.value / n := by
    rw [div_mul_eq_mul_div]
    gcongr
    exact hx.lower
  have hupper : x.value / n ≤ q / n * (1 + slack) ^ k := by
    rw [div_mul_eq_mul_div]
    gcongr
    exact hx.upper
  have hunits : (x.magnitude : ℚ) / n / unitsPerOne = x.value / n := by
    rw [value, div_right_comm]
  have hquotient : x.divNat n = round false x.magnitude n := by
    obtain ⟨hx', hxs, -, -⟩ := hx
    cases x with
    | nan | infinite => cases hx'
    | finite s m sh =>
      obtain rfl : s = false := hxs
      rfl
  rw [hquotient]
  exact .of_round hn hk he h hunits hlower hupper

/-- A sum with a quotient of whole numbers, in the range. -/
theorem Near.addRatio {num den : ℕ} (hx : Near k x q) (hden : 0 < den) (hk : k ≤ 8) (he : e ≤ 999)
    (h : InRange e (q + num / den)) : Near (k + 1) (x.addRatio num den) (q + num / den) := by
  have hden' : (0 : ℚ) < den := by exact_mod_cast hden
  have hadded : (0 : ℚ) ≤ num / den := by positivity
  have hlower : (q + num / den) * (1 - slack) ^ k ≤ x.value + num / den := by
    have hless : (1 - slack) ^ k ≤ 1 := pow_le_one₀ (by norm_num [slack]) (by norm_num [slack])
    rw [add_mul]
    exact add_le_add hx.lower (mul_le_of_le_one_right hadded hless)
  have hupper : x.value + num / den ≤ (q + num / den) * (1 + slack) ^ k := by
    have hmore : 1 ≤ (1 + slack) ^ k := one_le_pow₀ (by norm_num [slack])
    rw [add_mul]
    exact add_le_add hx.upper (le_mul_of_one_le_right hadded hmore)
  have hunits : ((x.magnitude * den + num * unitsPerOne : ℕ) : ℚ) / den / unitsPerOne =
      x.value + num / den := by
    have hpos := unitsPerOne_pos
    rw [value]
    push_cast
    field_simp
  have hsum : x.addRatio num den = round false (x.magnitude * den + num * unitsPerOne) den := by
    obtain ⟨hx', hxs, -, -⟩ := hx
    cases x with
    | nan | infinite => cases hx'
    | finite s m sh =>
      obtain rfl : s = false := hxs
      rfl
  rw [hsum]
  exact .of_round hden hk he h hunits hlower hupper

/-- A quotient of whole numbers is the number nearest to it where that is finite. -/
theorem quotient_eq {a b : ℕ} (hb : 0 < b) (hfinite : (ofRatio false a b).isFinite = true) :
    quotient a b = .ok (ofRatio false a b) := by
  have hsign : (decide ((a : ℤ) < 0) != decide ((b : ℤ) < 0)) = false := by
    simp [Int.not_lt.2 (Int.natCast_nonneg _)]
  have hne : (b : ℤ) ≠ 0 := by omega
  rw [quotient, if_neg hne, hsign, Int.natAbs_natCast, Int.natAbs_natCast]
  cases hratio : ofRatio false a b with
  | infinite =>
    rw [hratio] at hfinite
    cases hfinite
  | nan | finite => rfl

/-- The quotient of two whole numbers, in the range. -/
theorem exists_quotient {a b : ℕ} (hb : 0 < b) (he : e ≤ 1000) (h : InRange e (a / b)) :
    ∃ x, quotient a b = .ok x ∧ Near 1 x (a / b) := by
  have hnear := near_ofRatio hb he h
  exact ⟨ofRatio false a b, quotient_eq hb hnear.finite, hnear⟩

/-! ## Whole numbers -/

/-- Whole numbers that are not too large have a quotient in the range. -/
theorem inRange_div {a b : ℕ} (hb : 1 ≤ b) (ha_le : (a : ℚ) ≤ 2 ^ e) (hb_le : (b : ℚ) ≤ 2 ^ e) :
    InRange e (a / b) := by
  have hb' : (1 : ℚ) ≤ b := by exact_mod_cast hb
  have hpos : (0 : ℚ) < b := by linarith
  obtain rfl | ha := Nat.eq_zero_or_pos a
  · exact .inl (by rw [Nat.cast_zero, zero_div])
  · have ha' : (1 : ℚ) ≤ a := by exact_mod_cast ha
    refine .inr ⟨?_, ?_⟩
    · calc ((2 : ℚ) ^ e)⁻¹ ≤ (b : ℚ)⁻¹ := inv_anti₀ hpos hb_le
        _ = 1 / b := (one_div _).symm
        _ ≤ a / b := by gcongr
    · calc (a : ℚ) / b ≤ a := div_le_self (by linarith) hb'
        _ ≤ 2 ^ e := ha_le

/-- A whole number that is not too large is in the range. -/
theorem inRange_natCast (hn : (n : ℚ) ≤ 2 ^ e) : InRange e (n : ℚ) := by
  have hone : ((1 : ℕ) : ℚ) ≤ 2 ^ e := by
    rw [Nat.cast_one]
    exact one_le_pow₀ (by norm_num)
  have hdiv := inRange_div Nat.one_pos hn hone
  rwa [Nat.cast_one, div_one] at hdiv

/-- A whole number in the range is rounded by a small relative error. -/
theorem near_ofNat (he : e ≤ 1000) (hn : (n : ℚ) ≤ 2 ^ e) : Near 1 (ofNat n) n := by
  have hrange := inRange_natCast hn
  rw [← div_one (n : ℚ), ← Nat.cast_one (R := ℚ)] at hrange ⊢
  exact near_ofRatio Nat.one_pos he hrange

/-- A whole number has the number nearest to it where that is finite. -/
theorem ofInt?_eq {a : ℤ} (h : ofRatio (decide (a < 0)) a.natAbs 1 = x)
    (hfinite : x.isFinite = true) : ofInt? a = some x := by
  -- The definition is opened as a function: opening one call would have the number computed.
  have hopen : ofInt? = ofInt? := rfl
  conv at hopen => rhs; delta ofInt?
  rw [hopen]
  beta_reduce
  rw [h]
  cases x with
  | infinite => cases hfinite
  | nan | finite => rfl

/-- A number without a sign is not below zero. -/
theorem less_zero (hfinite : x.isFinite = true) (hsign : x.isNegative = false) :
    x.less (.zero false) = false := by
  cases x with
  | nan | infinite => cases hfinite
  | finite s m sh =>
    obtain rfl : s = false := hsign
    show decide ((finite false m sh).units < (zero false).units) = false
    rw [decide_eq_false_iff_not, Int.not_lt]
    exact Int.natCast_nonneg _

/-- The nearest whole number is at most a half away. -/
theorem toNearestInt_near (hsign : x.isNegative = false) :
    x.value - 1 / 2 ≤ x.toNearestInt.toNat ∧ (x.toNearestInt.toNat : ℚ) ≤ x.value + 1 / 2 := by
  have hpos := unitsPerOne_pos
  have hnearest : x.toNearestInt.toNat = roundHalfEven x.magnitude unitsPerOne := by
    rw [toNearestInt, hsign]
    rfl
  have hone : 0 < unitsPerOne := by exact_mod_cast hpos
  obtain ⟨hlower, hupper⟩ := @roundHalfEven_near x.magnitude _ hone
  rw [hnearest]
  generalize roundHalfEven x.magnitude unitsPerOne = rounded at hlower hupper
  have hlower' : 2 * (x.magnitude : ℚ) ≤ (2 * rounded + 1) * unitsPerOne := by
    exact_mod_cast hlower
  have hupper' : 2 * (rounded : ℚ) * unitsPerOne ≤ 2 * x.magnitude + unitsPerOne := by
    exact_mod_cast hupper
  rw [value]
  constructor
  · rw [sub_le_iff_le_add, div_le_iff₀ hpos]
    linarith
  · rw [← sub_le_iff_le_add, le_div_iff₀ hpos]
    linarith

/-- A few roundings do not lead below a whole number of moderate size. -/
theorem Near.le_toNearestInt (h : Near k x q) (hk : k ≤ 8) (hn : n ≤ 2 ^ 47) (hle : (n : ℚ) ≤ q) :
    n ≤ x.toNearestInt.toNat := by
  have hn' : (n : ℚ) ≤ 2 ^ 47 := by exact_mod_cast hn
  obtain ⟨hnear, -⟩ := toNearestInt_near h.sign
  have hnonneg : 0 ≤ (1 - slack) ^ k := le_trans (by norm_num) (le_one_sub_slack_pow hk)
  have hbelow : (n : ℚ) - 1 / 4 ≤ x.value :=
    calc (n : ℚ) - 1 / 4 ≤ n * (1 - 1 / 2 ^ 49) := by linarith
      _ ≤ n * (1 - slack) ^ k := by gcongr; exact le_one_sub_slack_pow hk
      _ ≤ q * (1 - slack) ^ k := by gcongr
      _ ≤ x.value := h.lower
  have hlt : (n : ℚ) < x.toNearestInt.toNat + 1 := by linarith
  have hlt' : n < x.toNearestInt.toNat + 1 := by exact_mod_cast hlt
  omega

/-- A few roundings do not lead above a whole number of moderate size. -/
theorem Near.toNearestInt_le (h : Near k x q) (hk : k ≤ 8) (hn : n ≤ 2 ^ 47) (hle : q ≤ n) :
    x.toNearestInt.toNat ≤ n := by
  have hn' : (n : ℚ) ≤ 2 ^ 47 := by exact_mod_cast hn
  obtain ⟨-, hnear⟩ := toNearestInt_near h.sign
  have hnonneg : 0 ≤ (1 + slack) ^ k := le_trans (by norm_num) (one_le_pow₀ (by norm_num [slack]))
  have habove : x.value ≤ n + 1 / 4 :=
    calc x.value ≤ q * (1 + slack) ^ k := h.upper
      _ ≤ n * (1 + slack) ^ k := by gcongr
      _ ≤ n * (1 + 1 / 2 ^ 49) := by gcongr; exact one_add_slack_pow_le hk
      _ ≤ n + 1 / 4 := by linarith
  have hlt : (x.toNearestInt.toNat : ℚ) < n + 1 := by linarith
  have hlt' : x.toNearestInt.toNat < n + 1 := by exact_mod_cast hlt
  omega

/-- After a few roundings the nearest whole number is the one that was meant. -/
theorem Near.toNearestInt_eq (h : Near k x n) (hk : k ≤ 8) (hn : n ≤ 2 ^ 47) :
    x.toNearestInt.toNat = n :=
  Nat.le_antisymm (h.toNearestInt_le hk hn le_rfl) (h.le_toNearestInt hk hn le_rfl)

end Several

end Montage.Binary64
