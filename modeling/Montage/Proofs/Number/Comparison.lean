import Montage.Proofs.Number.Nearness

/-!
# Comparing numbers

Numbers without a sign are compared by their sizes. So the smaller one of two numbers is as near to
the smaller one of two quotients as each number is to its own quotient (`Near.minimum`), and the
larger one to the larger quotient (`Near.maximum`). The quotient of two whole numbers lies on the
side of one where the exact quotient lies, and is one only where both numbers are equal
(`exists_quotient_side`).
-/

namespace Montage

/-- A quotient that is reduced is rounded alike. -/
theorem roundHalfEven_mul_left {k : ℕ} (hk : 0 < k) (num den : ℕ) :
    roundHalfEven (k * num) (k * den) = roundHalfEven num den := by
  have hless : 2 * (k * (num % den)) < k * den ↔ 2 * (num % den) < den := by
    rw [Nat.mul_left_comm]
    exact Nat.mul_lt_mul_left hk
  have hgreater : k * den < 2 * (k * (num % den)) ↔ den < 2 * (num % den) := by
    rw [Nat.mul_left_comm]
    exact Nat.mul_lt_mul_left hk
  unfold roundHalfEven
  simp only [Nat.mul_div_mul_left _ _ hk, Nat.mul_mod_mul_left, hless, hgreater]

namespace Binary64

variable {x y : Binary64} {p q : ℚ} {a b e k : ℕ}

/-! ## The smaller and the larger one -/

/-- Numbers without a sign are compared by their sizes. -/
theorem less_iff_value_lt (hx : x.isFinite = true) (hxs : x.isNegative = false)
    (hy : y.isFinite = true) (hys : y.isNegative = false) :
    x.less y = true ↔ x.value < y.value := by
  cases x with
  | nan | infinite => cases hx
  | finite s m sh =>
    cases y with
    | nan | infinite => cases hy
    | finite t n sh' =>
      obtain rfl : s = false := hxs
      obtain rfl : t = false := hys
      have hunits : (finite false m sh).less (finite false n sh') =
          decide (((finite false m sh).magnitude : ℤ) < (finite false n sh').magnitude) := rfl
      rw [hunits, decide_eq_true_eq, value, value, div_lt_div_iff_of_pos_right unitsPerOne_pos]
      norm_cast

/-- The smaller one of two numbers without a sign. -/
theorem minimum_cases (hx : x.isFinite = true) (hxs : x.isNegative = false)
    (hy : y.isFinite = true) (hys : y.isNegative = false) :
    minimum x y = x ∧ x.value ≤ y.value ∨ minimum x y = y ∧ y.value < x.value := by
  have hless := less_iff_value_lt hy hys hx hxs
  unfold minimum
  split
  · rename_i h
    exact .inr ⟨rfl, hless.1 h⟩
  · rename_i h
    exact .inl ⟨rfl, not_lt.1 (mt hless.2 h)⟩

/-- The larger one of two numbers without a sign. -/
theorem maximum_cases (hx : x.isFinite = true) (hxs : x.isNegative = false)
    (hy : y.isFinite = true) (hys : y.isNegative = false) :
    maximum x y = x ∧ y.value ≤ x.value ∨ maximum x y = y ∧ x.value < y.value := by
  have hless := less_iff_value_lt hx hxs hy hys
  unfold maximum
  split
  · rename_i h
    exact .inr ⟨rfl, hless.1 h⟩
  · rename_i h
    exact .inl ⟨rfl, not_lt.1 (mt hless.2 h)⟩

/-- The size of the smaller number is the smaller size. -/
theorem value_minimum (hx : x.isFinite = true) (hxs : x.isNegative = false)
    (hy : y.isFinite = true) (hys : y.isNegative = false) :
    (minimum x y).value = min x.value y.value := by
  obtain ⟨heq, hle⟩ | ⟨heq, hlt⟩ := minimum_cases hx hxs hy hys
  · rw [heq, min_eq_left hle]
  · rw [heq, min_eq_right hlt.le]

/-- The size of the larger number is the larger size. -/
theorem value_maximum (hx : x.isFinite = true) (hxs : x.isNegative = false)
    (hy : y.isFinite = true) (hys : y.isNegative = false) :
    (maximum x y).value = max x.value y.value := by
  obtain ⟨heq, hle⟩ | ⟨heq, hlt⟩ := maximum_cases hx hxs hy hys
  · rw [heq, max_eq_left hle]
  · rw [heq, max_eq_right hlt.le]

/-- The smaller number is near to the smaller quotient. -/
theorem Near.minimum (hx : Near k x p) (hy : Near k y q) :
    Near k (minimum x y) (min p q) := by
  have hvalue := value_minimum hx.finite hx.sign hy.finite hy.sign
  have hless : 0 ≤ (1 - slack) ^ k := pow_nonneg (by norm_num [slack]) k
  have hmore : 0 ≤ (1 + slack) ^ k := pow_nonneg (by norm_num [slack]) k
  have hkeeps : (Binary64.minimum x y).isFinite = true ∧
      (Binary64.minimum x y).isNegative = false := by
    obtain ⟨heq, -⟩ | ⟨heq, -⟩ := minimum_cases hx.finite hx.sign hy.finite hy.sign
    · rw [heq]
      exact ⟨hx.finite, hx.sign⟩
    · rw [heq]
      exact ⟨hy.finite, hy.sign⟩
  refine ⟨hkeeps.1, hkeeps.2, ?_, ?_⟩
  · rw [hvalue, min_mul_of_nonneg p q hless]
    exact min_le_min hx.lower hy.lower
  · rw [hvalue, min_mul_of_nonneg p q hmore]
    exact min_le_min hx.upper hy.upper

/-- The larger number is near to the larger quotient. -/
theorem Near.maximum (hx : Near k x p) (hy : Near k y q) :
    Near k (maximum x y) (max p q) := by
  have hvalue := value_maximum hx.finite hx.sign hy.finite hy.sign
  have hless : 0 ≤ (1 - slack) ^ k := pow_nonneg (by norm_num [slack]) k
  have hmore : 0 ≤ (1 + slack) ^ k := pow_nonneg (by norm_num [slack]) k
  have hkeeps : (Binary64.maximum x y).isFinite = true ∧
      (Binary64.maximum x y).isNegative = false := by
    obtain ⟨heq, -⟩ | ⟨heq, -⟩ := maximum_cases hx.finite hx.sign hy.finite hy.sign
    · rw [heq]
      exact ⟨hx.finite, hx.sign⟩
    · rw [heq]
      exact ⟨hy.finite, hy.sign⟩
  refine ⟨hkeeps.1, hkeeps.2, ?_, ?_⟩
  · rw [hvalue, max_mul_of_nonneg p q hless]
    exact max_le_max hx.lower hy.lower
  · rw [hvalue, max_mul_of_nonneg p q hmore]
    exact max_le_max hx.upper hy.upper

/-! ## On which side of one -/

theorem value_one : one.value = 1 := by
  have hmagnitude : one.magnitude = unitsPerOne := by decide +kernel
  rw [value, hmagnitude, div_self unitsPerOne_pos.ne']

/-- One is near to one. -/
theorem near_one : Near k one 1 := by
  refine ⟨rfl, rfl, ?_, ?_⟩
  · rw [value_one, one_mul]
    exact pow_le_one₀ (by norm_num [slack]) (by norm_num [slack])
  · rw [value_one, one_mul]
    exact one_le_pow₀ (by norm_num [slack])

/-- A quotient that is reduced is rounded to the same number. -/
theorem round_mul_left (negative : Bool) (hk : 0 < k) (num den : ℕ) :
    round negative (k * num) (k * den) = round negative num den := by
  unfold round
  simp only [Nat.mul_div_mul_left _ _ hk, Nat.shiftLeft_eq, Nat.mul_assoc,
    roundHalfEven_mul_left hk]

/-- A whole number divided by itself is exactly one. -/
theorem ofRatio_self (ha : 0 < a) : ofRatio false a a = one := by
  have hreduced := round_mul_left false ha unitsPerOne 1
  rw [Nat.mul_one] at hreduced
  rw [ofRatio, hreduced]
  decide +kernel

/-- Below one a quotient of whole numbers keeps a distance that a few roundings do not bridge. -/
theorem Near.value_lt_one (h : Near k x (a / b)) (hk : k ≤ 8) (ha : a ≤ 2 ^ 47) (hlt : a < b) :
    x.value < 1 := by
  have ha' : (a : ℚ) ≤ 2 ^ 47 := by exact_mod_cast ha
  have hlt' : (a : ℚ) + 1 ≤ b := by exact_mod_cast hlt
  have hnonneg : (0 : ℚ) ≤ a := Nat.cast_nonneg a
  have hpos : (0 : ℚ) < b := by linarith
  calc x.value ≤ a / b * (1 + slack) ^ k := h.upper
    _ ≤ a / b * (1 + 1 / 2 ^ 49) := by gcongr; exact one_add_slack_pow_le hk
    _ = (a + a / 2 ^ 49) / b := by ring
    _ < 1 := by
        rw [div_lt_one hpos]
        linarith

/-- Above one a quotient of whole numbers keeps such a distance, too. -/
theorem Near.one_lt_value (h : Near k x (a / b)) (hk : k ≤ 8) (hb : 0 < b) (hb_le : b ≤ 2 ^ 47)
    (hlt : b < a) : 1 < x.value := by
  have hb_le' : (b : ℚ) ≤ 2 ^ 47 := by exact_mod_cast hb_le
  have hlt' : (b : ℚ) + 1 ≤ a := by exact_mod_cast hlt
  have hpos : (0 : ℚ) < b := by exact_mod_cast hb
  calc (1 : ℚ) < (b + 1) * (1 - 1 / 2 ^ 49) / b := by
        rw [one_lt_div hpos]
        linarith
    _ ≤ a * (1 - 1 / 2 ^ 49) / b := by gcongr
    _ = a / b * (1 - 1 / 2 ^ 49) := by ring
    _ ≤ a / b * (1 - slack) ^ k := by gcongr; exact le_one_sub_slack_pow hk
    _ ≤ x.value := h.lower

/-- The quotient of two whole numbers is rounded, but not beyond one. -/
theorem exists_quotient_side (ha : 0 < a) (hb : 0 < b) (ha_small : a ≤ 2 ^ 47) (he : e ≤ 1000)
    (ha_le : (a : ℚ) ≤ 2 ^ e) (hb_le : (b : ℚ) ≤ 2 ^ e) : ∃ x, quotient a b = .ok x ∧
      Near 1 x (a / b) ∧ (x.value < 1 ↔ a < b) ∧ (x = one ↔ a = b) ∧ (1 < x.value ↔ b < a) := by
  have hnear := near_ofRatio hb he (inRange_div hb ha_le hb_le)
  refine ⟨_, quotient_eq hb hnear.finite, hnear, ?_⟩
  have hne (hvalue : (ofRatio false a b).value ≠ 1) : ofRatio false a b ≠ one := fun heq =>
    hvalue (heq ▸ value_one)
  obtain hlt | heq | hgt := lt_trichotomy a b
  · have hvalue := hnear.value_lt_one (by norm_num) ha_small hlt
    exact ⟨iff_of_true hvalue hlt, iff_of_false (hne hvalue.ne) hlt.ne,
      iff_of_false hvalue.not_gt hlt.not_gt⟩
  · have hone : ofRatio false a b = one := heq ▸ ofRatio_self ha
    rw [hone, value_one]
    exact ⟨iff_of_false (lt_irrefl 1) heq.not_lt, iff_of_true rfl heq,
      iff_of_false (lt_irrefl 1) heq.symm.not_lt⟩
  · have hvalue := hnear.one_lt_value (by norm_num) hb (le_trans hgt.le ha_small) hgt
    exact ⟨iff_of_false hvalue.not_gt hgt.not_gt, iff_of_false (hne hvalue.ne') hgt.ne',
      iff_of_true hvalue hgt⟩

end Binary64

end Montage
