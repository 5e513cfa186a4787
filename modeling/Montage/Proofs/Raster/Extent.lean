import Montage.Proofs.Evaluation.Values
import Montage.Proofs.Number.Nearness
import Mathlib.Algebra.Order.Ring.Pow

/-!
# How large rasters become

A framing brings one side of a raster to that of a box and scales the other one with it, so a raster
that is brought to box after box keeps the ratio of its sides, up to roundings. `Raster.Bounded` is
this invariant: no side is zero, the ratio has a bound, and one of the sides is short. As long as
the bound is far below the largest floating-point number, each operation keeps the invariant and
fails for no other cause than that its result would have too many pixels (`sized_framed`,
`sized_blurred`, `sized_covered`). A framing moves the bound by a factor of `Raster.growth`, and not
beyond twice the largest number of pixels. So there is room for more framings than a list of words
can hold, or for all framings where the number of pixels is limited (`reach_within`).
-/

namespace Montage

namespace Raster

open Binary64

variable {e : ℕ}

/-! ## The size of an axis -/

/-- The product of the size of an axis and a factor is rounded three times in all. -/
theorem near_product {size k : ℕ} {factor : Binary64} {q : ℚ} (he : e ≤ 1000) (hk : k ≤ 999)
    (hsize_le : (size : ℚ) ≤ 2 ^ e) (hfactor : factor.Near 1 q) (hrange : InRange k (size * q)) :
    Near 3 ((ofNat size).mul factor) (size * q) :=
  (near_ofNat he hsize_le).mul hfactor (by norm_num) hk hrange

/-- Zooming an axis to a size gives that size, up to the roundings of huge sizes. -/
theorem exists_zoomedSize {size target : ℕ} (hsize : 1 ≤ size) (he : e ≤ 999)
    (hsize_le : (size : ℚ) ≤ 2 ^ e) (htarget_le : (target : ℚ) ≤ 2 ^ e) :
    ∃ zoomed, zoomedSize size target = .ok zoomed ∧ (∀ n ≤ 2 ^ 47, n ≤ target → n ≤ zoomed) ∧
      (zoomed : ℚ) ≤ target * (1 + slack) ^ 3 + 1 / 2 ∧ (target ≤ 2 ^ 47 → zoomed = target) := by
  have hsize' : (1 : ℚ) ≤ size := by exact_mod_cast hsize
  obtain ⟨zoom, hzoom, hzoom_near⟩ := exists_quotient hsize (Nat.le_succ_of_le he)
    (inRange_div hsize htarget_le hsize_le)
  have hproduct : (size : ℚ) * (target / size) = target := by
    field_simp
  have hrange : InRange e ((size : ℚ) * (target / size)) := by
    rw [hproduct]
    exact inRange_natCast htarget_le
  have hnear := near_product (Nat.le_succ_of_le he) he hsize_le hzoom_near hrange
  rw [hproduct] at hnear
  obtain ⟨-, hupper⟩ := toNearestInt_near hnear.sign
  exact ⟨_, by rw [zoomedSize, hzoom],
    fun n hsmall hle => hnear.le_toNearestInt (by norm_num) hsmall (by exact_mod_cast hle),
    by linarith [hnear.upper], fun hsmall => hnear.toNearestInt_eq (by norm_num) hsmall⟩

/-- A factor that brings an axis to a box gives it the size of the box, or one pixel. -/
theorem targetSize_eq {own box : ℕ} {factor : Binary64} (hown : 1 ≤ own) (he : e ≤ 999)
    (hown_le : (own : ℚ) ≤ 2 ^ e) (hbox : box ≤ 2 ^ 31) (hbox_le : (box : ℚ) ≤ 2 ^ e)
    (hfactor : factor.Near 1 (box / own)) : targetSize own factor = .ok (max 1 box) := by
  have hown' : (1 : ℚ) ≤ own := by exact_mod_cast hown
  have hproduct : (own : ℚ) * (box / own) = box := by
    field_simp
  have hrange : InRange e ((own : ℚ) * (box / own)) := by
    rw [hproduct]
    exact inRange_natCast hbox_le
  have hnear := near_product (Nat.le_succ_of_le he) he hown_le hfactor hrange
  rw [hproduct] at hnear
  rw [targetSize, if_pos hnear.finite,
    hnear.toNearestInt_eq (by norm_num) (le_trans hbox (by norm_num))]

/-- A factor that brings one axis to a box scales the other axis by the same factor, up to
roundings, to one pixel at least. -/
theorem exists_targetSize {own other box : ℕ} {factor : Binary64} (hown : 1 ≤ own)
    (he : e ≤ 968) (hown_le : (own : ℚ) ≤ 2 ^ e) (hother_le : (other : ℚ) ≤ 2 ^ e)
    (hbox : box ≤ 2 ^ 31) (hfactor : factor.Near 1 (box / own)) : ∃ target,
      targetSize other factor = .ok target ∧ 1 ≤ target ∧
        (target : ℚ) ≤ other * (box / own) * (1 + slack) ^ 3 + 1 := by
  have hbox' : (box : ℚ) ≤ 2 ^ 31 := by exact_mod_cast hbox
  have hrange : InRange (e + 31) ((other : ℚ) * (box / own)) := by
    have hproduct_le : ((other * box : ℕ) : ℚ) ≤ 2 ^ (e + 31) := by
      rw [pow_add]
      push_cast
      gcongr
    have hdiv := inRange_div hown hproduct_le
      (le_trans hown_le (pow_le_pow_right₀ (by norm_num) (Nat.le_add_right e 31)))
    push_cast at hdiv
    rwa [mul_div_assoc] at hdiv
  have hnear := near_product (by omega) (by omega) hother_le hfactor hrange
  obtain ⟨-, hupper⟩ := toNearestInt_near hnear.sign
  refine ⟨_, by rw [targetSize, if_pos hnear.finite], le_max_left _ _, ?_⟩
  push_cast
  have hnonneg := le_trans (value_nonneg _) hnear.upper
  exact max_le (by linarith) (by linarith [hnear.upper])

/-- A side that comes to the size of a box is short. -/
theorem short_of_box {box : ℕ} (hbox : box < 2 ^ 31) :
    (1 : ℚ) ≤ (max 1 box : ℕ) ∧ ((max 1 box : ℕ) : ℚ) ≤ 2 ^ 31 := by
  constructor
  · exact_mod_cast le_max_left 1 box
  · exact_mod_cast max_le (by norm_num) hbox.le

/-- Where a side comes to the size of a box, the other side is scaled by the same factor. -/
theorem exists_scaled {own other box : ℕ} {factor : Binary64} (hown : 1 ≤ own) (hother : 1 ≤ other)
    (hlow : 31 ≤ e) (he : e ≤ 900) (hown_le : (own : ℚ) ≤ 2 ^ e) (hother_le : (other : ℚ) ≤ 2 ^ e)
    (hbox : box < 2 ^ 31) (hfactor : factor.Near 1 (box / own)) :
    targetSize own factor = .ok (max 1 box) ∧ zoomedSize own (max 1 box) = .ok (max 1 box) ∧
      ∃ target size, targetSize other factor = .ok target ∧ zoomedSize other target = .ok size ∧
        1 ≤ size ∧ (size : ℚ) ≤ 2 * target ∧
        (size : ℚ) ≤ other * (box / own) * (1 + slack) ^ 6 + 3 := by
  have hbox' : ((max 1 box : ℕ) : ℚ) ≤ 2 ^ e :=
    le_trans (short_of_box hbox).2 (pow_le_pow_right₀ (by norm_num) hlow)
  have hbox_le : (box : ℚ) ≤ 2 ^ e :=
    le_trans (by exact_mod_cast le_max_right 1 box) hbox'
  obtain ⟨zoomed, hzoomed, -, -, heq⟩ :=
    exists_zoomedSize hown (by omega) hown_le hbox'
  obtain rfl := heq (max_le (by norm_num) (by omega))
  refine ⟨targetSize_eq hown (by omega) hown_le hbox.le hbox_le hfactor, hzoomed, ?_⟩
  obtain ⟨target, htarget, hone, htarget_le⟩ :=
    exists_targetSize hown (by omega) hown_le hother_le hbox.le hfactor
  have hcubed : (1 + slack) ^ 3 ≤ 3 / 2 :=
    le_trans (one_add_slack_pow_le (by norm_num)) (by norm_num)
  have hcubed_pos : (0 : ℚ) < (1 + slack) ^ 3 := by norm_num [slack]
  have htarget_range : (target : ℚ) ≤ 2 ^ (e + 33) := by
    have hown' : (1 : ℚ) ≤ own := by exact_mod_cast hown
    have hfraction : (box : ℚ) / own ≤ 2 ^ 31 :=
      le_trans (div_le_self (Nat.cast_nonneg box) hown') (by exact_mod_cast hbox.le)
    have hone' : (1 : ℚ) ≤ 2 ^ e := one_le_pow₀ (by norm_num)
    calc (target : ℚ) ≤ other * (box / own) * (1 + slack) ^ 3 + 1 := htarget_le
      _ ≤ 2 ^ e * 2 ^ 31 * (3 / 2) + 2 ^ e := by gcongr
      _ ≤ 2 ^ e * 2 ^ 33 := by linarith
      _ = 2 ^ (e + 33) := (pow_add 2 e 33).symm
  obtain ⟨size, hsize, hsize_ge, hsize_le, -⟩ :=
    exists_zoomedSize (e := e + 33) hother (by omega)
      (le_trans hother_le (pow_le_pow_right₀ (by norm_num) (by omega))) htarget_range
  refine ⟨target, size, htarget, hsize, hsize_ge 1 (by norm_num) hone, ?_, ?_⟩
  · have hone' : (1 : ℚ) ≤ target := by exact_mod_cast hone
    calc (size : ℚ) ≤ target * (1 + slack) ^ 3 + 1 / 2 := hsize_le
      _ ≤ target * (3 / 2) + 1 / 2 := by gcongr
      _ ≤ 2 * target := by linarith
  · calc (size : ℚ) ≤ target * (1 + slack) ^ 3 + 1 / 2 := hsize_le
      _ ≤ (other * (box / own) * (1 + slack) ^ 3 + 1) * (1 + slack) ^ 3 + 1 / 2 := by gcongr
      _ = other * (box / own) * (1 + slack) ^ 6 + ((1 + slack) ^ 3 + 1 / 2) := by ring
      _ ≤ other * (box / own) * (1 + slack) ^ 6 + 3 := by linarith

/-! ## The sides of a raster -/

/-- What a framing may add to the ratio between the sides. -/
def growth : ℚ :=
  1 + 1 / 2 ^ 50

theorem one_le_growth : 1 ≤ growth := by
  norm_num [growth]

/-- A side that comes to the size of a box keeps the ratio to the other one, up to roundings. -/
theorem ratio_of_box {ratio : ℚ} {own other box other' : ℕ} (hratio : 2 ^ 57 ≤ ratio)
    (hown : 1 ≤ own) (hother : (other : ℚ) ≤ ratio * own) (hbox : box < 2 ^ 31)
    (hpos : 1 ≤ other')
    (hother' : (other' : ℚ) ≤ other * (box / own) * (1 + slack) ^ 6 + 3) :
    (other' : ℚ) ≤ ratio * growth * (max 1 box : ℕ) ∧
        ((max 1 box : ℕ) : ℚ) ≤ ratio * growth * other' := by
  have hown' : (0 : ℚ) < own := by exact_mod_cast hown
  have hpos' : (1 : ℚ) ≤ other' := by exact_mod_cast hpos
  have hbox_le : (box : ℚ) ≤ (max 1 box : ℕ) := by exact_mod_cast le_max_right 1 box
  obtain ⟨hone, hside⟩ := short_of_box hbox
  generalize ((max 1 box : ℕ) : ℚ) = side at *
  have hscaled : (other : ℚ) * (box / own) ≤ ratio * side :=
    calc (other : ℚ) * (box / own) = other / own * box := by ring
      _ ≤ ratio * box := by
          gcongr
          rwa [div_le_iff₀ hown']
      _ ≤ ratio * side := by gcongr
  have hpow : (1 + slack) ^ 6 ≤ 1 + 31 / 2 ^ 55 := by norm_num [slack]
  have hpow_pos : 0 ≤ (1 + slack) ^ 6 := by norm_num [slack]
  constructor
  · -- The pixels that are lost to whole numbers are fewer than a rounding error of the ratio.
    calc (other' : ℚ) ≤ other * (box / own) * (1 + slack) ^ 6 + 3 := hother'
      _ ≤ ratio * side * (1 + 31 / 2 ^ 55) + 3 * side := by gcongr; linarith
      _ = (ratio * (1 + 31 / 2 ^ 55) + 3) * side := by ring
      _ ≤ ratio * growth * side := by
          gcongr
          rw [growth]
          linarith
  · calc side ≤ 2 ^ 31 := hside
      _ ≤ ratio * growth := by
          rw [growth]
          linarith
      _ ≤ ratio * growth * other' := le_mul_of_one_le_right (by rw [growth]; linarith) hpos'

/-- Where the pixels have a limit, so has the ratio between the sides. -/
theorem ratio_of_limit {ratio : ℚ} {limit : Int} {box target other' : ℕ} (hratio : 2 ^ 31 ≤ ratio)
    (hbox : box < 2 ^ 31) (hpos : 1 ≤ other') (hother' : (other' : ℚ) ≤ 2 * target)
    (hlimit : (target * max 1 box : ℕ) ≤ limit) :
    (other' : ℚ) ≤ max ratio (2 * limit) * (max 1 box : ℕ) ∧
        ((max 1 box : ℕ) : ℚ) ≤ max ratio (2 * limit) * other' := by
  have hpos' : (1 : ℚ) ≤ other' := by exact_mod_cast hpos
  obtain ⟨hone, hside⟩ := short_of_box hbox
  have htarget : (target : ℚ) ≤ limit :=
    calc (target : ℚ) ≤ target * (max 1 box : ℕ) := le_mul_of_one_le_right (by positivity) hone
      _ ≤ limit := by exact_mod_cast hlimit
  have hbound : 2 ^ 31 ≤ max ratio (2 * limit) := le_trans hratio (le_max_left _ _)
  have hnonneg : 0 ≤ max ratio (2 * limit) := by linarith
  constructor
  · calc (other' : ℚ) ≤ 2 * limit := by linarith
      _ ≤ max ratio (2 * limit) := le_max_right _ _
      _ ≤ max ratio (2 * limit) * (max 1 box : ℕ) := le_mul_of_one_le_right hnonneg hone
  · calc ((max 1 box : ℕ) : ℚ) ≤ max ratio (2 * limit) := le_trans hside hbound
      _ ≤ max ratio (2 * limit) * other' := le_mul_of_one_le_right hnonneg hpos'

/-- The bound of the ratio between the sides after one more framing. -/
def next (limit : Int) (ratio : ℚ) : ℚ :=
  min (ratio * growth) (max ratio (2 * limit))

/-- A framing does not make the bound smaller. -/
theorem le_next (limit : Int) {ratio : ℚ} (hratio : 0 ≤ ratio) : ratio ≤ next limit ratio :=
  le_min (le_mul_of_one_le_right hratio one_le_growth) (le_max_left _ _)

/-- A side that comes to the size of a box keeps the ratio to the other one below the next bound. -/
theorem ratio_next {ratio : ℚ} {limit : Int} {own other box target other' : ℕ}
    (hratio : 2 ^ 57 ≤ ratio) (hown : 1 ≤ own) (hother : (other : ℚ) ≤ ratio * own)
    (hbox : box < 2 ^ 31) (hpos : 1 ≤ other') (htarget : (other' : ℚ) ≤ 2 * target)
    (hother' : (other' : ℚ) ≤ other * (box / own) * (1 + slack) ^ 6 + 3)
    (hlimit : (target * max 1 box : ℕ) ≤ limit) :
    (other' : ℚ) ≤ next limit ratio * (max 1 box : ℕ) ∧
        ((max 1 box : ℕ) : ℚ) ≤ next limit ratio * other' := by
  unfold next
  obtain hmin | hmin := min_choice (ratio * growth) (max ratio (2 * limit))
  · rw [hmin]
    exact ratio_of_box hratio hown hother hbox hpos hother'
  · rw [hmin]
    exact ratio_of_limit (le_trans (by norm_num) hratio) hbox hpos htarget hlimit

/-- A raster with opacity whose sides are neither zero nor too far apart, and one of them is a
length that a box may have. -/
structure Bounded (ratio : ℚ) (r : Raster) : Prop where
  /-- The samples are red, green, blue and opacity. -/
  channels : r.channels = some 4
  /-- There is a row. -/
  height_pos : 1 ≤ r.height
  /-- There is a column. -/
  width_pos : 1 ≤ r.width
  /-- The height is not too large for the width. -/
  height_le : (r.height : ℚ) ≤ ratio * r.width
  /-- The width is not too large for the height. -/
  width_le : (r.width : ℚ) ≤ ratio * r.height
  /-- One of the sides is short. -/
  short : r.height < 2 ^ 31 ∨ r.width < 2 ^ 31

variable {ratio ratio' : ℚ} {r r' : Raster} {limit : Int} {factor : Binary64}

/-- The sides may be farther apart. -/
theorem Bounded.mono (h : r.Bounded ratio) (hle : ratio ≤ ratio') : r.Bounded ratio' where
  channels := h.channels
  height_pos := h.height_pos
  width_pos := h.width_pos
  height_le := le_trans h.height_le (by gcongr)
  width_le := le_trans h.width_le (by gcongr)
  short := h.short

/-- Both sides have a bound. -/
theorem Bounded.sides_le (h : r.Bounded ratio) (hone : 1 ≤ ratio) (hratio : ratio ≤ 2 ^ e) :
    (r.height : ℚ) ≤ 2 ^ (e + 31) ∧ (r.width : ℚ) ≤ 2 ^ (e + 31) := by
  -- The short side bounds the other one by the ratio.
  have hside {short long : ℕ} (hshort : short < 2 ^ 31) (hlong : (long : ℚ) ≤ ratio * short) :
      (long : ℚ) ≤ 2 ^ (e + 31) ∧ (short : ℚ) ≤ 2 ^ (e + 31) := by
    have hshort' : (short : ℚ) ≤ 2 ^ 31 := by exact_mod_cast hshort.le
    rw [pow_add]
    constructor
    · calc (long : ℚ) ≤ ratio * short := hlong
        _ ≤ 2 ^ e * 2 ^ 31 := by gcongr
    · calc (short : ℚ) ≤ 1 * 2 ^ 31 := by rwa [one_mul]
        _ ≤ 2 ^ e * 2 ^ 31 := by
            gcongr
            exact le_trans hone hratio
  obtain hshort | hshort := h.short
  · exact (hside hshort h.width_le).symm
  · exact hside hshort h.height_le

/-- A raster of the same shape has the same bounds. -/
theorem Bounded.of_shape (h : r.Bounded ratio) (hheight : r'.height = r.height)
    (hwidth : r'.width = r.width) (hchannels : r'.channels = r.channels) : r'.Bounded ratio := by
  obtain ⟨channels, height_pos, width_pos, height_le, width_le, short⟩ := h
  rw [← hheight] at height_pos height_le width_le short
  rw [← hwidth] at width_pos height_le width_le short
  exact ⟨hchannels.trans channels, height_pos, width_pos, height_le, width_le, short⟩

/-- An operation gives a raster with bounded sides, or its result would be too large. -/
inductive Sized (limit : Int) (ratio : ℚ) : Except Fault Raster → Prop where
  /-- The sides are bounded. -/
  | ok {r : Raster} (bounded : r.Bounded ratio) : Sized limit ratio (.ok r)
  /-- The result would have more pixels than the limit. -/
  | tooLarge (width height : Int) : Sized limit ratio (.error (.tooLarge width height limit))

/-- One operation after another. -/
theorem Sized.bind {answer : Except Fault Raster} {f : Raster → Except Fault Raster}
    (h : Sized limit ratio answer) (hf : ∀ r, r.Bounded ratio → Sized limit ratio' (f r)) :
    Sized limit ratio' (answer >>= f) := by
  cases h with
  | ok bounded => exact hf _ bounded
  | tooLarge width height => exact .tooLarge width height

/-! ## Scaling -/

/-- The factor one leaves a raster as it is. -/
theorem resize_one [Imaging] : r.resize limit .one = .ok none := by
  rw [resize, less_zero rfl rfl]
  rfl

/-- Scaling by a valid factor other than one compares the sizes of the target with the limit, and
then zooms the axes. -/
theorem resize_of_sizes [Imaging] {height width zoomedHeight zoomedWidth : ℕ}
    (hfinite : factor.isFinite = true) (hsign : factor.less (.zero false) = false)
    (hone : factor ≠ .one) (hheight : targetSize r.height factor = .ok height)
    (hwidth : targetSize r.width factor = .ok width)
    (hzoomedHeight : zoomedSize r.height height = .ok zoomedHeight)
    (hzoomedWidth : zoomedSize r.width width = .ok zoomedWidth) :
    r.resize limit factor =
      if limit < (height * width : ℕ) then .error (.tooLarge width height limit)
      else .ok (some (Imaging.resample r zoomedHeight zoomedWidth)) := by
  unfold resize
  rw [hfinite, hsign, if_neg (by decide), if_neg hone, hheight, hwidth]
  by_cases hlimit : limit < (height * width : ℕ)
  · simp only [bind, Except.bind, if_pos hlimit, throw, throwThe, MonadExceptOf.throw]
  · simp only [bind, Except.bind, pure, Except.pure, if_neg hlimit, hzoomedHeight, hzoomedWidth]

/-- Scaling by a factor leaves a raster as it is, or finds it too large, or gives it the sizes of
its axes. -/
theorem resize_cases [Imaging] {height width zoomedHeight zoomedWidth : ℕ}
    (hfinite : factor.isFinite = true)
    (hsign : factor.isNegative = false) (hheight : targetSize r.height factor = .ok height)
    (hwidth : targetSize r.width factor = .ok width)
    (hzoomedHeight : zoomedSize r.height height = .ok zoomedHeight)
    (hzoomedWidth : zoomedSize r.width width = .ok zoomedWidth) :
    r.resize limit factor = .ok none ∨
      r.resize limit factor = .error (.tooLarge width height limit) ∨
      (height * width : ℕ) ≤ limit ∧
        r.resize limit factor = .ok (some (Imaging.resample r zoomedHeight zoomedWidth)) := by
  by_cases hone : factor = .one
  · exact .inl (hone ▸ resize_one)
  · rw [resize_of_sizes hfinite (less_zero hfinite hsign) hone hheight hwidth hzoomedHeight
      hzoomedWidth]
    by_cases hlimit : limit < (height * width : ℕ)
    · rw [if_pos hlimit]
      exact .inr (.inl rfl)
    · rw [if_neg hlimit]
      exact .inr (.inr ⟨Int.not_lt.1 hlimit, rfl⟩)

/-- The factor of a framing is one or brings one of the sides to the box. -/
theorem exists_factor (how : Framing) {boxWidth boxHeight width height : ℤ}
    {across down : Binary64} (hacross : Binary64.quotient boxWidth width = .ok across)
    (hdown : Binary64.quotient boxHeight height = .ok down) :
    ∃ factor, how.factor boxWidth boxHeight width height = .ok factor ∧
      (factor = .one ∨ factor = across ∨ factor = down) := by
  cases how with
  | fit =>
    refine ⟨minimum .one (minimum across down), by rw [Framing.factor, hacross, hdown]; rfl, ?_⟩
    unfold minimum
    split_ifs <;> simp
  | fill =>
    refine ⟨maximum across down, by rw [Framing.factor, hacross, hdown]; rfl, ?_⟩
    unfold maximum
    split_ifs <;> simp

/-- What comes of a scaling that leaves a bounded raster as it is, or finds it too large, or gives
another bounded one. -/
theorem sized_scaled [Imaging] {scaled : Raster} {width height pixels : ℤ} (h : r.Bounded ratio)
    (hscaled : pixels ≤ limit → scaled.Bounded ratio)
    (hcases : r.resize limit factor = .ok none ∨
      r.resize limit factor = .error (.tooLarge width height limit) ∨
      pixels ≤ limit ∧ r.resize limit factor = .ok (some scaled)) :
    Sized limit ratio ((r.resize limit factor).map fun scaled => scaled.getD r) := by
  obtain hsame | hlarge | ⟨hpixels, hresized⟩ := hcases
  · rw [hsame]
    exact .ok h
  · rw [hlarge]
    exact .tooLarge width height
  · rw [hresized]
    exact .ok (hscaled hpixels)

/-- A raster with opacity that is interpolated on a bounded grid. -/
theorem bounded_resample [Imaging] {height width : ℕ} (hchannels : r.channels = some 4)
    (hheight : 1 ≤ height) (hwidth : 1 ≤ width) (hheight_le : (height : ℚ) ≤ ratio * width)
    (hwidth_le : (width : ℚ) ≤ ratio * height) (hshort : height < 2 ^ 31 ∨ width < 2 ^ 31) :
    (Imaging.resample r height width).Bounded ratio := by
  constructor <;> simpa only [Imaging.height_resample, Imaging.width_resample,
    Imaging.channels_resample]

/-- A raster that is framed has its sides at most a little farther apart, unless it is too large. -/
theorem sized_framed [Imaging] {boxWidth boxHeight : ℕ} (how : Framing) (h : r.Bounded ratio)
    (hlow : 2 ^ 57 ≤ ratio) (hhigh : ratio ≤ 2 ^ e) (he : e ≤ 869) (hboxWidth : boxWidth < 2 ^ 31)
    (hboxHeight : boxHeight < 2 ^ 31) :
    Sized limit (next limit ratio) (r.framed limit how boxWidth boxHeight) := by
  have hone : 1 ≤ ratio := le_trans (by norm_num) hlow
  have hnext : r.Bounded (next limit ratio) := h.mono (le_next limit (by linarith))
  obtain ⟨hheight_le, hwidth_le⟩ := h.sides_le hone hhigh
  have hbox {box : ℕ} (hlt : box < 2 ^ 31) : (box : ℚ) ≤ 2 ^ (e + 31) := by
    have hle : (box : ℚ) ≤ 2 ^ 31 := by exact_mod_cast hlt.le
    exact le_trans hle (pow_le_pow_right₀ (by norm_num) (by omega))
  obtain ⟨across, hacross, hacross_near⟩ := exists_quotient (e := e + 31) h.width_pos (by omega)
    (inRange_div h.width_pos (hbox hboxWidth) hwidth_le)
  obtain ⟨down, hdown, hdown_near⟩ := exists_quotient (e := e + 31) h.height_pos (by omega)
    (inRange_div h.height_pos (hbox hboxHeight) hheight_le)
  obtain ⟨factor, hfactor, hcases⟩ := exists_factor how hacross hdown
  have hframed : r.framed limit how boxWidth boxHeight =
      (r.resize limit factor).map fun scaled => scaled.getD r := by
    rw [framed, hfactor]
  rw [hframed]
  -- Whichever side comes to the box, the other one is scaled with it.
  obtain rfl | rfl | rfl := hcases
  · rw [resize_one]
    exact .ok hnext
  · obtain ⟨hown, hownZoomed, target, size, hother, hotherZoomed, hpos, htarget, hle⟩ :=
      exists_scaled h.width_pos h.height_pos (by omega) (by omega) hwidth_le hheight_le hboxWidth
        hacross_near
    refine sized_scaled hnext (fun hpixels => ?_)
      (resize_cases hacross_near.finite hacross_near.sign hother hown hotherZoomed hownZoomed)
    obtain ⟨hheight', hwidth'⟩ :=
      ratio_next hlow h.width_pos h.height_le hboxWidth hpos htarget hle hpixels
    exact bounded_resample h.channels hpos (le_max_left _ _) hheight' hwidth'
      (.inr (max_lt (by norm_num) hboxWidth))
  · obtain ⟨hown, hownZoomed, target, size, hother, hotherZoomed, hpos, htarget, hle⟩ :=
      exists_scaled h.height_pos h.width_pos (by omega) (by omega) hheight_le hwidth_le hboxHeight
        hdown_near
    refine sized_scaled hnext (fun hpixels => ?_)
      (resize_cases hdown_near.finite hdown_near.sign hown hother hownZoomed hotherZoomed)
    rw [Nat.mul_comm] at hpixels
    obtain ⟨hwidth', hheight'⟩ :=
      ratio_next hlow h.height_pos h.width_le hboxHeight hpos htarget hle hpixels
    exact bounded_resample h.channels (le_max_left _ _) hpos hheight' hwidth'
      (.inl (max_lt (by norm_num) hboxHeight))

/-! ## Blurring and drawing -/

/-- The width of a blur is a hundredth of its strength. -/
theorem sigmaOf_eq {n : ℤ} {x : Binary64} (h : ofInt? n = some x) :
    Studio.sigmaOf n = .ok (x.divNat 100) := by
  -- Opened as a function, as in `ofInt?_eq`.
  have hopen : Studio.sigmaOf = Studio.sigmaOf := rfl
  conv at hopen => rhs; delta Studio.sigmaOf
  rw [hopen]
  beta_reduce
  rw [h]

/-- The width of a blur is near to a hundredth of its strength. -/
theorem exists_sigmaOf {strength : ℕ} (hstrength : strength < 2 ^ 31) :
    ∃ sigma, Studio.sigmaOf strength = .ok sigma ∧ sigma.Near 2 (strength / (100 : ℕ)) := by
  have hstrength' : (strength : ℚ) ≤ 2 ^ 31 := by exact_mod_cast hstrength.le
  have hnear : (ofNat strength).Near 1 strength := near_ofNat (e := 31) (by omega) hstrength'
  have hrange : InRange 31 ((strength : ℚ) / (100 : ℕ)) :=
    inRange_div (by omega) hstrength' (by norm_num)
  have hratio : ofRatio (decide ((strength : ℤ) < 0)) (strength : ℤ).natAbs 1 = ofNat strength := by
    rw [decide_eq_false (Int.not_lt.2 (Int.natCast_nonneg _)), Int.natAbs_natCast, ofNat]
  exact ⟨_, sigmaOf_eq (ofInt?_eq hratio hnear.finite),
    hnear.divNat (by decide) (by decide) (by decide) hrange⟩

/-- A blur of a moderate width has a radius. -/
theorem exists_blurRadius {strength : ℕ} {sigma : Binary64} (hstrength : strength < 2 ^ 31)
    (hsigma : sigma.Near 2 (strength / (100 : ℕ))) : ∃ radius, blurRadius sigma = .ok radius := by
  have hstrength' : (strength : ℚ) ≤ 2 ^ 31 := by exact_mod_cast hstrength.le
  have hfour : (ofNat 4).Near 1 (4 : ℕ) := near_ofNat (e := 31) (by decide) (by norm_num)
  have hrange : InRange 40 (((4 : ℕ) : ℚ) * (strength / (100 : ℕ))) := by
    have hdiv : InRange 40 ((4 * strength : ℕ) / (100 : ℕ) : ℚ) :=
      inRange_div (by decide) (by push_cast; linarith) (by norm_num)
    rwa [Nat.cast_mul, mul_div_assoc] at hdiv
  have hproduct := hfour.mul hsigma (by decide) (by decide) hrange
  have hreach_range : InRange 40 (((4 : ℕ) : ℚ) * (strength / (100 : ℕ)) + (1 : ℕ) / (2 : ℕ)) := by
    have hdiv : InRange 40 ((4 * strength + 50 : ℕ) / (100 : ℕ) : ℚ) :=
      inRange_div (by decide) (by push_cast; linarith) (by norm_num)
    convert hdiv using 1
    push_cast
    ring
  have hreach := hproduct.addRatio (by decide) (by decide) (by decide) hreach_range
  unfold blurRadius
  generalize ((ofNat 4).mul sigma).addRatio 1 2 = reach at hreach ⊢
  have hfinite := hreach.finite
  cases reach with
  | nan | infinite => cases hfinite
  | finite => exact ⟨_, rfl⟩

/-- A raster that is blurred keeps its shape. -/
theorem sized_blurred [Imaging] {strength : ℕ} (h : r.Bounded ratio)
    (hstrength : strength < 2 ^ 31) :
    Sized limit ratio (r.blurred strength) := by
  obtain ⟨sigma, hsigma, hnear⟩ := exists_sigmaOf hstrength
  obtain ⟨radius, hradius⟩ := exists_blurRadius hstrength hnear
  have hblurred : r.blurred strength = (r.blur sigma).map fun soft => soft.getD r := by
    rw [blurred, hsigma]
    rfl
  rw [hblurred, blur, less_zero hnear.finite hnear.sign, if_neg (by decide), hradius]
  by_cases hzero : sigma.isZero = true
  · rw [if_pos hzero]
    exact .ok h
  · rw [if_neg hzero]
    simp only [bind, Except.bind, pure, Except.pure]
    obtain ⟨hheight, hwidth, hchannels⟩ := Imaging.sameShape_gaussian sigma
      (min radius (2 * r.height)) (min radius (2 * r.width)) r
    exact .ok (h.of_shape hheight hwidth hchannels)

/-- A raster that is drawn on keeps its shape. -/
theorem sized_covered [Imaging] {base above : Raster} (hbase : base.Bounded ratio)
    (habove : above.Bounded ratio') : Sized limit ratio (base.covered above) := by
  have hcolours {r : Raster} (h : r.channels = some 4) : r.colours = .ok .rgba := by
    simp only [colours, h]
  have hconform : above.conform base = .ok none := by
    rw [conform, hcolours habove.channels, hcolours hbase.channels]
    rfl
  rw [covered, hconform]
  by_cases hmeets : base.meets above = true
  · simp only [Except.map, Option.getD_none, hmeets, if_true]
    exact .ok (hbase.of_shape rfl rfl rfl)
  · simp only [Except.map, Option.getD_none, hmeets]
    exact .ok hbase

/-! ## Many framings -/

/-- A little more than one is not doubled by few factors. -/
theorem one_add_pow_le_two {m : ℕ} (hm : 0 < m) : (1 + 1 / (2 * m) : ℚ) ^ m ≤ 2 := by
  have hm' : (1 : ℚ) ≤ m := by exact_mod_cast hm
  have hsmall : 1 / (2 * m : ℚ) ≤ 1 / 2 := by
    gcongr
    linarith
  have hpos : (0 : ℚ) ≤ 1 / (2 * m) := by positivity
  generalize hx : 1 / (2 * m : ℚ) = x at hsmall hpos
  have hhalf : 1 / 2 ≤ (1 - x) ^ m := by
    have hbernoulli := one_add_mul_le_pow (a := -x) (by linarith) m
    have hproduct : (m : ℚ) * x = 1 / 2 := by
      rw [← hx]
      field_simp
    rw [← sub_eq_add_neg] at hbernoulli
    linarith
  have hone : (1 + x) ^ m * (1 - x) ^ m ≤ 1 := by
    rw [← mul_pow]
    exact pow_le_one₀ (by nlinarith) (by nlinarith)
  have hnonneg : 0 ≤ (1 + x) ^ m := by positivity
  nlinarith

/-- The framings of a list of words move a bound far less than to the largest number. -/
theorem growth_pow_le {k : ℕ} (hk : 3 * k < 2 ^ 60) : growth ^ k ≤ 2 ^ 700 := by
  obtain ⟨m, hm⟩ : ∃ m : ℕ, m = 2 ^ 49 := ⟨_, rfl⟩
  have hgrowth : growth = 1 + 1 / (2 * m) := by
    rw [hm, growth]
    norm_num
  have htwo : growth ^ m ≤ 2 := by
    rw [hgrowth]
    exact one_add_pow_le_two (by omega)
  have hquotient : k / m + 1 ≤ 700 := by
    rw [hm]
    omega
  have hle : k ≤ m * (k / m + 1) := (Nat.lt_mul_div_succ k (by omega)).le
  calc growth ^ k ≤ growth ^ (m * (k / m + 1)) := pow_le_pow_right₀ one_le_growth hle
    _ = (growth ^ m) ^ (k / m + 1) := pow_mul _ _ _
    _ ≤ 2 ^ (k / m + 1) := by
        have := one_le_growth
        gcongr
    _ ≤ 2 ^ 700 := pow_le_pow_right₀ (by norm_num) hquotient

/-- The bound of the ratio between the sides after a number of framings. -/
def reach (limit : Int) : ℕ → ℚ
  | 0 => 2 ^ 57
  | k + 1 => next limit (reach limit k)

/-- Before any framing the bound is that of moderate sizes. -/
theorem le_reach (limit : Int) (k : ℕ) : 2 ^ 57 ≤ reach limit k := by
  induction k with
  | zero => exact le_refl _
  | succ k ih => exact le_trans ih (le_next limit (by linarith))

theorem reach_mono {j k : ℕ} (h : j ≤ k) : reach limit j ≤ reach limit k :=
  monotone_nat_of_le_succ (fun i => le_next limit (by linarith [le_reach limit i])) h

/-- The bound grows by a factor at most, and it does not go beyond the limit. -/
theorem reach_le (limit : Int) (k : ℕ) :
    reach limit k ≤ 2 ^ 57 * growth ^ k ∧ reach limit k ≤ max (2 ^ 57 : ℚ) (2 * limit) := by
  induction k with
  | zero => exact ⟨by rw [reach, pow_zero, mul_one], le_max_left _ _⟩
  | succ k ih =>
    obtain ⟨hgrowth, hlimit⟩ := ih
    constructor
    · calc reach limit (k + 1) ≤ reach limit k * growth := min_le_left _ _
        _ ≤ 2 ^ 57 * growth ^ k * growth := by
            have := one_le_growth
            gcongr
        _ = 2 ^ 57 * growth ^ (k + 1) := by rw [pow_succ growth, mul_assoc]
    · exact le_trans (min_le_right _ _) (max_le hlimit (le_max_right _ _))

/-- The bound stays far below the largest number for as many framings as a list of words can hold,
and for any number of them where the pixels are limited. -/
theorem reach_within {k : ℕ} (h : 3 * k < 2 ^ 60 ∨ limit ≤ 2 ^ 256) : reach limit k ≤ 2 ^ 757 := by
  obtain ⟨hgrowth, hlimit⟩ := reach_le limit k
  obtain hk | hpixels := h
  · calc reach limit k ≤ 2 ^ 57 * growth ^ k := hgrowth
      _ ≤ 2 ^ 57 * 2 ^ 700 := by
          have := growth_pow_le hk
          gcongr
      _ = 2 ^ (57 + 700) := (pow_add 2 57 700).symm
  · have hpixels' : (limit : ℚ) ≤ 2 ^ 256 := by exact_mod_cast hpixels
    have hone : (1 : ℚ) ≤ 2 := by norm_num
    refine le_trans hlimit (max_le (pow_le_pow_right₀ hone (by norm_num)) ?_)
    calc 2 * (limit : ℚ) ≤ 2 * 2 ^ 256 := by gcongr
      _ = 2 ^ (256 + 1) := (pow_succ' 2 256).symm
      _ ≤ 2 ^ 757 := pow_le_pow_right₀ hone (by norm_num)

/-- A raster of moderate size with opacity is bounded before any framing. -/
theorem bounded_of_moderate (hchannels : r.channels = some 4)
    (hheight : 1 ≤ r.height ∧ r.height ≤ 2147483647)
    (hwidth : 1 ≤ r.width ∧ r.width ≤ 2147483647) : r.Bounded (reach limit 0) := by
  have hside {long short : ℕ} (hlong : long ≤ 2147483647) (hshort : 1 ≤ short) :
      (long : ℚ) ≤ reach limit 0 * short := by
    have hlong' : (long : ℚ) ≤ 2147483647 := by exact_mod_cast hlong
    have hshort' : (1 : ℚ) ≤ short := by exact_mod_cast hshort
    rw [reach]
    linarith
  exact ⟨hchannels, hheight.1, hwidth.1, hside hheight.2 hwidth.1, hside hwidth.2 hheight.1,
    .inl (by omega)⟩

end Raster

end Montage
