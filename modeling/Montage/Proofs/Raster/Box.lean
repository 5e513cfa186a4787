import Montage.Proofs.Number.Comparison
import Montage.Proofs.Raster.Target

/-!
# Framing comes to its box

The factor of a framing is one exactly where the sides of a picture are settled: for a fitting they
lie in the box, for a filling they cover the box and one of them is that of the box
(`Framing.exists_factor_settled`). Any other factor is as near to the exact one as a rounding leaves
it, and the sides that it gives are within a quarter of a pixel of the exact ones before they are
rounded to whole pixels, so no side of moderate length is missed (`Raster.exists_scales`). The sides
are settled then (`Raster.exists_framing`), and a second framing has the factor one
(`Raster.factor_of_settled`).
-/

namespace Montage

open Binary64

namespace Framing

variable {e boxWidth boxHeight width height : ℕ}

/-- The exact factor of a framing. -/
def scale (how : Framing) (boxWidth boxHeight width height : ℕ) : ℚ :=
  match how with
  | fit => min 1 (min (boxWidth / width) (boxHeight / height))
  | fill => max (boxWidth / width) (boxHeight / height)

/-- The sides of a picture are as the framing wants them. -/
def Settled (how : Framing) (boxWidth boxHeight width height : ℕ) : Prop :=
  match how with
  | fit => width ≤ boxWidth ∧ height ≤ boxHeight
  | fill => boxWidth ≤ width ∧ boxHeight ≤ height ∧ (boxWidth = width ∨ boxHeight = height)

/-- A side of a box. -/
def IsSide (n : ℕ) : Prop :=
  1 ≤ n ∧ n ≤ 2147483647

theorem IsSide.le_pow {n : ℕ} (h : IsSide n) (he : 31 ≤ e) : (n : ℚ) ≤ 2 ^ e := by
  have hle : (n : ℚ) ≤ 2147483647 := by exact_mod_cast h.2
  have hpow : (2 : ℚ) ^ 31 ≤ 2 ^ e := pow_le_pow_right₀ (by norm_num) he
  linarith

/-- A side of a box is far below the whole numbers that roundings miss. -/
theorem IsSide.le_two_pow {n : ℕ} (h : IsSide n) : n ≤ 2 ^ 47 :=
  le_trans h.2 (by norm_num)

/-- The factor of a framing is near to the exact one, and it is one just for settled sides. -/
theorem exists_factor_settled (how : Framing) (hboxWidth : IsSide boxWidth)
    (hboxHeight : IsSide boxHeight) (hwidth : 1 ≤ width) (hheight : 1 ≤ height) (hlow : 31 ≤ e)
    (he : e ≤ 1000) (hwidth_le : (width : ℚ) ≤ 2 ^ e) (hheight_le : (height : ℚ) ≤ 2 ^ e) :
    ∃ factor, how.factor boxWidth boxHeight width height = .ok factor ∧
      factor.Near 1 (how.scale boxWidth boxHeight width height) ∧
      (factor = .one ↔ how.Settled boxWidth boxHeight width height) := by
  obtain ⟨across, hacross, hacross_near, hacross_lt, hacross_eq, hacross_gt⟩ :=
    exists_quotient_side hboxWidth.1 hwidth hboxWidth.le_two_pow he (hboxWidth.le_pow hlow)
      hwidth_le
  obtain ⟨down, hdown, hdown_near, hdown_lt, hdown_eq, hdown_gt⟩ :=
    exists_quotient_side hboxHeight.1 hheight hboxHeight.le_two_pow he (hboxHeight.le_pow hlow)
      hheight_le
  cases how with
  | fit =>
    have hsmaller := hacross_near.minimum hdown_near
    refine ⟨minimum .one (minimum across down), by rw [factor, hacross, hdown]; rfl,
      near_one.minimum hsmaller, ?_⟩
    have hvalue := value_minimum hacross_near.finite hacross_near.sign hdown_near.finite
      hdown_near.sign
    have hsettled : Settled fit boxWidth boxHeight width height ↔
        1 ≤ (minimum across down).value := by
      rw [hvalue, le_min_iff, ← not_lt, ← not_lt, hacross_lt, hdown_lt, not_lt, not_lt]
      rfl
    rw [hsettled]
    obtain ⟨heq, hle⟩ | ⟨heq, hlt⟩ := minimum_cases (x := one) rfl rfl
      hsmaller.finite hsmaller.sign
    · rw [heq]
      exact iff_of_true rfl (value_one ▸ hle)
    · rw [value_one] at hlt
      rw [heq]
      exact iff_of_false (fun hone => hlt.ne (hone ▸ value_one)) hlt.not_ge
  | fill =>
    refine ⟨maximum across down, by rw [factor, hacross, hdown]; rfl,
      hacross_near.maximum hdown_near, ?_⟩
    obtain ⟨heq, hle⟩ | ⟨heq, hlt⟩ := maximum_cases hacross_near.finite hacross_near.sign
      hdown_near.finite hdown_near.sign
    · -- The larger factor is that of the width.
      rw [heq, hacross_eq]
      constructor
      · intro hside
        rw [hacross_eq.2 hside, value_one] at hle
        exact ⟨hside.le, not_lt.1 (mt hdown_gt.2 hle.not_gt), .inl hside⟩
      · rintro ⟨hcovers, -, hside | hside⟩
        · exact hside
        · rw [hdown_eq.2 hside, value_one] at hle
          exact le_antisymm hcovers (not_lt.1 (mt hacross_lt.2 hle.not_gt))
    · -- The larger factor is that of the height.
      rw [heq, hdown_eq]
      constructor
      · intro hside
        rw [hdown_eq.2 hside, value_one] at hlt
        exact ⟨(hacross_lt.1 hlt).le, hside.le, .inr hside⟩
      · rintro ⟨-, hcovers, hside | hside⟩
        · rw [hacross_eq.2 hside, value_one] at hlt
          exact absurd hcovers (hdown_gt.1 hlt).not_ge
        · exact hside

/-- The exact factor lies in the range of the quotients of moderate sides. -/
theorem inRange_scale (how : Framing) (hboxWidth : IsSide boxWidth) (hboxHeight : IsSide boxHeight)
    (hwidth : IsSide width) (hheight : IsSide height) :
    InRange 31 (how.scale boxWidth boxHeight width height) := by
  have hside {box side : ℕ} (hbox : IsSide box) (hside : IsSide side) :
      ((2 : ℚ) ^ 31)⁻¹ ≤ box / side ∧ (box / side : ℚ) ≤ 2 ^ 31 := by
    have hbox' : (1 : ℚ) ≤ box := by exact_mod_cast hbox.1
    have hside' : (0 : ℚ) < side := by exact_mod_cast hside.1
    obtain hzero | hrange := inRange_div hside.1 (hbox.le_pow le_rfl) (hside.le_pow le_rfl)
    · rw [div_eq_zero_iff] at hzero
      obtain hzero | hzero := hzero <;> linarith
    · exact hrange
  obtain ⟨hacross_low, hacross_high⟩ := hside hboxWidth hwidth
  obtain ⟨hdown_low, hdown_high⟩ := hside hboxHeight hheight
  cases how with
  | fit =>
    exact .inr ⟨le_min (by norm_num) (le_min hacross_low hdown_low),
      le_trans (min_le_left _ _) (by norm_num)⟩
  | fill =>
    exact .inr ⟨le_trans hacross_low (le_max_left _ _), max_le hacross_high hdown_high⟩

/-- A fitting enlarges nothing. -/
theorem mul_scale_fit_le (n : ℕ) : n * fit.scale boxWidth boxHeight width height ≤ n :=
  mul_le_of_le_one_right (Nat.cast_nonneg n) (min_le_left _ _)

end Framing

namespace Raster

/-! ## The sides that a factor gives -/

variable {size target zoomed : ℕ} {q : ℚ} {factor : Binary64}

/-- What a factor near to a quotient makes of an axis: the size that is checked, and the one of the
zoomed axis. Neither of them misses a side that the exact product does not miss. -/
structure Scales (factor : Binary64) (q : ℚ) (size target zoomed : ℕ) : Prop where
  /-- The size that is compared with the limit. -/
  target_eq : targetSize size factor = .ok target
  /-- The size of the zoomed axis. -/
  zoomed_eq : zoomedSize size target = .ok zoomed
  /-- A pixel is left. -/
  pos : 1 ≤ zoomed
  /-- The size is not too large for a second scaling. -/
  zoomed_le_pow : (zoomed : ℚ) ≤ 2 ^ 64
  /-- The product is not missed from below. -/
  le_zoomed : ∀ n : ℕ, Framing.IsSide n → n ≤ size * q → n ≤ zoomed
  /-- The checked size does not miss the product from above. -/
  target_le : ∀ n : ℕ, Framing.IsSide n → size * q ≤ n → target ≤ n
  /-- The product is not missed from above. -/
  zoomed_le : ∀ n : ℕ, Framing.IsSide n → size * q ≤ n → zoomed ≤ n

/-- A factor near to a quotient scales each axis of moderate size. -/
theorem exists_scales (hsize : Framing.IsSide size) (hfactor : factor.Near 1 q)
    (hq : InRange 31 q) : ∃ target zoomed, Scales factor q size target zoomed := by
  have hsize' : (1 : ℚ) ≤ size := by exact_mod_cast hsize.1
  have hsize_le : (size : ℚ) ≤ 2 ^ 31 := hsize.le_pow le_rfl
  have hproduct_le : size * q ≤ 2 ^ 62 := by
    have hq_le : q ≤ 2 ^ 31 := by
      obtain rfl | ⟨-, hle⟩ := hq
      · norm_num
      · exact hle
    calc size * q ≤ 2 ^ 31 * 2 ^ 31 := by
          have := hfactor.nonneg
          gcongr
      _ = 2 ^ 62 := by norm_num
  have hrange : InRange 62 (size * q) := by
    obtain rfl | ⟨hge, -⟩ := hq
    · exact .inl (mul_zero _)
    · refine .inr ⟨?_, hproduct_le⟩
      calc ((2 : ℚ) ^ 62)⁻¹ ≤ (2 ^ 31)⁻¹ := by norm_num
        _ ≤ q := hge
        _ ≤ size * q := le_mul_of_one_le_left hfactor.nonneg hsize'
  have hnear := near_product (by norm_num) (by norm_num) hsize_le hfactor hrange
  obtain ⟨-, hupper⟩ := toNearestInt_near hnear.sign
  have hslack : (1 + slack) ^ 3 ≤ 3 / 2 := by norm_num [slack]
  have hslack_pos : (0 : ℚ) < (1 + slack) ^ 3 := by norm_num [slack]
  have hwhole_le : (((ofNat size).mul factor).toNearestInt.toNat : ℚ) ≤ 2 ^ 63 :=
    calc (((ofNat size).mul factor).toNearestInt.toNat : ℚ)
        ≤ ((ofNat size).mul factor).value + 1 / 2 := hupper
      _ ≤ size * q * (1 + slack) ^ 3 + 1 / 2 := by gcongr; exact hnear.upper
      _ ≤ 2 ^ 62 * (3 / 2) + 1 / 2 := by gcongr
      _ ≤ 2 ^ 63 := by norm_num
  have htarget_le : ((max 1 ((ofNat size).mul factor).toNearestInt.toNat : ℕ) : ℚ) ≤ 2 ^ 63 := by
    rw [Nat.cast_max]
    exact max_le (by norm_num) hwhole_le
  obtain ⟨zoomed, hzoomed, hzoomed_ge, hzoomed_le, hkept⟩ :=
    exists_zoomedSize (e := 63) hsize.1 (by norm_num) (hsize.le_pow (by norm_num)) htarget_le
  have htarget_side {n : ℕ} (hn : Framing.IsSide n) (hle : size * q ≤ n) :
      max 1 ((ofNat size).mul factor).toNearestInt.toNat ≤ n :=
    max_le hn.1 (hnear.toNearestInt_le (by norm_num) hn.le_two_pow hle)
  refine ⟨_, zoomed, by rw [targetSize, if_pos hnear.finite], hzoomed,
    hzoomed_ge 1 (by norm_num) (le_max_left _ _), ?_, fun n hn hle => ?_, fun n => htarget_side,
    fun n hn hle => ?_⟩
  · calc (zoomed : ℚ) ≤ _ := hzoomed_le
      _ ≤ 2 ^ 63 * (3 / 2) + 1 / 2 := by gcongr
      _ ≤ 2 ^ 64 := by norm_num
  · exact hzoomed_ge n hn.le_two_pow
      (le_trans (hnear.le_toNearestInt (by norm_num) hn.le_two_pow hle) (le_max_right _ _))
  · have htarget := htarget_side hn hle
    rw [hkept (le_trans htarget hn.le_two_pow)]
    exact htarget

/-! ## Framing a raster -/

variable {boxWidth boxHeight : ℕ} {how : Framing} {limit : Int} {r r' : Raster}

/-- Sides that a second framing can start with. -/
structure Handy (r : Raster) : Prop where
  /-- There is a row. -/
  height_pos : 1 ≤ r.height
  /-- There is a column. -/
  width_pos : 1 ≤ r.width
  /-- The rows are not too many. -/
  height_le : (r.height : ℚ) ≤ 2 ^ 64
  /-- The columns are not too many. -/
  width_le : (r.width : ℚ) ≤ 2 ^ 64

/-- A raster is what comes of bringing another one to a box. -/
structure Framed (how : Framing) (boxWidth boxHeight : ℕ) (r r' : Raster) : Prop where
  /-- The sides are as the framing wants them. -/
  settled : how.Settled boxWidth boxHeight r'.width r'.height
  /-- The sides are neither zero nor huge. -/
  handy : r'.Handy
  /-- A fitting enlarges nothing. -/
  shrunk : how = .fit → r'.width ≤ r.width ∧ r'.height ≤ r.height

theorem Moderate.isSide (h : r.Moderate) :
    Framing.IsSide r.width ∧ Framing.IsSide r.height :=
  ⟨⟨h.width_pos, h.width_le⟩, h.height_pos, h.height_le⟩

/-- A raster of moderate size has sides that a framing can start with. -/
theorem Moderate.handy (h : r.Moderate) : r.Handy :=
  ⟨h.height_pos, h.width_pos, h.isSide.2.le_pow (by norm_num), h.isSide.1.le_pow (by norm_num)⟩

/-- A raster with settled sides has the factor one. -/
theorem factor_of_settled (hboxWidth : Framing.IsSide boxWidth)
    (hboxHeight : Framing.IsSide boxHeight) (hr : r.Handy)
    (hsettled : how.Settled boxWidth boxHeight r.width r.height) :
    how.factor boxWidth boxHeight r.width r.height = .ok .one := by
  obtain ⟨factor, hfactor, -, hone⟩ := how.exists_factor_settled hboxWidth hboxHeight hr.width_pos
    hr.height_pos (by norm_num) (by norm_num) hr.width_le hr.height_le
  rw [hfactor, hone.2 hsettled]

/-- The zoomed sides of a framing are settled. -/
theorem framed_resample [Imaging] {targetHeight targetWidth height width : ℕ} {factor : Binary64}
    (hboxWidth : Framing.IsSide boxWidth) (hboxHeight : Framing.IsSide boxHeight)
    (hr : r.Moderate)
    (hheight : Scales factor (how.scale boxWidth boxHeight r.width r.height) r.height targetHeight
      height)
    (hwidth : Scales factor (how.scale boxWidth boxHeight r.width r.height) r.width targetWidth
      width) :
    Framed how boxWidth boxHeight r (Imaging.resample r height width) := by
  obtain ⟨hside_width, hside_height⟩ := hr.isSide
  have hwidth_pos : (0 : ℚ) < r.width := by exact_mod_cast hr.width_pos
  have hheight_pos : (0 : ℚ) < r.height := by exact_mod_cast hr.height_pos
  have hheight_eq := Imaging.height_resample r height width
  have hwidth_eq := Imaging.width_resample r height width
  generalize Imaging.resample r height width = r' at hheight_eq hwidth_eq ⊢
  subst hheight_eq hwidth_eq
  have hhandy : r'.Handy :=
    ⟨hheight.pos, hwidth.pos, hheight.zoomed_le_pow, hwidth.zoomed_le_pow⟩
  cases how with
  | fit =>
    have hacross : r.width * Framing.fit.scale boxWidth boxHeight r.width r.height ≤ boxWidth := by
      rw [← le_div_iff₀' hwidth_pos]
      exact le_trans (min_le_right _ _) (min_le_left _ _)
    have hdown : r.height * Framing.fit.scale boxWidth boxHeight r.width r.height ≤ boxHeight := by
      rw [← le_div_iff₀' hheight_pos]
      exact le_trans (min_le_right _ _) (min_le_right _ _)
    exact ⟨⟨hwidth.zoomed_le _ hboxWidth hacross, hheight.zoomed_le _ hboxHeight hdown⟩, hhandy,
      fun _ => ⟨hwidth.zoomed_le _ hside_width (Framing.mul_scale_fit_le _),
        hheight.zoomed_le _ hside_height (Framing.mul_scale_fit_le _)⟩⟩
  | fill =>
    have hacross : boxWidth ≤ r.width * Framing.fill.scale boxWidth boxHeight r.width r.height := by
      rw [← div_le_iff₀' hwidth_pos]
      exact le_max_left _ _
    have hdown : boxHeight ≤ r.height * Framing.fill.scale boxWidth boxHeight r.width r.height := by
      rw [← div_le_iff₀' hheight_pos]
      exact le_max_right _ _
    have hcovers_width := hwidth.le_zoomed _ hboxWidth hacross
    have hcovers_height := hheight.le_zoomed _ hboxHeight hdown
    refine ⟨⟨hcovers_width, hcovers_height, ?_⟩, hhandy, fun h => by cases h⟩
    -- The side whose quotient is the larger one comes to that of the box.
    obtain hscale | hscale := max_choice (boxWidth / r.width : ℚ) (boxHeight / r.height)
    · refine .inl (le_antisymm hcovers_width ?_)
      refine hwidth.zoomed_le _ hboxWidth ?_
      rw [Framing.scale, hscale, mul_div_cancel₀ _ hwidth_pos.ne']
    · refine .inr (le_antisymm hcovers_height ?_)
      refine hheight.zoomed_le _ hboxHeight ?_
      rw [Framing.scale, hscale, mul_div_cancel₀ _ hheight_pos.ne']

/-- Where the sides are not settled, the target has too many pixels, or the raster comes to its
box. -/
theorem exists_framing [Imaging] (how : Framing) (limit : Int) (hboxWidth : Framing.IsSide boxWidth)
    (hboxHeight : Framing.IsSide boxHeight) (hr : r.Moderate)
    (hsettled : ¬how.Settled boxWidth boxHeight r.width r.height) :
    ∃ factor, how.factor boxWidth boxHeight r.width r.height = .ok factor ∧
      ((∃ height width : ℕ, limit < (height * width : ℕ) ∧
          (how = .fit → width ≤ r.width ∧ height ≤ r.height) ∧
          r.resize limit factor = .error (.tooLarge width height limit)) ∨
        ∃ r', Framed how boxWidth boxHeight r r' ∧ r.resize limit factor = .ok (some r')) := by
  obtain ⟨hside_width, hside_height⟩ := hr.isSide
  obtain ⟨factor, hfactor, hnear, hone⟩ := how.exists_factor_settled hboxWidth hboxHeight
    hr.width_pos hr.height_pos le_rfl (by norm_num) (hside_width.le_pow le_rfl)
    (hside_height.le_pow le_rfl)
  have hrange := how.inRange_scale hboxWidth hboxHeight hside_width hside_height
  obtain ⟨targetHeight, height, hheight⟩ := exists_scales hside_height hnear hrange
  obtain ⟨targetWidth, width, hwidth⟩ := exists_scales hside_width hnear hrange
  have hresize : r.resize limit factor = _ := resize_of_sizes hnear.finite
    (less_zero hnear.finite hnear.sign) (mt hone.1 hsettled) hheight.target_eq hwidth.target_eq
    hheight.zoomed_eq hwidth.zoomed_eq
  refine ⟨factor, hfactor, ?_⟩
  by_cases hlimit : limit < (targetHeight * targetWidth : ℕ)
  · rw [if_pos hlimit] at hresize
    refine .inl ⟨targetHeight, targetWidth, hlimit, ?_, hresize⟩
    rintro rfl
    exact ⟨hwidth.target_le _ hside_width (Framing.mul_scale_fit_le _),
      hheight.target_le _ hside_height (Framing.mul_scale_fit_le _)⟩
  · rw [if_neg hlimit] at hresize
    exact .inr ⟨_, framed_resample hboxWidth hboxHeight hr hheight hwidth, hresize⟩

end Raster

end Montage
