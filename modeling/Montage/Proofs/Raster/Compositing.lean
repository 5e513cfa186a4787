import Mathlib.Data.Set.Operations
import Montage.Imaging.Standard
import Montage.Proofs.Evaluation.Operations
import Montage.Raster.Window

/-!
# Drawing is clipped compositing

A raster is drawn on another one by copying a window of the one into a window of the other. On each
axis the bounds of both windows lie on their axis and are not below zero, and they span as many
places (`within_boundsInWhole`, `within_boundsInPart`, `count_boundsInPart`). So the window is put
without a fault, and what comes out is `overlay` (`copyOver_eq`). The main statement,
`Studio.overlay_composites`, says what becomes of two pictures of a store, of whatever size and
colours they are.
-/

namespace Montage

open Effect

namespace Raster

/-! ## Bounds within an axis -/

namespace Bounds

/-- A range whose bounds lie on an axis of `n` places, in their order. -/
structure Within (b : Bounds) (n : Nat) : Prop where
  /-- No bound counts from the end. -/
  nonneg : 0 ≤ b.first
  /-- The bounds are in order. -/
  ordered : b.first ≤ b.last
  /-- No bound is cut off. -/
  last_le : b.last ≤ n

/-- A bound on the axis stands for the place that it names. -/
theorem resolve_eq {n : Nat} {bound : Int} (hnonneg : 0 ≤ bound) (hle : bound ≤ n) :
    (resolve n bound : Int) = bound := by
  unfold resolve
  rw [if_neg (Int.not_lt.2 hnonneg)]
  omega

variable {b : Bounds} {n : Nat}

theorem Within.start_eq (h : b.Within n) : (b.start n : Int) = b.first :=
  resolve_eq h.nonneg (Int.le_trans h.ordered h.last_le)

theorem Within.count_eq (h : b.Within n) : (b.count n : Int) = b.last - b.first := by
  have hfirst := resolve_eq h.nonneg (Int.le_trans h.ordered h.last_le)
  have hlast := resolve_eq (Int.le_trans h.nonneg h.ordered) h.last_le
  have hordered := h.ordered
  unfold count
  omega

/-- The range has the places from its first bound up to its last one. -/
theorem Within.has_iff (h : b.Within n) {i : Nat} :
    b.Has n i ↔ b.first ≤ i ∧ (i : Int) < b.last := by
  have hstart := h.start_eq
  have hcount := h.count_eq
  unfold Has
  omega

end Bounds

/-! ## The bounds of a drawing -/

section Axis

variable {whole part i : Nat}

/-- Where the part lies on the whole, its bounds do so too. -/
theorem within_boundsInWhole (h : overlaps whole part = true) :
    (boundsInWhole whole part).Within whole := by
  have hless := of_decide_eq_true h
  unfold boundsInWhole
  constructor <;> simp only <;> omega

/-- The bounds lie on the part itself. -/
theorem within_boundsInPart (h : overlaps whole part = true) :
    (boundsInPart whole part).Within part := by
  have hless := of_decide_eq_true h
  unfold boundsInPart boundsInWhole
  constructor <;> simp only <;> omega

/-- The bounds on the part are those on the whole, moved to where the part starts. -/
theorem first_boundsInPart (whole part : Nat) : (boundsInPart whole part).first =
    (boundsInWhole whole part).first - centred whole part := rfl

theorem last_boundsInPart (whole part : Nat) : (boundsInPart whole part).last =
    (boundsInWhole whole part).last - centred whole part := rfl

/-- As many places are drawn as are drawn on. -/
theorem count_boundsInPart (h : overlaps whole part = true) :
    (boundsInPart whole part).count part = (boundsInWhole whole part).count whole := by
  have hpart := (within_boundsInPart h).count_eq
  have hwhole := (within_boundsInWhole h).count_eq
  rw [first_boundsInPart, last_boundsInPart] at hpart
  omega

/-- The places that are drawn on are those that the part covers. -/
theorem has_boundsInWhole_iff (h : overlaps whole part = true) (hi : i < whole) :
    (boundsInWhole whole part).Has whole i ↔ Covers whole part i := by
  rw [(within_boundsInWhole h).has_iff]
  unfold boundsInWhole Covers
  simp only
  omega

/-- A place that is drawn on is as far from the first one as some place that is drawn. -/
theorem sub_start_lt_count (h : overlaps whole part = true) (hi : i < whole)
    (hcovers : Covers whole part i) :
    i - (boundsInWhole whole part).start whole < (boundsInPart whole part).count part := by
  obtain ⟨hfirst, hlast⟩ := (has_boundsInWhole_iff h hi).2 hcovers
  rw [count_boundsInPart h]
  omega

/-- What is drawn on a place is the place of the part that lies on it. -/
theorem start_boundsInPart (h : overlaps whole part = true) (hi : i < whole)
    (hcovers : Covers whole part i) :
    (boundsInPart whole part).start part + (i - (boundsInWhole whole part).start whole) =
      placeInPart whole part i := by
  have hwhole := (within_boundsInWhole h).start_eq
  have hpart := (within_boundsInPart h).start_eq
  have hhas := ((has_boundsInWhole_iff h hi).2 hcovers).1
  rw [first_boundsInPart] at hpart
  unfold placeInPart
  omega

/-- Where a place is covered, the part lies on the whole. -/
theorem overlaps_of_covers (hi : i < whole) (h : Covers whole part i) :
    overlaps whole part = true := by
  unfold Covers at h
  unfold overlaps
  rw [decide_eq_true_eq]
  omega

end Axis

variable {base above drawn : Raster}

/-- The windows of a drawing lie in their rasters, and have the same shape. -/
structure Aligned (base above : Raster) : Prop where
  /-- The rows that are drawn on are rows of the raster below. -/
  targetRows : (base.targetWindow above).rows.Within base.height
  /-- Its columns are drawn on. -/
  targetColumns : (base.targetWindow above).columns.Within base.width
  /-- The rows that are drawn are rows of the raster above. -/
  sourceRows : (base.sourceWindow above).rows.Within above.height
  /-- Its columns are drawn. -/
  sourceColumns : (base.sourceWindow above).columns.Within above.width
  /-- What is drawn has the shape of what is drawn on. -/
  shape : (above.view (base.sourceWindow above)).shape =
    (base.view (base.targetWindow above)).shape

/-- Rasters with the same channels are aligned wherever one of them lies on the other. -/
theorem aligned_of_meets (hchannels : above.channels = base.channels)
    (h : base.meets above = true) : Aligned base above := by
  obtain ⟨hrows, hcolumns⟩ := Bool.and_eq_true_iff.1 h
  refine ⟨within_boundsInWhole hrows, within_boundsInWhole hcolumns, within_boundsInPart hrows,
    within_boundsInPart hcolumns, ?_⟩
  have hheight : (above.view (base.sourceWindow above)).height =
      (base.view (base.targetWindow above)).height := count_boundsInPart hrows
  have hwidth : (above.view (base.sourceWindow above)).width =
      (base.view (base.targetWindow above)).width := count_boundsInPart hcolumns
  have hdepth : (above.view (base.sourceWindow above)).channels =
      (base.view (base.targetWindow above)).channels := hchannels
  unfold shape
  rw [hheight, hwidth, hdepth]

/-- Where no pixel would be replaced, drawing changes nothing. -/
theorem overlay_eq_self (h : base.meets above = false) : base.overlay above = base := by
  refine ext_get rfl rfl rfl fun y hy x hx c hc => ?_
  refine get_overlay_outside hy hx hc fun ⟨hrow, hcolumn⟩ => ?_
  have hmeets : base.meets above = true :=
    Bool.and_eq_true_iff.2 ⟨overlaps_of_covers hy hrow, overlaps_of_covers hx hcolumn⟩
  rw [h] at hmeets
  cases hmeets

/-- Copying window by window draws. -/
theorem copyOver_eq (hchannels : above.channels = base.channels) :
    base.copyOver above = some (base.overlay above) := by
  unfold copyOver
  split
  · rename_i hmeets
    obtain ⟨hrows, hcolumns⟩ := Bool.and_eq_true_iff.1 hmeets
    unfold put overlay
    rw [if_pos (aligned_of_meets hchannels hmeets).shape, Option.some.injEq]
    refine generate_congr fun y hy x hx c hc => ?_
    have hcovers : (base.targetWindow above).rows.Has base.height y ∧
        (base.targetWindow above).columns.Has base.width x ↔
          Covers base.height above.height y ∧ Covers base.width above.width x :=
      and_congr (has_boundsInWhole_iff hrows hy) (has_boundsInWhole_iff hcolumns hx)
    by_cases hunder : Covers base.height above.height y ∧ Covers base.width above.width x
    · have hc' : c < above.depth := by
        rw [depth, hchannels]
        exact hc
      have hrow := sub_start_lt_count hrows hy hunder.1
      have hcolumn := sub_start_lt_count hcolumns hx hunder.2
      have hget := get_view (w := base.sourceWindow above) hrow hcolumn hc'
      have hy' := start_boundsInPart hrows hy hunder.1
      have hx' := start_boundsInPart hcolumns hx hunder.2
      rw [if_pos (hcovers.2 hunder), if_pos hunder, ← hy', ← hx']
      exact hget
    · rw [if_neg (mt hcovers.1 hunder), if_neg hunder]
  · rename_i hmeets
    rw [overlay_eq_self (Bool.eq_false_iff.2 hmeets)]

/-! ## Colours -/

/-- Only flat rasters and those of three or four channels have colours. -/
def Supported (r : Raster) : Prop :=
  r.channels = none ∨ r.channels = some 3 ∨ r.channels = some 4

variable {r : Raster}

theorem colours_of_supported (h : r.Supported) :
    ∃ colours, r.colours = .ok colours ∧ colours.channels = r.channels := by
  unfold Raster.colours
  obtain h | h | h := h
  · rw [h]
    exact ⟨.grey, rfl, rfl⟩
  · rw [h]
    exact ⟨.rgb, rfl, rfl⟩
  · rw [h]
    exact ⟨.rgba, rfl, rfl⟩

theorem colours_of_not_supported (h : ¬ r.Supported) : r.colours = .error (.shape r.shape) := by
  unfold Raster.colours
  split
  · rename_i hchannels
    exact absurd (.inl hchannels) h
  · rename_i hchannels
    exact absurd (.inr (.inl hchannels)) h
  · rename_i hchannels
    exact absurd (.inr (.inr hchannels)) h
  · rfl

/-- A raster is another one in the colours of a third one. -/
structure Conformed [Imaging] (base above drawn : Raster) : Prop where
  /-- It has as many rows. -/
  height : drawn.height = above.height
  /-- It has as many columns. -/
  width : drawn.width = above.width
  /-- Its channels are those of the raster below. -/
  channels : drawn.channels = base.channels
  /-- Each of its pixels is that of the raster above, converted. -/
  sample : ∃ source target, above.colours = .ok source ∧ base.colours = .ok target ∧
    ∀ y < above.height, ∀ x < above.width, ∀ c < base.depth,
      drawn.get y x c = Imaging.convertSample source target (above.get y x) c

/-- A raster of supported shape can be brought to the colours of another one. -/
theorem exists_conform [Imaging] (habove : above.Supported) (hbase : base.Supported) :
    ∃ given, above.conform base = .ok given ∧ Conformed base above (given.getD above) := by
  obtain ⟨source, hsource, hsource_channels⟩ := colours_of_supported habove
  obtain ⟨target, htarget, htarget_channels⟩ := colours_of_supported hbase
  have hdepth : base.depth = target.channels.getD 1 := by
    rw [depth, htarget_channels]
  unfold conform
  rw [hsource, htarget]
  by_cases hsame : source = target
  · subst hsame
    have hchannels := hsource_channels.symm.trans htarget_channels
    refine ⟨none, if_pos rfl, rfl, rfl, hchannels, source, source, hsource, htarget,
      fun y _ x _ c hc => ?_⟩
    rw [hdepth] at hc
    exact (Imaging.convertSample_self source (above.get y x) hc).symm
  · refine ⟨some _, if_neg hsame, rfl, rfl, htarget_channels, source, target, hsource, htarget,
      fun y hy x hx c hc => ?_⟩
    rw [hdepth] at hc
    rw [Option.getD_some, get_generate hy hx hc]

/-! ## Compositing -/

/-- No two places of the whole lie under one place of the part. -/
theorem placeInPart_inj {whole part i j : Nat} (hi : Covers whole part i) (hj : Covers whole part j)
    (h : placeInPart whole part i = placeInPart whole part j) : i = j := by
  unfold Covers at hi hj
  unfold placeInPart at h
  omega

/-- A raster is another one with a third one drawn on its centre, without what hangs over the
edges. -/
structure Composited (base drawn result : Raster) : Prop where
  /-- The shape is that of the raster below. -/
  shape : result.shape = base.shape
  /-- A pixel is the one that is drawn on it where there is one, and the old one elsewhere. -/
  pixel : ∀ y < base.height, ∀ x < base.width, ∀ c < base.depth,
    let row : Int := y - centred base.height drawn.height
    let column : Int := x - centred base.width drawn.width
    result.get y x c =
      if (0 ≤ row ∧ row < drawn.height) ∧ 0 ≤ column ∧ column < drawn.width then
        drawn.get row.toNat column.toNat c
      else base.get y x c
  /-- Every pixel whose place lies on the raster below is drawn there. -/
  all : ∀ row < drawn.height, ∀ column < drawn.width, ∀ y < base.height, ∀ x < base.width,
    (y : Int) = centred base.height drawn.height + row →
    (x : Int) = centred base.width drawn.width + column →
    ∀ c < base.depth, result.get y x c = drawn.get row column c
  /-- No pixel is drawn at two places. -/
  once : Set.InjOn
    (fun place : Nat × Nat => (placeInPart base.height drawn.height place.1,
      placeInPart base.width drawn.width place.2))
    {place | Covers base.height drawn.height place.1 ∧ Covers base.width drawn.width place.2}

/-- Drawing is compositing. -/
theorem composited_overlay (base drawn : Raster) : Composited base drawn (base.overlay drawn) where
  shape := rfl
  pixel := by
    intro y hy x hx c hc row column
    have hcovers : (0 ≤ row ∧ row < drawn.height) ∧ 0 ≤ column ∧ column < drawn.width ↔
        Covers base.height drawn.height y ∧ Covers base.width drawn.width x := by
      unfold Covers
      omega
    by_cases hunder : Covers base.height drawn.height y ∧ Covers base.width drawn.width x
    · rw [get_overlay_inside hy hx hc hunder.1 hunder.2, if_pos (hcovers.2 hunder)]
      rfl
    · rw [get_overlay_outside hy hx hc hunder, if_neg (mt hcovers.1 hunder)]
  all := by
    intro row hrow column hcolumn y hy x hx hy' hx' c hc
    have hrows : Covers base.height drawn.height y := by
      unfold Covers
      omega
    have hcolumns : Covers base.width drawn.width x := by
      unfold Covers
      omega
    have hrow' : placeInPart base.height drawn.height y = row := by
      unfold placeInPart
      omega
    have hcolumn' : placeInPart base.width drawn.width x = column := by
      unfold placeInPart
      omega
    rw [get_overlay_inside hy hx hc hrows hcolumns, hrow', hcolumn']
  once := by
    rintro ⟨y, x⟩ ⟨hy, hx⟩ ⟨y', x'⟩ ⟨hy', hx'⟩ heq
    obtain ⟨hrow, hcolumn⟩ := Prod.mk.inj heq
    exact Prod.ext (placeInPart_inj hy hy' hrow) (placeInPart_inj hx hx' hcolumn)

end Raster

/-! ## Drawing in a store -/

namespace Studio

variable {s : Studio} {p q : Place}

/-- Pictures of supported shapes are composited. -/
theorem exists_exec_overlay [Imaging] (hp : p < s.pictures.size) (habove : (s.picture q).Supported)
    (hbase : (s.picture p).Supported) : ∃ drawn s', exec (overlay p q) s = (.ok p, s') ∧
      Raster.Conformed (s.picture p) (s.picture q) drawn ∧
      s'.picture p = (s.picture p).overlay drawn ∧ s'.pictures.size = s.pictures.size ∧
      ∀ other, other ≠ p → s'.picture other = s.picture other := by
  obtain ⟨given, hgiven, hconformed⟩ := Raster.exists_conform habove hbase
  have hexec := exec_overlay s p q
  rw [hgiven] at hexec
  simp only at hexec
  split at hexec
  · refine ⟨_, _, hexec, hconformed, picture_replace hp _, by simp [replace], fun other hne => ?_⟩
    simp [replace, picture, Ne.symm hne]
  · rename_i hmeets
    refine ⟨_, _, hexec, hconformed, ?_, rfl, fun other _ => rfl⟩
    exact (Raster.overlay_eq_self (Bool.eq_false_iff.2 hmeets)).symm

/-- Drawing one picture of a store on another one is clipped compositing. If the picture above, or
else the one below, has a shape without colours, drawing fails with that shape and leaves the store
as it is. Otherwise it answers the place of the picture below. What lies there then is what it was
with the picture above on its centre, in its own colours. Copying window by window makes the same,
and all windows are aligned. All other pictures stay. -/
theorem overlay_composites [Imaging] (hp : p < s.pictures.size) :
    (¬ (s.picture q).Supported →
      exec (overlay p q) s = (.error (.shape (s.picture q).shape), s)) ∧
    ((s.picture q).Supported → ¬ (s.picture p).Supported →
      exec (overlay p q) s = (.error (.shape (s.picture p).shape), s)) ∧
    ((s.picture q).Supported → (s.picture p).Supported →
      ∃ drawn s', exec (overlay p q) s = (.ok p, s') ∧
        Raster.Conformed (s.picture p) (s.picture q) drawn ∧
        Raster.Composited (s.picture p) drawn (s'.picture p) ∧
        (s.picture p).copyOver drawn = some (s'.picture p) ∧
        ((s.picture p).meets drawn = true → Raster.Aligned (s.picture p) drawn) ∧
        s'.pictures.size = s.pictures.size ∧
        ∀ other, other ≠ p → s'.picture other = s.picture other) := by
  refine ⟨?_, ?_, ?_⟩
  · intro habove
    rw [exec_overlay, Raster.conform, Raster.colours_of_not_supported habove]
    rfl
  · intro habove hbase
    obtain ⟨source, hsource, -⟩ := Raster.colours_of_supported habove
    rw [exec_overlay, Raster.conform, hsource, Raster.colours_of_not_supported hbase]
    rfl
  · intro habove hbase
    obtain ⟨drawn, s', hexec, hconformed, hresult, hsize, hother⟩ :=
      exists_exec_overlay hp habove hbase
    refine ⟨drawn, s', hexec, hconformed, ?_, ?_, ?_, hsize, hother⟩
    · rw [hresult]
      exact Raster.composited_overlay _ drawn
    · rw [hresult]
      exact Raster.copyOver_eq hconformed.channels
    · exact Raster.aligned_of_meets hconformed.channels

attribute [local instance] Imaging.standard

/-- A flat picture of two rows and five columns on one of three rows and two columns: its third
column lies on the second one, and the last row stays. -/
theorem overlay_composites_clipped :
    let base := Raster.generate 3 2 (some 3) fun y x c => UInt8.ofNat (10 * y + 3 * x + c)
    let above := Raster.generate 2 5 none fun y x _ => UInt8.ofNat (100 + 10 * y + x)
    ∃ s', exec (overlay 0 1) ⟨#[base, above], #[]⟩ = (.ok 0, s') ∧
      (s'.picture 0).get 1 1 2 = 112 ∧ (s'.picture 0).get 2 1 2 = 25 := by
  intro base above
  let s : Studio := ⟨#[base, above], #[]⟩
  have hp : 0 < s.pictures.size := by decide
  obtain ⟨drawn, s', hexec, hconformed, hcomposited, -⟩ :=
    (overlay_composites (q := 1) hp).2.2 (.inl rfl) (.inr (.inl rfl))
  obtain ⟨source, target, hsource, htarget, hsample⟩ := hconformed.sample
  obtain rfl : Raster.Colours.grey = source := Except.ok.inj hsource
  obtain rfl : Raster.Colours.rgb = target := Except.ok.inj htarget
  have hheight : drawn.height = 2 := hconformed.height
  have hwidth : drawn.width = 5 := hconformed.width
  -- The picture above starts in the first row, and one column to the left of the picture below.
  have htop : Raster.centred (s.picture 0).height drawn.height = 0 := by
    rw [hheight]
    decide
  have hleft : Raster.centred (s.picture 0).width drawn.width = -1 := by
    rw [hwidth]
    decide
  refine ⟨s', hexec, ?_, ?_⟩
  · have hplace : (s'.picture 0).get 1 1 2 = drawn.get 1 2 2 := by
      apply hcomposited.all 1 (by omega) 2 (by omega) 1 (by decide) 1 (by decide)
      · rw [htop]
        decide
      · rw [hleft]
        decide
      · decide
    rw [hplace, hsample 1 (by decide) 2 (by decide) 2 (by decide)]
    decide +kernel
  · have hbelow : ¬((0 ≤ (2 : Int) - 0 ∧ (2 : Int) - 0 < drawn.height) ∧
        0 ≤ (1 : Int) - -1 ∧ (1 : Int) - -1 < drawn.width) := by
      omega
    have hpixel := hcomposited.pixel 2 (by decide) 1 (by decide) 2 (by decide)
    rw [htop, hleft] at hpixel
    refine (hpixel.trans (if_neg hbelow)).trans ?_
    decide +kernel

end Studio

end Montage
