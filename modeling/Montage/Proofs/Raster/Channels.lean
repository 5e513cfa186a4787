import Montage.Proofs.Evaluation.Paired

/-!
# Channels do not mix

To someone who sees only some channels of pictures in red, green, blue and opacity, two rasters may
look alike although they differ elsewhere (`Raster.SeenAlike`). Scaling, blurring and drawing
cannot tell such rasters apart: both times the operation fails with the same fault, or else it
succeeds and what it makes looks alike again. Each sample is made of samples of its own channel,
and sizes, faults and the decision whether anything is drawn at all depend on shapes only.
-/

namespace Montage.Raster

open Effect

/-- Two rasters of one shape look alike to someone who sees only some channels. -/
structure SeenAlike (seen : Nat → Prop) (r q : Raster) : Prop extends SameShape r q where
  /-- Where there are rows, there are red, green, blue and opacity. -/
  colours : r.height = 0 ∨ r.channels = some 4
  /-- The channels that are seen are the same. -/
  samples : ∀ c < 4, seen c → r.SameChannel c q

variable {seen : Nat → Prop} {r q below below' : Raster} {limit : Int}

/-- A row has a pixel in all four channels. -/
theorem SeenAlike.depth_eq {y : Nat} (h : SeenAlike seen r q) (hy : y < r.height) :
    r.depth = 4 ∧ q.depth = 4 := by
  have hchannels : r.channels = some 4 := by
    rcases h.colours with hheight | hchannels
    · omega
    · exact hchannels
  refine ⟨?_, ?_⟩
  · rw [depth, hchannels, Option.getD_some]
  · rw [depth, h.channels, hchannels, Option.getD_some]

/-- Rasters of one size look alike where their samples are made alike. -/
theorem seenAlike_generate {height width : Nat} {channels : Option Nat}
    {f g : Nat → Nat → Nat → UInt8} (hcolours : height = 0 ∨ channels = some 4)
    (h : ∀ y < height, ∀ x < width, ∀ c < 4, seen c → f y x c = g y x c) :
    SeenAlike seen (generate height width channels f) (generate height width channels g) where
  height := rfl
  width := rfl
  channels := rfl
  colours := hcolours
  samples := by
    intro c hc hseen y hy x hx
    have hy' : y < height := hy
    have hx' : x < width := hx
    have hchannels : channels = some 4 := by
      rcases hcolours with hheight | hchannels
      · omega
      · exact hchannels
    have hc' : c < channels.getD 1 := by
      rw [hchannels]
      exact hc
    rw [get_generate hy' hx' hc', get_generate hy' hx' hc']
    exact h y hy' x hx' c hc hseen

/-! ## Scaling -/

/-- An axis without pixels cannot be zoomed. -/
theorem pos_of_zoomedSize {size target zoomed : Nat} (h : zoomedSize size target = .ok zoomed) :
    0 < size := by
  refine Nat.pos_of_ne_zero fun hzero => ?_
  subst hzero
  unfold zoomedSize Binary64.quotient at h
  simp at h

variable [Imaging]

/-- Rasters that look alike are interpolated alike, as each channel is interpolated by itself. -/
theorem seenAlike_resample (h : SeenAlike seen r q) (hheight : 0 < r.height) (hwidth : 0 < r.width)
    (height width : Nat) :
    SeenAlike seen (Imaging.resample r height width) (Imaging.resample q height width) where
  height := by rw [Imaging.height_resample, Imaging.height_resample]
  width := by rw [Imaging.width_resample, Imaging.width_resample]
  channels := by rw [Imaging.channels_resample, Imaging.channels_resample, h.channels]
  colours := by
    rw [Imaging.channels_resample]
    exact .inr (h.colours.resolve_left (Nat.ne_of_gt hheight))
  samples c hc hseen := by
    obtain ⟨hdepth, -⟩ := h.depth_eq hheight
    exact Imaging.sameChannel_resample h.toSameShape hheight hwidth (by omega)
      (h.samples c hc hseen) height width

/-- Rasters that look alike are scaled alike. -/
theorem seenAlike_resize (h : SeenAlike seen r q) (limit : Int) (factor : Binary64) :
    AnswersAlike (Option.Rel (SeenAlike seen)) (r.resize limit factor)
      (q.resize limit factor) := by
  unfold resize
  rw [h.height, h.width]
  split
  · exact .error _
  · split
    · exact .ok .none
    · refine .bind_same _ fun height hheight => .bind_same _ fun width hwidth => ?_
      split
      · exact .error _
      · refine .bind_same _ fun zoomedHeight hzoomedHeight => ?_
        refine .bind_same _ fun zoomedWidth hzoomedWidth => ?_
        have hrows : 0 < r.height := pos_of_zoomedSize hzoomedHeight
        have hcolumns : 0 < r.width := pos_of_zoomedSize hzoomedWidth
        exact .ok (.some (seenAlike_resample h hrows hcolumns zoomedHeight zoomedWidth))

/-! ## Blurring -/

/-- Rasters that look alike look alike under a bell curve, as each channel is blurred by itself. -/
theorem seenAlike_gaussian (h : SeenAlike seen r q) (sigma : Binary64) (down across : Nat) :
    SeenAlike seen (Imaging.gaussian sigma down across r)
      (Imaging.gaussian sigma down across q) := by
  have hr := Imaging.sameShape_gaussian sigma down across r
  have hq := Imaging.sameShape_gaussian sigma down across q
  refine ⟨⟨?_, ?_, ?_⟩, ?_, fun c hc hseen => ?_⟩
  · rw [hq.height, hr.height, h.height]
  · rw [hq.width, hr.width, h.width]
  · rw [hq.channels, hr.channels, h.channels]
  · rw [hr.height, hr.channels]
    exact h.colours
  · intro y hy x hx
    have hrows : y < r.height := hr.height ▸ hy
    obtain ⟨hdepth, -⟩ := h.depth_eq hrows
    exact Imaging.sameChannel_gaussian h.toSameShape (by omega) (h.samples c hc hseen) sigma down
      across y hy x hx

/-- Rasters that look alike are blurred alike. -/
theorem seenAlike_blur (h : SeenAlike seen r q) (sigma : Binary64) :
    AnswersAlike (Option.Rel (SeenAlike seen)) (r.blur sigma) (q.blur sigma) := by
  unfold blur
  rw [h.height, h.width]
  split
  · exact .error _
  · split
    · exact .ok .none
    · refine .bind_same _ fun radius _ => ?_
      exact .ok (.some (seenAlike_gaussian h _ _ _))

/-! ## Drawing -/

omit [Imaging] in
/-- Nothing is drawn where one of the pictures has no rows. -/
theorem meets_eq_false {base above : Raster} (h : base.height = 0 ∨ above.height = 0) :
    base.meets above = false := by
  have hrows : overlaps base.height above.height = false := by
    unfold overlaps
    rw [decide_eq_false_iff_not]
    rcases h with h | h
    · rw [h]
      omega
    · rw [h]
      omega
  rw [meets, hrows, Bool.false_and]

omit [Imaging] in
/-- The colours depend on the shape only. -/
theorem SeenAlike.colours_eq (h : SeenAlike seen r q) : q.colours = r.colours := by
  unfold Raster.colours shape
  rw [h.height, h.width, h.channels]

/-- Nothing is done about the colours where there are red, green, blue and opacity already. -/
theorem conform_eq_none (hr : r.channels = some 4) (hq : q.channels = some 4) :
    r.conform q = .ok none := by
  unfold conform Raster.colours
  rw [hr, hq]
  rfl

/-- Rasters that look alike get other colours, or the same fault, alike. Their size stays. -/
theorem conform_alike (h : SeenAlike seen r q) (hbelow : SeenAlike seen below below') :
    AnswersAlike
      (fun made made' => (made.getD r).height = r.height ∧ (made'.getD q).height = r.height)
      (r.conform below) (q.conform below') := by
  unfold conform
  rw [h.colours_eq, hbelow.colours_eq]
  refine .bind_same _ fun source _ => .bind_same _ fun target _ => ?_
  split
  · exact .ok ⟨rfl, h.height⟩
  · exact .ok ⟨rfl, h.height⟩

omit [Imaging] in
/-- A pixel is covered or it stays, in all channels. -/
theorem seenAlike_overlay (h : SeenAlike seen r q) (hbelow : SeenAlike seen below below') :
    SeenAlike seen (below.overlay r) (below'.overlay q) := by
  unfold overlay
  rw [h.height, h.width, hbelow.height, hbelow.width, hbelow.channels]
  refine seenAlike_generate hbelow.colours fun y hy x hx c hc hseen => ?_
  split
  · rename_i hcovers
    exact h.samples c hc hseen _ (placeInPart_lt hcovers.1) _ (placeInPart_lt hcovers.2)
  · exact hbelow.samples c hc hseen y hy x hx

/-- Rasters that look alike are drawn alike on rasters that look alike: the same fault, both times
beside one another, or what is drawn looks alike. -/
theorem drawn_alike (h : SeenAlike seen r q) (hbelow : SeenAlike seen below below') :
    AnswersAlike
      (fun made made' => below'.meets (made'.getD q) = below.meets (made.getD r) ∧
        (below.meets (made.getD r) = true →
          SeenAlike seen (below.overlay (made.getD r)) (below'.overlay (made'.getD q))))
      (r.conform below) (q.conform below') := by
  by_cases hrows : below.height = 0 ∨ r.height = 0
  · -- Nothing is drawn, whatever the colours are.
    refine (conform_alike h hbelow).imp fun made made' ⟨hheight, hheight'⟩ => ?_
    have hmeets : below.meets (made.getD r) = false := by
      refine meets_eq_false (hrows.imp id fun hzero => ?_)
      rw [hheight, hzero]
    have hmeets' : below'.meets (made'.getD q) = false := by
      refine meets_eq_false (hrows.imp (fun hzero => ?_) fun hzero => ?_)
      · rw [hbelow.height, hzero]
      · rw [hheight', hzero]
    rw [hmeets, hmeets']
    exact ⟨rfl, nofun⟩
  · obtain ⟨hbelow_rows, hr_rows⟩ := not_or.1 hrows
    have hr : r.channels = some 4 := h.colours.resolve_left hr_rows
    have hbelow_channels : below.channels = some 4 := hbelow.colours.resolve_left hbelow_rows
    rw [conform_eq_none hr hbelow_channels,
      conform_eq_none (h.channels.trans hr) (hbelow.channels.trans hbelow_channels)]
    refine .ok ⟨?_, fun _ => seenAlike_overlay h hbelow⟩
    unfold meets
    rw [Option.getD_none, Option.getD_none, h.height, h.width, hbelow.height, hbelow.width]

end Montage.Raster
