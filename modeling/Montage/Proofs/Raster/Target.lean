import Montage.Proofs.Raster.Extent

/-!
# The sizes that are checked

A scaling compares the sizes that its factor gives to the axes with the limit, and then zooms each
axis by the quotient of that size and its own, which is rounded once more. As long as no size is
above `2147483647`, the zoomed axis has exactly the size that was compared (`zoomedSize_eq`). So a
scaled raster never has more pixels than the limit, and a raster is too large exactly when the sizes
of its target say so (`resize_eq`). The other steps keep the shape of the raster that they are
applied to, and so all pictures of a chain keep to the shape of its image (`ShapedBy.step`).
-/

namespace Montage

open Effect

namespace Raster

variable {limit : Int} {r r' root : Raster} {factor : Binary64} {height width : ℕ}

/-! ## The sizes of the axes -/

/-- A raster whose sides are at most `2147483647`, and not zero. -/
structure Moderate (r : Raster) : Prop where
  /-- There is a row. -/
  height_pos : 1 ≤ r.height
  /-- The rows are not too many. -/
  height_le : r.height ≤ 2147483647
  /-- There is a column. -/
  width_pos : 1 ≤ r.width
  /-- The columns are not too many. -/
  width_le : r.width ≤ 2147483647

/-- Zooming an axis to a size gives that size. -/
theorem zoomedSize_eq {size target : ℕ} (hsize : 1 ≤ size) (hsize_le : size ≤ 2147483647)
    (htarget_le : target ≤ 2147483647) : zoomedSize size target = .ok target := by
  have hbound {n : ℕ} (hn : n ≤ 2147483647) : (n : ℚ) ≤ 2 ^ 31 := by
    have hn' : (n : ℚ) ≤ 2147483647 := by exact_mod_cast hn
    linarith
  obtain ⟨zoomed, hzoomed, -, -, heq⟩ :=
    exists_zoomedSize hsize (by norm_num) (hbound hsize_le) (hbound htarget_le)
  rw [hzoomed, heq (le_trans htarget_le (by norm_num))]

/-- A factor leaves one pixel at least. -/
theorem one_le_of_targetSize {size target : ℕ} (h : targetSize size factor = .ok target) :
    1 ≤ target := by
  unfold targetSize at h
  simp only at h
  split at h
  · cases h
    exact le_max_left _ _
  · cases h

/-! ## Scaling -/

/-- What a scaling has made is the raster itself, where the factor is one, or a raster whose sizes
have been compared with the limit and then zoomed. -/
theorem exists_of_resize [Imaging] {made : Option Raster} (h : r.resize limit factor = .ok made) :
    factor = .one ∧ made = none ∨ ∃ height width, targetSize r.height factor = .ok height ∧
      targetSize r.width factor = .ok width ∧ (height * width : ℕ) ≤ limit ∧
      ∃ zoomedHeight zoomedWidth, zoomedSize r.height height = .ok zoomedHeight ∧
        zoomedSize r.width width = .ok zoomedWidth ∧
        made = some (Imaging.resample r zoomedHeight zoomedWidth) := by
  unfold resize at h
  by_cases hinvalid : (!factor.isFinite || factor.less (.zero false)) = true
  · rw [if_pos hinvalid] at h
    cases h
  · rw [if_neg hinvalid] at h
    by_cases hone : factor = .one
    · rw [if_pos hone] at h
      cases h
      exact .inl ⟨hone, rfl⟩
    · rw [if_neg hone] at h
      obtain ⟨height, hheight, h⟩ := Chain.bind_eq_ok_iff.1 h
      obtain ⟨width, hwidth, h⟩ := Chain.bind_eq_ok_iff.1 h
      by_cases hlimit : limit < (height * width : ℕ)
      · rw [if_pos hlimit] at h
        cases h
      · rw [if_neg hlimit] at h
        obtain ⟨zoomedHeight, hzoomedHeight, h⟩ := Chain.bind_eq_ok_iff.1 h
        obtain ⟨zoomedWidth, hzoomedWidth, h⟩ := Chain.bind_eq_ok_iff.1 h
        cases h
        exact .inr ⟨height, width, hheight, hwidth, Int.not_lt.1 hlimit, zoomedHeight, zoomedWidth,
          hzoomedHeight, hzoomedWidth, rfl⟩

/-- A raster has the shape that a limit allows in a chain with a certain image at its root. -/
structure ShapedBy (limit : Int) (root r : Raster) : Prop where
  /-- There are as many channels as in the image, on an axis of their own or not. -/
  channels : r.channels = root.channels
  /-- The sides are those of the image, or else the pixels are not more than the limit. -/
  size : r.height = root.height ∧ r.width = root.width ∨ (r.height * r.width : ℕ) ≤ limit

/-- A step of a chain does not go beyond sides of `2147483647`: the sizes of the target of a framing
are at most that, at least where they pass the limit. -/
def ModerateTarget (limit : Int) (r : Raster) : Step Raster → Prop
  | .frame how boxWidth boxHeight => ∀ factor height width,
    how.factor boxWidth boxHeight r.width r.height = .ok factor →
      targetSize r.height factor = .ok height → targetSize r.width factor = .ok width →
      (height * width : ℕ) ≤ limit → height ≤ 2147483647 ∧ width ≤ 2147483647
  | .blur _ => True
  | .overlay _ => True

/-- A raster of the same shape is as moderate. -/
theorem Moderate.of_shape (h : r.Moderate) (hheight : r'.height = r.height)
    (hwidth : r'.width = r.width) : r'.Moderate := by
  obtain ⟨height_pos, height_le, width_pos, width_le⟩ := h
  rw [← hheight] at height_pos height_le
  rw [← hwidth] at width_pos width_le
  exact ⟨height_pos, height_le, width_pos, width_le⟩

/-- A raster of the same shape fits into the same chains. -/
theorem ShapedBy.of_shape (h : ShapedBy limit root r) (hheight : r'.height = r.height)
    (hwidth : r'.width = r.width) (hchannels : r'.channels = r.channels) :
    ShapedBy limit root r' := by
  obtain ⟨channels, size⟩ := h
  rw [← hheight, ← hwidth] at size
  exact ⟨hchannels.trans channels, size⟩

theorem map_eq_ok_iff {α β : Type} {x : Except Fault α} {f : α → β} {b : β} :
    x.map f = .ok b ↔ ∃ a, x = .ok a ∧ f a = b := by
  cases x <;> simp [Except.map]

/-- A framed raster keeps to the shape of its chain. -/
theorem shapedBy_framed [Imaging] {how : Framing} {boxWidth boxHeight : Int} (hr : r.Moderate)
    (h : ShapedBy limit root r) (htarget : r.ModerateTarget limit (.frame how boxWidth boxHeight))
    (hframed : r.framed limit how boxWidth boxHeight = .ok r') :
    r'.Moderate ∧ ShapedBy limit root r' := by
  unfold framed at hframed
  cases hfactor : how.factor boxWidth boxHeight r.width r.height with
  | error e =>
    rw [hfactor] at hframed
    cases hframed
  | ok factor =>
    simp only [hfactor] at hframed
    obtain ⟨made, hmade, rfl⟩ := map_eq_ok_iff.1 hframed
    obtain ⟨-, rfl⟩ | ⟨height, width, hheight, hwidth, hpixels, zoomedHeight, zoomedWidth,
      hzoomedHeight, hzoomedWidth, rfl⟩ := exists_of_resize hmade
    · exact ⟨hr, h⟩
    · obtain ⟨hheight_le, hwidth_le⟩ := htarget factor height width hfactor hheight hwidth hpixels
      have hheight_pos := one_le_of_targetSize hheight
      have hwidth_pos := one_le_of_targetSize hwidth
      rw [zoomedSize_eq hr.height_pos hr.height_le hheight_le] at hzoomedHeight
      rw [zoomedSize_eq hr.width_pos hr.width_le hwidth_le] at hzoomedWidth
      cases hzoomedHeight
      cases hzoomedWidth
      rw [Option.getD_some]
      have hheight_eq := Imaging.height_resample r height width
      have hwidth_eq := Imaging.width_resample r height width
      have hchannels := (Imaging.channels_resample r height width).trans h.channels
      generalize Imaging.resample r height width = r' at hheight_eq hwidth_eq hchannels ⊢
      subst hheight_eq hwidth_eq
      exact ⟨⟨hheight_pos, hheight_le, hwidth_pos, hwidth_le⟩, hchannels, .inr hpixels⟩

/-- A blurred raster has the same shape. -/
theorem shape_of_blurred [Imaging] {strength : Int} (h : r.blurred strength = .ok r') :
    r'.height = r.height ∧ r'.width = r.width ∧ r'.channels = r.channels := by
  obtain ⟨sigma, -, hblur⟩ := Chain.bind_eq_ok_iff.1 h
  obtain ⟨made, hmade, rfl⟩ := map_eq_ok_iff.1 hblur
  unfold blur at hmade
  split at hmade
  · cases hmade
  · split at hmade
    · cases hmade
      exact ⟨rfl, rfl, rfl⟩
    · obtain ⟨radius, -, hmade⟩ := Chain.bind_eq_ok_iff.1 hmade
      cases hmade
      obtain ⟨hheight, hwidth, hchannels⟩ := Imaging.sameShape_gaussian sigma
        (min radius (2 * r.height)) (min radius (2 * r.width)) r
      exact ⟨hheight, hwidth, hchannels⟩

/-- A raster that is drawn on has the same shape. -/
theorem shape_of_covered [Imaging] {above : Raster} (h : r.covered above = .ok r') :
    r'.height = r.height ∧ r'.width = r.width ∧ r'.channels = r.channels := by
  obtain ⟨given, -, rfl⟩ := map_eq_ok_iff.1 h
  simp only
  split
  · exact ⟨rfl, rfl, rfl⟩
  · exact ⟨rfl, rfl, rfl⟩

/-- A step keeps to the shape of its chain. -/
theorem ShapedBy.step [Imaging] {step : Step Raster} (hr : r.Moderate) (h : ShapedBy limit root r)
    (htarget : r.ModerateTarget limit step)
    (hstep : value ((values limit).perform r step) = .ok r') :
    r'.Moderate ∧ ShapedBy limit root r' := by
  cases step with
  | frame how boxWidth boxHeight =>
    rw [Backend.perform, value_frame] at hstep
    exact shapedBy_framed hr h htarget hstep
  | blur strength =>
    rw [Backend.perform, value_blur] at hstep
    obtain ⟨hheight, hwidth, hchannels⟩ := shape_of_blurred hstep
    exact ⟨hr.of_shape hheight hwidth, h.of_shape hheight hwidth hchannels⟩
  | overlay above =>
    rw [Backend.perform, value_overlay] at hstep
    obtain ⟨hheight, hwidth, hchannels⟩ := shape_of_covered hstep
    exact ⟨hr.of_shape hheight hwidth, h.of_shape hheight hwidth hchannels⟩

end Raster

end Montage
