import Montage.Imaging
import Montage.Raster.Fault

/-!
# Drawing one raster on another

The raster that is drawn is first brought to the colours of the one below. It then replaces the
pixels under it, without blending, with its centre on the centre below; what hangs over the edges
is cut off. The main statements are `get_overlay_inside` and `get_overlay_outside`: a pixel of the
result is that of the raster drawn where that one has a pixel, and the old one elsewhere.
-/

namespace Montage.Raster

/-- The colours of a raster, which only some shapes have. -/
def colours (r : Raster) : Except Fault Colours :=
  match r.channels with
  | none => .ok .grey
  | some 3 => .ok .rgb
  | some 4 => .ok .rgba
  | some _ => .error (.shape r.shape)

/-- The raster in the colours of another one, or none where it has them already. -/
def conform [Imaging] (r reference : Raster) : Except Fault (Option Raster) := do
  let source ← r.colours
  let target ← reference.colours
  if source = target then return none
  return some (generate r.height r.width target.channels fun y x c =>
    Imaging.convertSample source target (r.get y x) c)

/-- The place on an axis where a part of a given size starts when its middle lies on the middle of
the whole. -/
def centred (whole part : Nat) : Int :=
  (whole / 2 : Nat) - (part / 2 : Nat)

/-- Whether the place `i` of the whole lies under the part. -/
def Covers (whole part i : Nat) : Prop :=
  centred whole part ≤ i ∧ (i : Int) < centred whole part + part

instance (whole part i : Nat) : Decidable (Covers whole part i) :=
  inferInstanceAs (Decidable (_ ∧ _))

/-- The place of the part that lies on the place `i` of the whole. -/
def placeInPart (whole part i : Nat) : Nat :=
  (i - centred whole part).toNat

/-- Whether any place of the whole lies under the part. -/
def overlaps (whole part : Nat) : Bool :=
  max (centred whole part) 0 < min (centred whole part + part) whole

/-- Whether any pixel of the raster below would be replaced. -/
def meets (base above : Raster) : Bool :=
  overlaps base.height above.height && overlaps base.width above.width

/-- A raster with another one of the same colours drawn on its centre. -/
def overlay (base above : Raster) : Raster :=
  generate base.height base.width base.channels fun y x c =>
    if Covers base.height above.height y ∧ Covers base.width above.width x then
      above.get (placeInPart base.height above.height y) (placeInPart base.width above.width x) c
    else base.get y x c

/-- A pixel under the raster drawn is replaced by the one that lies on it. -/
theorem get_overlay_inside {base above : Raster} {y x c : Nat} (hy : y < base.height)
    (hx : x < base.width) (hc : c < base.depth) (hcy : Covers base.height above.height y)
    (hcx : Covers base.width above.width x) :
    (base.overlay above).get y x c =
      above.get (placeInPart base.height above.height y) (placeInPart base.width above.width x)
        c := by
  unfold overlay
  rw [get_generate hy hx hc, if_pos ⟨hcy, hcx⟩]

/-- A pixel that is not under the raster drawn stays. -/
theorem get_overlay_outside {base above : Raster} {y x c : Nat} (hy : y < base.height)
    (hx : x < base.width) (hc : c < base.depth)
    (h : ¬(Covers base.height above.height y ∧ Covers base.width above.width x)) :
    (base.overlay above).get y x c = base.get y x c := by
  unfold overlay
  rw [get_generate hy hx hc, if_neg h]

/-- The place in the part is within the part. -/
theorem placeInPart_lt {whole part i : Nat} (h : Covers whole part i) :
    placeInPart whole part i < part := by
  unfold Covers at h
  unfold placeInPart
  omega

end Montage.Raster
