import Montage.Imaging
import Montage.Raster.Fault

/-!
# Blurring a raster

A blur replaces each sample by a weighted mean of its neighbours, which the library calculates. The
weights follow a bell curve whose width is `sigma`, out to four times that width, but not beyond
twice the size of the raster.
-/

namespace Montage.Raster

/-- The radius of a blur, before the size of the raster limits it: four times the width, to the
nearest whole number. -/
def blurRadius (sigma : Binary64) : Except Fault Nat :=
  let reach := ((Binary64.ofNat 4).mul sigma).addRatio 1 2
  match reach with
  | .nan => .error .radiusNotANumber
  | .infinite _ => .error .infiniteSize
  | .finite _ _ _ => .ok reach.truncate.toNat

/-- The raster blurred with a width, or none where the width is zero and the raster stays as it
is. -/
def blur [Imaging] (sigma : Binary64) (r : Raster) : Except Fault (Option Raster) :=
  if sigma.less (.zero false) then .error (.sigma sigma)
  else if sigma.isZero then .ok none
  else do
    let radius ← blurRadius sigma
    return some
      (Imaging.gaussian sigma (min radius (2 * r.height)) (min radius (2 * r.width)) r)

end Montage.Raster
