import Montage.Expression.Node
import Montage.Imaging
import Montage.Raster.Fault

/-!
# Scaling a raster

The factor of a framing is a floating-point number, and so is the product with a size, which is
then rounded to a whole number of pixels. The library is told the quotients of the new sizes and the
old ones, and takes the products once more to find the sizes of the grid on which it interpolates.
-/

namespace Montage

namespace Framing

/-- The factor that brings a picture to a box. Fitting never enlarges. -/
def factor (how : Framing) (boxWidth boxHeight width height : Int) :
    Except Binary64.QuotientFault Binary64 := do
  let across ← Binary64.quotient boxWidth width
  let down ← Binary64.quotient boxHeight height
  match how with
  | fit => return Binary64.minimum .one (Binary64.minimum across down)
  | fill => return Binary64.maximum across down

end Framing

namespace Raster

/-- The size that a factor gives to an axis, at least one pixel. -/
def targetSize (size : Nat) (factor : Binary64) : Except Fault Nat :=
  let product := (Binary64.ofNat size).mul factor
  if product.isFinite then .ok (max 1 product.toNearestInt.toNat) else .error .infiniteSize

/-- The size of an axis after zooming it by the quotient of a target and its size. -/
def zoomedSize (size target : Nat) : Except Fault Nat :=
  match Binary64.quotient target size with
  | .error e => .error (.ofQuotient e)
  | .ok zoom => .ok ((Binary64.ofNat size).mul zoom).toNearestInt.toNat

/-- The raster scaled by a factor, or none where the factor is one and the raster stays as it is. No
result has more pixels than the limit. -/
def resize [Imaging] (limit : Int) (factor : Binary64) (r : Raster) :
    Except Fault (Option Raster) :=
  if !factor.isFinite || factor.less (.zero false) then .error (.factor factor)
  else if factor = .one then .ok none
  else do
    let height ← targetSize r.height factor
    let width ← targetSize r.width factor
    if limit < (height * width : Nat) then throw (.tooLarge width height limit)
    let zoomedHeight ← zoomedSize r.height height
    let zoomedWidth ← zoomedSize r.width width
    return some (Imaging.resample r zoomedHeight zoomedWidth)

end Raster

end Montage
