import Montage.Number.Decimal

/-!
# Faults of operations on rasters

Why scaling, blurring or drawing fails, and how each fault is put into words.
-/

namespace Montage.Raster

/-- Why an operation on rasters fails. -/
inductive Fault where
  /-- A picture is scaled by a finite factor that is not negative. -/
  | factor (factor : Binary64)
  /-- The width of a blur is not negative. -/
  | sigma (sigma : Binary64)
  /-- The result would have more pixels than the limit. -/
  | tooLarge (width height limit : Int)
  /-- A picture without pixels has no scale. -/
  | divisionByZero
  /-- A quotient of sizes lies beyond the floating-point numbers. -/
  | quotientTooLarge
  /-- A strength lies beyond the floating-point numbers. -/
  | strengthTooLarge
  /-- A size or a radius is infinite. -/
  | infiniteSize
  /-- A radius is no number. -/
  | radiusNotANumber
  /-- Only flat rasters and those of three or four channels can be drawn on one another. -/
  | shape (shape : List Nat)
  deriving DecidableEq, Repr

namespace Fault

/-- A fault of dividing whole numbers. -/
def ofQuotient : Binary64.QuotientFault → Fault
  | .byZero => divisionByZero
  | .tooLarge => quotientTooLarge

/-- The text of a shape. -/
def shapeText (shape : List Nat) : String :=
  "(" ++ ", ".intercalate (shape.map toString) ++ ")"

/-- The text of a fault. -/
def message : Fault → String
  | factor f => "Invalid scale factor: " ++ Decimal.text f ++ "."
  | sigma s => "Blur sigma must be non-negative, got " ++ Decimal.text s ++ "."
  | tooLarge w h limit => s!"result of {w}x{h} pixels exceeds the limit of {limit} pixels"
  | divisionByZero => "division by zero"
  | quotientTooLarge => "integer division result too large for a float"
  | strengthTooLarge => "int too large to convert to float"
  | infiniteSize => "cannot convert float infinity to integer"
  | radiusNotANumber => "cannot convert float NaN to integer"
  | shape s => "Unsupported image shape: " ++ shapeText s ++ "."

end Fault

end Montage.Raster
