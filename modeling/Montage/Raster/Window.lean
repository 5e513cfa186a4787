import Montage.Raster.Overlay

/-!
# Windows of a raster

A window is cut out of a raster by two bounds on each axis. A bound below zero counts from the end
of its axis, and none leads beyond an end. What is put into a window must have the shape of the
window. `copyOver` draws a raster on another one by copying a window of the one into a window of the
other; both are what is left of the raster drawn when its overhang is cut off.
-/

namespace Montage.Raster

/-- A range of places on an axis. -/
structure Bounds where
  /-- The first place. -/
  first : Int
  /-- The place behind the last one. -/
  last : Int
  deriving DecidableEq, Repr

namespace Bounds

/-- The place that a bound stands for on an axis of `n` places. -/
def resolve (n : Nat) (bound : Int) : Nat :=
  min (if bound < 0 then bound + n else bound).toNat n

/-- The first place of a range on an axis of `n` places. -/
def start (b : Bounds) (n : Nat) : Nat :=
  resolve n b.first

/-- The number of places of a range on an axis of `n` places. -/
def count (b : Bounds) (n : Nat) : Nat :=
  resolve n b.last - resolve n b.first

/-- The place `i` of an axis of `n` places lies in the range. -/
def Has (b : Bounds) (n i : Nat) : Prop :=
  b.start n ≤ i ∧ i < b.start n + b.count n

instance (b : Bounds) (n i : Nat) : Decidable (b.Has n i) :=
  inferInstanceAs (Decidable (_ ∧ _))

end Bounds

/-- A range of rows and a range of columns. -/
structure Window where
  /-- The rows. -/
  rows : Bounds
  /-- The columns. -/
  columns : Bounds
  deriving DecidableEq, Repr

/-- The part of a raster in a window. -/
def view (r : Raster) (w : Window) : Raster :=
  generate (w.rows.count r.height) (w.columns.count r.width) r.channels fun y x c =>
    r.get (w.rows.start r.height + y) (w.columns.start r.width + x) c

/-- A pixel of the part in a window. -/
theorem get_view {r : Raster} {w : Window} {y x c : Nat} (hy : y < w.rows.count r.height)
    (hx : x < w.columns.count r.width) (hc : c < r.depth) :
    (r.view w).get y x c = r.get (w.rows.start r.height + y) (w.columns.start r.width + x) c :=
  get_generate hy hx hc

/-- A raster with another one in a window, or none where that one has not the shape of the
window. -/
def put (r : Raster) (w : Window) (part : Raster) : Option Raster :=
  if part.shape = (r.view w).shape then
    some (generate r.height r.width r.channels fun y x c =>
      if w.rows.Has r.height y ∧ w.columns.Has r.width x then
        part.get (y - w.rows.start r.height) (x - w.columns.start r.width) c
      else r.get y x c)
  else none

/-- The places of the whole that lie under the part, without its overhang. -/
def boundsInWhole (whole part : Nat) : Bounds :=
  ⟨max (centred whole part) 0, min (centred whole part + part) whole⟩

/-- The places of the part that lie on the whole. -/
def boundsInPart (whole part : Nat) : Bounds :=
  ⟨(boundsInWhole whole part).first - centred whole part,
    (boundsInWhole whole part).last - centred whole part⟩

/-- The window of the raster below that is drawn on. -/
def targetWindow (base above : Raster) : Window :=
  ⟨boundsInWhole base.height above.height, boundsInWhole base.width above.width⟩

/-- The window of the raster above that is drawn. -/
def sourceWindow (base above : Raster) : Window :=
  ⟨boundsInPart base.height above.height, boundsInPart base.width above.width⟩

/-- A raster with another one of the same colours copied on its centre, window by window. -/
def copyOver (base above : Raster) : Option Raster :=
  if base.meets above then
    base.put (base.targetWindow above) (above.view (base.sourceWindow above))
  else some base

end Montage.Raster
