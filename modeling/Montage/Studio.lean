import Montage.Evaluation.Evaluate
import Montage.Log.Event
import Montage.Raster.Blur
import Montage.Raster.Overlay
import Montage.Raster.Resize

/-!
# Pictures in a store

The evaluator works on pictures that lie in a store and are named by their places. An operation
that leaves a picture as it is answers the same place; drawing changes the picture below in its
place; all other operations put a new picture into the store. `Studio.backend` is the evaluator's
view of this.
-/

namespace Montage

/-- The place of a picture in a store. -/
abbrev Place := Nat

/-- A store of pictures, and what happened to them. -/
structure Studio where
  /-- The pictures, in the order in which they came. -/
  pictures : Array Raster
  /-- What happened. -/
  events : Array Event

namespace Studio

/-- The picture at a place. -/
def picture (s : Studio) (p : Place) : Raster :=
  s.pictures[p]?.getD .empty

/-- Puts a new picture into the store. -/
def add (s : Studio) (r : Raster) : Place × Studio :=
  (s.pictures.size, { s with pictures := s.pictures.push r })

/-- Changes the picture at a place. -/
def replace (s : Studio) (p : Place) (r : Raster) : Studio :=
  { s with pictures := s.pictures.setIfInBounds p r }

/-- Notes an event. -/
def note (s : Studio) (e : Event) : Studio :=
  { s with events := s.events.push e }

/-- An operation on the pictures of a store. -/
abbrev Action (Result : Type) : Type :=
  Effect Studio Raster.Fault Result

/-- The picture at a place, as an operation. -/
def look (p : Place) : Action Raster := do
  return (← get).picture p

/-- Puts a new picture into the store, as an operation. -/
def place (r : Raster) : Action Place :=
  modifyGet fun s => s.add r

/-- Notes an event, as an operation. -/
def tell (e : Event) : Action Unit :=
  modify fun s => s.note e

/-- The answer of a calculation that may fail. -/
def attempt {α : Type} (result : Except Raster.Fault α) : Action α :=
  ExceptT.mk (pure result)

/-- The place of a picture that an operation made, the old place where it made none. -/
def settle (p : Place) : Option Raster → Action Place
  | none => return p
  | some r => place r

/-- Does something and notes that it has ended, however it did. -/
def timed {Error Result : Type} (label : String) (action : Effect Studio Error Result) :
    Effect Studio Error Result :=
  ExceptT.mk do
    let result ← action.run
    modify fun s => s.note (.timed label)
    return result

/-! ## The operations -/

variable [Imaging]

/-- An independent copy. -/
def copy (p : Place) : Action Place := do
  place (← look p)

/-- A picture scaled by a factor. -/
def resize (limit : Int) (p : Place) (factor : Binary64) : Action Place := do
  let source ← look p
  match ← attempt (source.resize limit factor) with
  | none => return p
  | some scaled =>
    tell (.resized source.width source.height factor scaled.width scaled.height)
    place scaled

/-- A blurred picture. -/
def blur (p : Place) (sigma : Binary64) : Action Place := do
  let source ← look p
  settle p (← attempt (source.blur sigma))

/-- A picture in the colours of another one. -/
def conform (p reference : Place) : Action Place := do
  let source ← look p
  let target ← look reference
  settle p (← attempt (source.conform target))

/-- Draws a picture on another one, which changes. -/
def overlay (base above : Place) : Action Place := do
  let below ← look base
  let given ← look above
  let drawn := (← attempt (given.conform below)).getD given
  if below.meets drawn then
    modify fun s => s.replace base (below.overlay drawn)
  else
    tell .drawnOutside
  return base

/-- The width of the blur that a strength in hundredths stands for. -/
def sigmaOf (strength : Int) : Except Raster.Fault Binary64 :=
  match Binary64.ofInt? strength with
  | some x => .ok (x.divNat 100)
  | none => .error .strengthTooLarge

/-- A picture brought to a box. -/
def frame (limit : Int) (how : Framing) (width height : Int) (p : Place) : Action Place := do
  let source ← look p
  match how.factor width height source.width source.height with
  | .error e => throw (.ofQuotient e)
  | .ok factor =>
    timed (how.tag.mnemonic ++ s!"({width}x{height})") (resize limit p factor)

/-- The store as the evaluator sees it, when no picture may have more pixels than a limit. -/
def backend (limit : Int) : Backend Studio Raster.Fault Place where
  copy := copy
  frame := frame limit
  blur strength p :=
    timed (Tag.blur.mnemonic ++ s!"({strength})") do
      blur p (← attempt (sigmaOf strength))
  overlay base above := timed Tag.overlay.mnemonic (overlay base above)

/-- Evaluates a compiled expression on pictures of the store. -/
def evaluate (limit : Int) (images : Array Place) (words : List Int) :
    Effect Studio (EvalFault Raster.Fault) Place :=
  timed "evaluate" ((backend limit).evaluate images words)

end Studio

end Montage
