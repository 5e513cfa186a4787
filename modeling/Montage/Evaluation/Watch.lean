import Montage.Evaluation.Evaluate

/-!
# Watching an evaluation

A watched backend does what a backend does, and keeps the moments of an evaluation: before a step is
applied to a picture, and after a picture has been made, each with the state at that moment. Its
pictures carry the image at the root of their chain, so that a moment tells which image the picture
was made of. Nothing in an evaluation looks at this.
-/

namespace Montage

/-- The index of the image at the root of a chain. -/
def Node.root : Node → Int
  | image index => index
  | frame _ source _ _ => source.root
  | blur source _ => source.root
  | overlay source _ => source.root

/-- A moment of an evaluation. -/
inductive Moment (State Picture : Type) where
  /-- A step is about to be applied to a picture. -/
  | before (picture : Picture) (step : Step Picture) (state : State)
  /-- A picture has been made, in a chain with an image at its root. -/
  | after (root picture : Picture) (state : State)

/-- A picture of a chain. -/
structure Rooted (Picture : Type) where
  /-- The image at the root of the chain. -/
  root : Picture
  /-- The picture. -/
  picture : Picture

/-- An image as the picture of a chain without steps. -/
def Rooted.ofImage {Picture : Type} (image : Picture) : Rooted Picture :=
  ⟨image, image⟩

/-- A state, and the moments that have led to it. -/
structure Watch (State Picture : Type) where
  /-- The state. -/
  state : State
  /-- The moments so far, the last one first. -/
  moments : List (Moment State Picture)

namespace Watch

variable {State Error Picture Result : Type}

/-- A computation on the state. -/
def within (action : Effect State Error Result) : Effect (Watch State Picture) Error Result :=
  ExceptT.mk fun w =>
    let (answer, s) := action.run w.state
    (answer, { w with state := s })

/-- Keeps a moment, which knows the state. -/
def note (moment : State → Moment State Picture) : Effect (Watch State Picture) Error Unit :=
  modify fun w => { w with moments := moment w.state :: w.moments }

end Watch

namespace Backend

variable {State Error Picture : Type} (b : Backend State Error Picture)

/-- Applies a step to a picture of a chain and keeps both moments. -/
def watch (p : Rooted Picture) (step : Step Picture) :
    Effect (Watch State Picture) Error (Rooted Picture) := do
  Watch.note (.before p.picture step)
  let made ← Watch.within (b.perform p.picture step)
  Watch.note (.after p.root made)
  return ⟨p.root, made⟩

/-- The backend that keeps the moments of an evaluation. -/
def watched : Backend (Watch State Picture) Error (Rooted Picture) where
  copy image := do
    let made ← Watch.within (b.copy image.picture)
    Watch.note (.after image.picture made)
    return ⟨image.picture, made⟩
  frame how width height p := b.watch p (.frame how width height)
  blur strength p := b.watch p (.blur strength)
  overlay base above := b.watch base (.overlay above.picture)

/-- The moments of an evaluation that starts in a state, the last one first. -/
def moments (images : Array Picture) (words : List Int) (s : State) :
    List (Moment State Picture) :=
  ((b.watched.evaluate (images.map Rooted.ofImage) words).run ⟨s, []⟩).2.moments

end Backend

end Montage
