import Montage.Evaluation.Meaning
import Montage.Studio

/-!
# Drawing with values

Pictures that are values need no store: an operation on them has an answer and changes nothing.
`Raster.values` are the operations of the studio on rasters themselves. What a syntax tree draws
with values does not depend on the parts of its chains before their last image reference, as long as
these can be drawn (`value_draw_trim`), and without these parts it is what the pruned tree draws
(`value_draw_trim_eq_ok_iff`), although that one draws arguments before sources.
-/

namespace Montage

namespace Effect

variable {State Error Result Result' : Type}

/-- The answer of a computation that starts in a state, and the state after it. -/
def exec (action : Effect State Error Result) (s : State) : Except Error Result × State :=
  action.run s

/-- The answer of a computation on values. -/
def value (action : Effect Unit Error Result) : Except Error Result :=
  (exec action ()).1

theorem exec_bind (action : Effect State Error Result) (f : Result → Effect State Error Result')
    (s : State) : exec (action >>= f) s =
      match exec action s with
      | (.ok x, s') => exec (f x) s'
      | (.error e, s') => (.error e, s') := by
  show (match exec action s with
    | (a, s') => StateT.run (ExceptT.bindCont f a) s') = _
  obtain ⟨a, s'⟩ := exec action s
  cases a <;> rfl

/-- One computation after another answers where both do. -/
theorem exec_bind_eq_ok_iff {action : Effect State Error Result}
    {f : Result → Effect State Error Result'} {s s' : State} {r : Result'} :
    exec (action >>= f) s = (.ok r, s') ↔
      ∃ a s₁, exec action s = (.ok a, s₁) ∧ exec (f a) s₁ = (.ok r, s') := by
  rw [exec_bind]
  obtain ⟨answer, s₁⟩ := exec action s
  cases answer with
  | ok a =>
    constructor
    · intro h
      exact ⟨a, s₁, rfl, h⟩
    · rintro ⟨_, _, heq, h⟩
      cases heq
      exact h
  | error e => simp

/-- One computation after another fails where the first one does, or else the second one. -/
theorem exec_bind_eq_error_iff {action : Effect State Error Result}
    {f : Result → Effect State Error Result'} {s s' : State} {e : Error} :
    exec (action >>= f) s = (.error e, s') ↔ exec action s = (.error e, s') ∨
      ∃ a s₁, exec action s = (.ok a, s₁) ∧ exec (f a) s₁ = (.error e, s') := by
  rw [exec_bind]
  obtain ⟨answer, s₁⟩ := exec action s
  cases answer with
  | ok a =>
    constructor
    · intro h
      exact .inr ⟨a, s₁, rfl, h⟩
    · rintro (heq | ⟨_, _, heq, h⟩)
      · cases heq
      · cases heq
        exact h
  | error e => simp

/-- Only what a computation answers matters to the one after it. -/
theorem bind_congr_of_answer {action : Effect State Error Result}
    {f g : Result → Effect State Error Result'}
    (h : ∀ a s s', exec action s = (.ok a, s') → f a = g a) : action >>= f = action >>= g := by
  funext s
  show exec (action >>= f) s = exec (action >>= g) s
  rw [exec_bind, exec_bind]
  cases hexec : exec action s with
  | mk answer s' =>
    cases answer with
    | ok a => simp only [h a s s' hexec]
    | error e => rfl

theorem exec_lift (action : Effect State Error Result) (s : State) :
    exec (Backend.lift action) s = ((exec action s).1.mapError .operation, (exec action s).2) := by
  rfl

theorem exec_lift_eq_ok_iff {action : Effect State Error Result} {s s' : State} {r : Result} :
    exec (Backend.lift action) s = (.ok r, s') ↔ exec action s = (.ok r, s') := by
  rw [exec_lift]
  obtain ⟨answer, s₁⟩ := exec action s
  cases answer with
  | ok a =>
    constructor
    · intro h
      cases h
      rfl
    · intro h
      cases h
      rfl
  | error e =>
    constructor
    · intro h
      cases h
    · intro h
      cases h

/-- What a lifted computation fails with is a fault of an operation. -/
theorem exists_of_exec_lift_eq_error {action : Effect State Error Result} {s s' : State}
    {e : EvalFault Error} (h : exec (Backend.lift action) s = (.error e, s')) :
    ∃ error, e = .operation error ∧ exec action s = (.error error, s') := by
  rw [exec_lift] at h
  generalize exec action s = run at h ⊢
  obtain ⟨answer, s₁⟩ := run
  cases answer with
  | ok a => cases h
  | error error =>
    cases h
    exact ⟨error, rfl, rfl⟩

theorem value_bind (action : Effect Unit Error Result) (f : Result → Effect Unit Error Result') :
    value (action >>= f) = value action >>= fun x => value (f x) := by
  rw [value, exec_bind, value]
  obtain ⟨a, s'⟩ := exec action ()
  cases a <;> rfl

theorem value_lift (action : Effect Unit Error Result) :
    value (Backend.lift action) = (value action).mapError .operation := by
  rw [value, exec_lift, value]

/-- A computation that is only an answer. -/
theorem value_ofExcept (answer : Except Error Result) : value (ofExcept answer) = answer := by
  cases answer <;> rfl

end Effect

open Effect

/-! ## Rasters as values -/

namespace Raster

variable [Imaging]

/-- A raster brought to a box. -/
def framed (limit : Int) (how : Framing) (width height : Int) (r : Raster) : Except Fault Raster :=
  match how.factor width height r.width r.height with
  | .error e => .error (.ofQuotient e)
  | .ok factor => (r.resize limit factor).map fun scaled => scaled.getD r

/-- A raster blurred with a strength in hundredths. -/
def blurred (strength : Int) (r : Raster) : Except Fault Raster := do
  let sigma ← Studio.sigmaOf strength
  (r.blur sigma).map fun soft => soft.getD r

/-- A raster with another one drawn on its centre, in its own colours. -/
def covered (base above : Raster) : Except Fault Raster :=
  (above.conform base).map fun given =>
    let drawn := given.getD above
    if base.meets drawn then base.overlay drawn else base

/-- The operations of the studio on rasters themselves. -/
def values (limit : Int) : Backend Unit Fault Raster where
  copy r := return r
  frame how width height r := ofExcept (r.framed limit how width height)
  blur strength r := ofExcept (r.blurred strength)
  overlay base above := ofExcept (base.covered above)

variable (limit : Int)

theorem value_frame (how : Framing) (width height : Int) (r : Raster) :
    value ((values limit).frame how width height r) = r.framed limit how width height :=
  value_ofExcept _

theorem value_blur (strength : Int) (r : Raster) :
    value ((values limit).blur strength r) = r.blurred strength :=
  value_ofExcept _

theorem value_overlay (base above : Raster) :
    value ((values limit).overlay base above) = base.covered above :=
  value_ofExcept _

end Raster

/-! ## Syntax trees without dead parts -/

namespace Chain

/-- A syntax tree without the part of each chain before its last image reference. -/
def trim : Chain → Chain
  | root index => root index
  | image _ index => root index
  | frame how before width height => frame how before.trim width height
  | blur before strength => blur before.trim strength
  | overlay before argument => overlay before.trim argument.trim

variable {Error Picture : Type} {v : Backend Unit Error Picture} {images : Array Picture}

theorem bind_eq_ok_iff {α β : Type} {x : Except Error α} {f : α → Except Error β} {r : β} :
    x >>= f = .ok r ↔ ∃ a, x = .ok a ∧ f a = .ok r := by
  cases x with
  | error e => exact ⟨nofun, fun ⟨_, h, _⟩ => nomatch h⟩
  | ok a => exact ⟨fun h => ⟨a, rfl, h⟩, fun ⟨_, h, hf⟩ => Except.ok.inj h ▸ hf⟩

/-- A syntax tree that can be drawn is drawn alike without its dead parts. -/
theorem value_draw_trim {c : Chain} {r : Picture} (h : value (c.draw v images) = .ok r) :
    value (c.trim.draw v images) = .ok r := by
  -- Along the tree; only at an image reference something is left out.
  induction c generalizing r with
  | root index => exact h
  | image before index ih =>
    rw [draw, value_bind, bind_eq_ok_iff] at h
    obtain ⟨-, -, hfetch⟩ := h
    exact hfetch
  | frame how before width height ih =>
    rw [draw, value_bind, bind_eq_ok_iff] at h
    obtain ⟨picture, hbefore, hframe⟩ := h
    rw [trim, draw, value_bind, bind_eq_ok_iff]
    exact ⟨picture, ih hbefore, hframe⟩
  | blur before strength ih =>
    rw [draw, value_bind, bind_eq_ok_iff] at h
    obtain ⟨picture, hbefore, hblur⟩ := h
    rw [trim, draw, value_bind, bind_eq_ok_iff]
    exact ⟨picture, ih hbefore, hblur⟩
  | overlay before argument ih ih' =>
    simp only [draw, value_bind, bind_eq_ok_iff] at h
    obtain ⟨picture, hbefore, above, hargument, hoverlay⟩ := h
    simp only [trim, draw, value_bind, bind_eq_ok_iff]
    exact ⟨picture, ih hbefore, above, ih' hargument, hoverlay⟩

/-- Without its dead parts a syntax tree draws what the pruned tree draws. -/
theorem value_draw_trim_eq_ok_iff {c : Chain} {r : Picture} :
    value (c.trim.draw v images) = .ok r ↔ value (c.prune.draw v images) = .ok r := by
  induction c generalizing r with
  | root index => exact Iff.rfl
  | image before index => exact Iff.rfl
  | frame how before width height ih =>
    simp only [trim, prune, draw, Node.draw, value_bind, bind_eq_ok_iff, ih]
  | blur before strength ih =>
    simp only [trim, prune, draw, Node.draw, value_bind, bind_eq_ok_iff, ih]
  | overlay before argument ih ih' =>
    simp only [trim, prune, draw, Node.draw, value_bind, bind_eq_ok_iff, ih, ih']
    -- The argument and the source are drawn in the other order, which values do not see.
    constructor
    · rintro ⟨picture, hbefore, above, hargument, hoverlay⟩
      exact ⟨above, hargument, picture, hbefore, hoverlay⟩
    · rintro ⟨above, hargument, picture, hbefore, hoverlay⟩
      exact ⟨picture, hbefore, above, hargument, hoverlay⟩

end Chain

end Montage
