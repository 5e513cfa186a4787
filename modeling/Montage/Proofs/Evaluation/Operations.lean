import Montage.Proofs.Evaluation.Store

/-!
# What the operations of a store answer

Each operation looks at one or two pictures and makes a raster of them, which may fail. What it
answers and how it leaves the store depend on nothing else (`exec_resize`, `exec_blur`,
`exec_conform`, `exec_overlay`): a fault leaves the store as it is, a picture that stays as it is
keeps its place, and a new one is put behind all others.
-/

namespace Montage.Studio

open Effect

variable {Error Result : Type} {s : Studio} {p q : Place}

/-- Looking at a picture first. -/
theorem exec_look_bind (s : Studio) (p : Place) (f : Raster → Action Result) :
    exec (look p >>= f) s = exec (f (s.picture p)) s := rfl

/-- A calculation first. -/
theorem exec_attempt_bind {α : Type} (s : Studio) (result : Except Raster.Fault α)
    (f : α → Action Result) : exec (attempt result >>= f) s =
      match result with
      | .error e => (.error e, s)
      | .ok a => exec (f a) s := by
  cases result <;> rfl

/-- A picture that a calculation leaves as it is, or else the new one. -/
theorem exec_attempt_settle (s : Studio) (p : Place)
    (result : Except Raster.Fault (Option Raster)) : exec (attempt result >>= settle p) s =
      match result with
      | .error e => (.error e, s)
      | .ok none => (.ok p, s)
      | .ok (some made) => (.ok s.pictures.size, (s.add made).2) := by
  cases result with
  | error e => rfl
  | ok made => cases made <;> rfl

/-- An action that is timed has the same answer, and notes one event more. -/
theorem exec_timed (s : Studio) (label : String) (action : Effect Studio Error Result) :
    exec (timed label action) s =
      ((exec action s).1, (exec action s).2.note (.timed label)) := rfl

/-- A copy is a new picture. -/
theorem exec_copy (s : Studio) (p : Place) :
    exec (copy p) s = (.ok s.pictures.size, (s.add (s.picture p)).2) := rfl

variable [Imaging]

/-- What blurring a picture answers and leaves, by what it makes of the raster. -/
theorem exec_blur (s : Studio) (p : Place) (sigma : Binary64) : exec (blur p sigma) s =
    match (s.picture p).blur sigma with
    | .error e => (.error e, s)
    | .ok none => (.ok p, s)
    | .ok (some soft) => (.ok s.pictures.size, (s.add soft).2) := by
  unfold blur
  rw [exec_look_bind, exec_attempt_settle]

/-- What bringing a picture to the colours of another one answers and leaves. -/
theorem exec_conform (s : Studio) (p reference : Place) : exec (conform p reference) s =
    match (s.picture p).conform (s.picture reference) with
    | .error e => (.error e, s)
    | .ok none => (.ok p, s)
    | .ok (some given) => (.ok s.pictures.size, (s.add given).2) := by
  unfold conform
  rw [exec_look_bind, exec_look_bind, exec_attempt_settle]

/-- What scaling a picture answers and leaves, by what it makes of the raster. -/
theorem exec_resize (limit : Int) (p : Place) (factor : Binary64) (s : Studio) :
    exec (resize limit p factor) s =
      match (s.picture p).resize limit factor with
      | .error e => (.error e, s)
      | .ok none => (.ok p, s)
      | .ok (some scaled) => (.ok s.pictures.size,
          ((s.note (.resized (s.picture p).width (s.picture p).height factor scaled.width
            scaled.height)).add scaled).2) := by
  unfold resize
  rw [exec_look_bind, exec_attempt_bind]
  cases (s.picture p).resize limit factor with
  | error e => rfl
  | ok made => cases made <;> rfl

/-- What bringing a picture to a box answers and leaves, by the factor of the framing. -/
theorem exec_frame (limit : Int) (how : Framing) (width height : Int) (s : Studio) (p : Place) :
    exec (frame limit how width height p) s =
      match how.factor width height (s.picture p).width (s.picture p).height with
      | .error e => (.error (.ofQuotient e), s)
      | .ok factor =>
          exec (timed (how.tag.mnemonic ++ s!"({width}x{height})") (resize limit p factor)) s := by
  unfold frame
  rw [exec_look_bind]
  cases how.factor width height (s.picture p).width (s.picture p).height <;> rfl

/-- What drawing does, by what bringing to other colours answers. -/
theorem exec_overlay (s : Studio) (p q : Place) : exec (overlay p q) s =
    match (s.picture q).conform (s.picture p) with
    | .error fault => (.error fault, s)
    | .ok given =>
      let drawn := given.getD (s.picture q)
      if (s.picture p).meets drawn then (.ok p, s.replace p ((s.picture p).overlay drawn))
      else (.ok p, s.note .drawnOutside) := by
  unfold overlay
  rw [exec_look_bind, exec_look_bind, exec_attempt_bind]
  cases (s.picture q).conform (s.picture p) with
  | error fault => rfl
  | ok given =>
    simp only
    split
    · rfl
    · rfl

end Montage.Studio
