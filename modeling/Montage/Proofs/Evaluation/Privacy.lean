import Montage.Imaging.Standard
import Montage.Proofs.Evaluation.Contract
import Montage.Proofs.Evaluation.Store
import Montage.Proofs.Evaluation.Watching

/-!
# An evaluation works on pictures of its own

Some operations of the studio answer the place that they were given, and drawing changes a picture
in its place. An image is safe nevertheless, because an evaluation copies it first and only ever
works on places that were free when it started. This is carried through all evaluations as a
contract (`Studio.contract`): the places that were there keep their pictures, a picture that is
answered lies behind them, and one that is drawn was put into the store before the one that it is
drawn on. The contract takes along what the steps keep between the image of a chain and its
pictures, a `Kinship`, for all facts about pictures that are proved step by step.
-/

namespace Montage

open Effect

/-- A step with its argument replaced by what it stands for. -/
def Step.map {α β : Type} (f : α → β) : Step α → Step β
  | .frame how width height => .frame how width height
  | .blur strength => .blur strength
  | .overlay argument => .overlay (f argument)

section Library

variable [Imaging]

/-- What the pictures of a chain have in common with the image at its root. -/
structure Kinship (limit : Int) where
  /-- The steps that keep it. -/
  Allows : Raster → Step Raster → Prop
  /-- An image and a picture of a chain with that image at its root. -/
  Kin : Raster → Raster → Prop
  /-- A step keeps it. -/
  step : ∀ {root r r' : Raster} {step : Step Raster}, Kin root r → Allows r step →
    value ((Raster.values limit).perform r step) = .ok r' → Kin root r'

/-- Nothing in common. -/
def Kinship.none (limit : Int) : Kinship limit where
  Allows _ _ := True
  Kin _ _ := True
  step _ _ _ := trivial

namespace Studio

variable {limit : Int} {m : Nat} {s s' start : Studio} {p : Place}

omit [Imaging] in
/-- What is known of an action that draws when it has been run. -/
theorem Draws.of_exec {Error : Type} {action : Effect Studio Error Place}
    {answer : Except Error Raster} {result : Except Error Place} (h : Draws m s action answer)
    (hexec : exec action s = (result, s')) : s.Keeps m s' ∧ s'.Holds m result answer := by
  obtain ⟨result', s₁, hexec', hkeeps, hholds⟩ := h
  cases hexec.symm.trans hexec'
  exact ⟨hkeeps, hholds⟩

/-- A step is applied to a picture as it is to its raster. -/
theorem draws_perform (limit : Int) (step : Step Place) (hm : m ≤ p) (hp : p < s.pictures.size) :
    Draws m s ((backend limit).perform p step)
      (value ((Raster.values limit).perform (s.picture p) (step.map s.picture))) := by
  cases step with
  | frame how width height =>
    rw [Step.map, Backend.perform, Backend.perform, Raster.value_frame]
    exact draws_frame limit how width height hm hp
  | blur strength =>
    rw [Step.map, Backend.perform, Backend.perform, Raster.value_blur]
    exact draws_blur limit strength hm hp
  | overlay above =>
    rw [Step.map, Backend.perform, Backend.perform, Raster.value_overlay]
    exact (draws_overlay hm hp).timed _

/-! ## Moments -/

section Moments

variable (k : Kinship limit) (images : Array Place) (start : Studio)

/-- All steps so far are allowed. -/
def Allowed (moments : List (Moment Studio Place)) : Prop :=
  ∀ p step s, .before p step s ∈ moments → k.Allows (s.picture p) (step.map s.picture)

/-- What is known of the moments so far. -/
structure Sound (moments : List (Moment Studio Place)) : Prop where
  /-- No picture is drawn on itself. -/
  apart : ∀ base above s, .before base (.overlay above) s ∈ moments → base ≠ above
  /-- The pictures of a chain are akin to the image at its root. -/
  kin : Allowed k moments → ∀ root p s, .after root p s ∈ moments →
    root ∈ images ∧ k.Kin (start.picture root) (s.picture p)

variable {k images start} {moments : List (Moment Studio Place)} {root : Place}
  {step : Step Place}

/-- Fewer steps are allowed if more are. -/
theorem Allowed.of_cons {moment : Moment Studio Place} (h : Allowed k (moment :: moments)) :
    Allowed k moments :=
  fun p step s hmem => h p step s (List.mem_cons_of_mem _ hmem)

/-- A step to come. -/
theorem Sound.before (h : Sound k images start moments)
    (hapart : ∀ above, step = .overlay above → p ≠ above) :
    Sound k images start (.before p step s :: moments) where
  apart base above s' hmem := by
    rcases List.mem_cons.1 hmem with heq | hmem
    · cases heq
      exact hapart above rfl
    · exact h.apart base above s' hmem
  kin hallowed root p s' hmem := by
    rcases List.mem_cons.1 hmem with heq | hmem
    · cases heq
    · exact h.kin hallowed.of_cons root p s' hmem

/-- A picture that has been made. -/
theorem Sound.after (h : Sound k images start moments)
    (hkin : Allowed k moments → root ∈ images ∧ k.Kin (start.picture root) (s.picture p)) :
    Sound k images start (.after root p s :: moments) where
  apart base above s' hmem := by
    rcases List.mem_cons.1 hmem with heq | hmem
    · cases heq
    · exact h.apart base above s' hmem
  kin hallowed root' p' s' hmem := by
    rcases List.mem_cons.1 hmem with heq | hmem
    · cases heq
      exact hkin hallowed.of_cons
    · exact h.kin hallowed.of_cons root' p' s' hmem

end Moments

/-! ## The contract of the studio -/

section Contract

variable (k : Kinship limit) (images : Array Place) (start : Studio)

/-- An evaluation leads from one state to another. -/
structure Leads (w w' : Watch Studio Place) : Prop where
  /-- The places that were there keep their pictures. -/
  keeps : w.state.Keeps w.state.pictures.size w'.state
  /-- What was known of the moments is known of those that have come. -/
  sound : Sound k images start w.moments → Sound k images start w'.moments
  /-- The steps that have come were allowed only if the earlier ones were. -/
  allowed : Allowed k w'.moments → Allowed k w.moments

/-- An evaluation answers a picture of a chain. -/
structure Answers (w : Watch Studio Place) (t : Rooted Place) (w' : Watch Studio Place) : Prop where
  /-- The image at the root of the chain is one of the images. -/
  root : t.root ∈ images
  /-- The place of the picture was free when the evaluation started. -/
  fresh : w.state.pictures.size ≤ t.picture
  /-- The picture is in the store. -/
  inside : t.picture < w'.state.pictures.size
  /-- The picture is akin to the image at the root of its chain. -/
  kin : Allowed k w'.moments → k.Kin (start.picture t.root) (w'.state.picture t.picture)

variable {k images start} {w w₁ w₂ : Watch Studio Place} {t : Rooted Place}

/-- One evaluation after another. -/
theorem Leads.trans (h : Leads k images start w w₁) (h' : Leads k images start w₁ w₂) :
    Leads k images start w w₂ where
  keeps := h.keeps.trans (h'.keeps.mono h.keeps.size)
  sound := h'.sound ∘ h.sound
  allowed := h.allowed ∘ h'.allowed

/-- What is answered later is answered. -/
theorem Answers.of_leads (h : Leads k images start w w₁) (ht : Answers k images start w₁ t w₂) :
    Answers k images start w t w₂ where
  root := ht.root
  fresh := Nat.le_trans h.keeps.size ht.fresh
  inside := ht.inside
  kin := ht.kin

/-- A step that is applied to a picture that the evaluation has made itself. -/
theorem meets_watch (step : Step Place) (hleads : Leads k images start w w₁)
    (hanswers : Answers k images start w t w₁)
    (hapart : ∀ above, step = .overlay above → t.picture ≠ above) :
    Meets ((backend limit).watch t step) w₁ (Leads k images start w)
      (Answers k images start w) := by
  intro answer w' hexec
  have hdraws := draws_perform limit step hanswers.fresh hanswers.inside
  have hsound : Sound k images start w.moments →
      Sound k images start (.before t.picture step w₁.state :: w₁.moments) :=
    fun h => (hleads.sound h).before hapart
  rw [Backend.exec_watch] at hexec
  generalize hrun : exec ((backend limit).perform t.picture step) w₁.state = run at hexec
  obtain ⟨result, s'⟩ := run
  obtain ⟨hkeeps, hholds⟩ := hdraws.of_exec hrun
  have hkeeps' := hleads.keeps.trans hkeeps
  cases result with
  | error e =>
    cases hexec
    exact ⟨⟨hkeeps', hsound, fun h => hleads.allowed h.of_cons⟩, nofun⟩
  | ok made =>
    cases hexec
    generalize hvalue : value ((Raster.values limit).perform (w₁.state.picture t.picture)
      (step.map w₁.state.picture)) = v at hholds
    cases hholds with
    | ok bound inside =>
      -- The step keeps what the picture has in common with the image of its chain.
      have hkin (h : Allowed k (.before t.picture step w₁.state :: w₁.moments)) :
          k.Kin (start.picture t.root) (s'.picture made) :=
        k.step (hanswers.kin h.of_cons) (h _ _ _ List.mem_cons_self) hvalue
      refine ⟨⟨hkeeps', fun h => (hsound h).after fun h => ⟨hanswers.root, hkin h⟩,
        fun h => hleads.allowed h.of_cons.of_cons⟩, fun a ha => ?_⟩
      cases ha
      exact ⟨hanswers.root, bound, inside, fun h => hkin h.of_cons⟩

/-- The copy of an image. -/
theorem meets_watched_copy {image : Place} (hkeeps : start.Keeps start.pictures.size w.state)
    (hmem : image ∈ images) (himage : image < start.pictures.size)
    (hkin : k.Kin (start.picture image) (start.picture image)) :
    Meets ((backend limit).watched.copy (.ofImage image)) w (Leads k images start w)
      (Answers k images start w) := by
  intro answer w' hexec
  rw [Backend.exec_watched_copy] at hexec
  generalize hrun : exec ((backend limit).copy (Rooted.ofImage image).picture) w.state = run
    at hexec
  obtain ⟨result, s'⟩ := run
  obtain ⟨hkeeps', hholds⟩ := (draws_copy w.state image).of_exec hrun
  cases result with
  | error e => cases hholds
  | ok made =>
    cases hexec
    generalize hpicture : (Except.ok (w.state.picture image) : Except Raster.Fault Raster) = v
      at hholds
    cases hholds with
    | ok bound inside =>
      have hcopy : s'.picture made = start.picture image := by
        rw [← hkeeps.picture image himage]
        exact (Except.ok.inj hpicture).symm
      have hkin' : k.Kin (start.picture image) (s'.picture made) := hcopy ▸ hkin
      refine ⟨⟨hkeeps', fun h => h.after fun _ => ⟨hmem, hkin'⟩, fun h => h.of_cons⟩,
        fun a ha => ?_⟩
      cases ha
      exact ⟨hmem, bound, inside, fun _ => hkin'⟩

/-- The studio works on places of its own. -/
theorem contract (k : Kinship limit) (himages : ∀ p ∈ images, p < start.pictures.size)
    (hkin : ∀ p ∈ images, k.Kin (start.picture p) (start.picture p)) :
    Backend.Contract (backend limit).watched (images.map Rooted.ofImage)
      (fun w => start.Keeps start.pictures.size w.state) (Leads k images start)
      (Answers k images start) where
  refl w := ⟨.refl _ _, id, id⟩
  trans h h' := h.trans h'
  ready hready h := hready.trans (h.keeps.mono hready.size)
  copy hready hmem := by
    obtain ⟨p, hp, rfl⟩ := Array.mem_map.1 hmem
    exact meets_watched_copy hready hp (himages p hp) (hkin p hp)
  frame how width height _ h ht := meets_watch (.frame how width height) h ht nofun
  blur strength _ h ht := meets_watch (.blur strength) h ht nofun
  overlay {w w₁ w₂ t u} _ h hu h' ht := by
    -- The picture below was made after the argument, whose place was taken by then.
    have hapart : t.picture ≠ u.picture :=
      Nat.ne_of_gt (Nat.lt_of_lt_of_le hu.inside ht.fresh)
    refine meets_watch (.overlay u.picture) (h.trans h') (.of_leads h ht) fun above heq => ?_
    cases heq
    exact hapart

end Contract

/-! ## Evaluating -/

variable {images : Array Place} {words : List Int} {answer : Except (EvalFault Raster.Fault) Place}

/-- An evaluation is a watched one, at whose end it notes that it has ended. -/
theorem exists_watched (h : (evaluate limit images words).run s = (answer, s')) :
    ∃ result w', exec ((backend limit).watched.evaluate (images.map Rooted.ofImage) words) ⟨s, []⟩ =
        (result, w') ∧ answer = result.map Rooted.picture ∧
      s' = w'.state.note (.timed "evaluate") ∧
      (backend limit).moments images words s = w'.moments := by
  have hrun : (evaluate limit images words).run s =
      ((exec ((backend limit).evaluate images words) s).1,
        (exec ((backend limit).evaluate images words) s).2.note (.timed "evaluate")) := rfl
  have hwatched := Backend.exec_evaluate_eq_watched (b := backend limit) images words ⟨s, []⟩
  simp only at hwatched
  rw [h, hwatched] at hrun
  cases hrun
  exact ⟨_, _, rfl, rfl, rfl, rfl⟩

/-- What is known of a watched evaluation at its end. -/
theorem meets_evaluate (k : Kinship limit) (himages : ∀ p ∈ images, p < s.pictures.size)
    (hkin : ∀ p ∈ images, k.Kin (s.picture p) (s.picture p)) (words : List Int) :
    Meets ((backend limit).watched.evaluate (images.map Rooted.ofImage) words) ⟨s, []⟩
      (Leads k images s ⟨s, []⟩) (Answers k images s ⟨s, []⟩) :=
  (contract k himages hkin).evaluate (.refl _ _) words

/-- What is known of the moments of an evaluation. -/
theorem sound_moments (k : Kinship limit) (himages : ∀ p ∈ images, p < s.pictures.size)
    (hkin : ∀ p ∈ images, k.Kin (s.picture p) (s.picture p)) (words : List Int) :
    Sound k images s ((backend limit).moments images words s) :=
  (meets_evaluate k himages hkin words _ _ rfl).1.sound ⟨nofun, nofun⟩

/-- An evaluation changes nothing that was there and answers a picture of its own. Evaluated on any
images of a store, which may name one picture several times, all words, also those of no expression,
leave the picture at each place as it was, whether a picture is answered or the evaluation fails at
any point. What is answered is put at a place that was free, and so is none of the images. Whenever
a picture is about to be drawn on another one, the two are different. -/
theorem evaluate_private (limit : Int) {images : Array Place} {s : Studio}
    (himages : ∀ p ∈ images, p < s.pictures.size) (words : List Int) :
    (∀ answer s', (evaluate limit images words).run s = (answer, s') →
      (∀ p < s.pictures.size, s'.picture p = s.picture p) ∧
        ∀ p, answer = .ok p → p ∉ images ∧ s.pictures.size ≤ p ∧ p < s'.pictures.size) ∧
      ∀ base above state,
        .before base (.overlay above) state ∈ (backend limit).moments images words s →
          base ≠ above := by
  have hkin : ∀ p ∈ images, (Kinship.none limit).Kin (s.picture p) (s.picture p) :=
    fun _ _ => trivial
  refine ⟨fun answer s' hrun => ?_, (sound_moments _ himages hkin words).apart⟩
  obtain ⟨result, w', hexec, rfl, rfl, -⟩ := exists_watched hrun
  obtain ⟨hleads, hanswers⟩ := meets_evaluate _ himages hkin words _ _ hexec
  refine ⟨hleads.keeps.picture, fun p hp => ?_⟩
  cases result with
  | error e => cases hp
  | ok t =>
    cases hp
    obtain ⟨-, hfresh, hinside, -⟩ := hanswers t rfl
    exact ⟨fun hmem => absurd (himages _ hmem) (Nat.not_lt.2 hfresh), hfresh, hinside⟩

end Studio

end Library

namespace Studio

/-- A store with one picture, all of whose samples are zero. -/
def lone : Studio :=
  ⟨#[.generate 2 3 (some 4) fun _ _ _ => 0], #[]⟩

attribute [local instance] Imaging.standard

/-- An image that is drawn on itself is copied twice, and neither copy is the image. -/
theorem evaluate_private_twice :
    (∀ p ∈ #[0, 0], p < lone.pictures.size) ∧
      (∃ s', (evaluate 100 #[0, 0] [0, 4, 1, 4, 2]).run lone = (.ok 2, s') ∧
        s'.picture 0 = lone.picture 0 ∧ 2 ∉ #[0, 0]) ∧
      ∃ state, .before 2 (.overlay 1) state ∈ (backend 100).moments #[0, 0] [0, 4, 1, 4, 2] lone ∧
        (2 : Place) ≠ 1 := by
  have himages : ∀ p ∈ #[0, 0], p < lone.pictures.size := by decide
  obtain ⟨hrun, hapart⟩ := evaluate_private 100 himages [0, 4, 1, 4, 2]
  have hanswer : (evaluate 100 #[0, 0] [0, 4, 1, 4, 2]).run lone =
      (.ok 2, ((evaluate 100 #[0, 0] [0, 4, 1, 4, 2]).run lone).2) := Prod.ext rfl rfl
  obtain ⟨hkeeps, hfresh⟩ := hrun _ _ hanswer
  have hmoment : ∃ state, .before 2 (.overlay 1) state ∈
      (backend 100).moments #[0, 0] [0, 4, 1, 4, 2] lone := by
    rw [Backend.moments, List.map_toArray]
    exact ⟨_, .tail _ (.head _)⟩
  obtain ⟨state, hmem⟩ := hmoment
  exact ⟨himages, ⟨_, hanswer, hkeeps 0 (by decide), (hfresh 2 rfl).1⟩,
    state, hmem, hapart 2 1 state hmem⟩

end Studio

end Montage
