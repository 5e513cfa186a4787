import Montage.Compose
import Montage.Imaging.Standard
import Montage.Proofs.Evaluation.Preservation
import Montage.Proofs.Raster.Channels
import Mathlib.Data.List.Forall2

/-!
# Channels do not interfere

An evaluation on images in red, green, blue and opacity decides nothing by the samples, and takes
nothing from one channel to another. Two stores that look alike to someone who sees only some
channels (`Studio.SeenAlike`) are led by every operation to stores that look alike, and the
operation names the same picture or has the same fault. So two evaluations of the same words on
images of the same shapes end alike, tell the same messages, and differ only in channels in which
the images differ (`evaluateOn_channels`).
-/

namespace Montage

open Effect

namespace Studio

/-- Two stores look alike to someone who sees only some channels. -/
structure SeenAlike (seen : Nat → Prop) (s s' : Studio) : Prop where
  /-- There are as many pictures. -/
  size : s'.pictures.size = s.pictures.size
  /-- The same has happened. -/
  events : s'.events = s.events
  /-- The pictures look alike. -/
  picture : ∀ p, Raster.SeenAlike seen (s.picture p) (s'.picture p)

variable {seen : Nat → Prop} {s s' : Studio} {r q : Raster}

theorem SeenAlike.note (h : SeenAlike seen s s') (e : Event) :
    SeenAlike seen (s.note e) (s'.note e) where
  size := h.size
  events := congrArg (·.push e) h.events
  picture := h.picture

theorem SeenAlike.add (h : SeenAlike seen s s') (hr : Raster.SeenAlike seen r q) :
    SeenAlike seen (s.add r).2 (s'.add q).2 where
  size := by simp [Studio.add, h.size]
  events := h.events
  picture p := by
    unfold Studio.add Studio.picture
    rw [Array.getElem?_push, Array.getElem?_push, h.size]
    split
    · exact hr
    · exact h.picture p

theorem SeenAlike.replace (h : SeenAlike seen s s') (p : Place) (hr : Raster.SeenAlike seen r q) :
    SeenAlike seen (s.replace p r) (s'.replace p q) where
  size := by simp [Studio.replace, h.size]
  events := h.events
  picture p' := by
    unfold Studio.replace Studio.picture
    rw [Array.getElem?_setIfInBounds, Array.getElem?_setIfInBounds, h.size]
    split
    · split
      · exact hr
      · exact ⟨⟨rfl, rfl, rfl⟩, .inl rfl, fun _ _ _ _ hy => absurd hy (Nat.not_lt_zero _)⟩
    · exact h.picture p'

/-! ## The operations -/

theorem runsAlike_look (p : Place) :
    RunsAlike (SeenAlike seen) (Raster.SeenAlike seen) (look p) (look p) :=
  fun _ _ h => ⟨.ok (h.picture p), h⟩

theorem runsAlike_place (hr : Raster.SeenAlike seen r q) :
    RunsAlike (SeenAlike seen) Eq (place r) (place q) :=
  fun _ _ h => ⟨.ok h.size.symm, h.add hr⟩

theorem runsAlike_tell (e : Event) : RunsAlike (SeenAlike seen) Eq (tell e) (tell e) :=
  fun _ _ h => ⟨.ok rfl, h.note e⟩

theorem runsAlike_replace (p : Place) (hr : Raster.SeenAlike seen r q) :
    RunsAlike (SeenAlike seen) Eq (modify fun s => s.replace p r : Action Unit)
      (modify fun s => s.replace p q : Action Unit) :=
  fun _ _ h => ⟨.ok rfl, h.replace p hr⟩

theorem runsAlike_attempt {α β : Type} {Q : α → β → Prop} {answer : Except Raster.Fault α}
    {answer' : Except Raster.Fault β} (h : AnswersAlike Q answer answer') :
    RunsAlike (SeenAlike seen) Q (attempt answer) (attempt answer') :=
  fun _ _ hs => ⟨h, hs⟩

theorem runsAlike_settle (p : Place) {made made' : Option Raster}
    (h : Option.Rel (Raster.SeenAlike seen) made made') :
    RunsAlike (SeenAlike seen) Eq (settle p made) (settle p made') := by
  cases h with
  | none => exact runsAlike_pure rfl
  | some hr => exact runsAlike_place hr

/-- What has ended is noted, however it ended. -/
theorem runsAlike_timed {Error Result : Type} {action action' : Effect Studio Error Result}
    (h : RunsAlike (SeenAlike seen) Eq action action') (label : String) :
    RunsAlike (SeenAlike seen) Eq (timed label action) (timed label action') := by
  intro s s' hs
  obtain ⟨hanswers, hstates⟩ := h s s' hs
  exact ⟨hanswers, hstates.note _⟩

theorem runsAlike_copy (p : Place) : RunsAlike (SeenAlike seen) Eq (copy p) (copy p) :=
  (runsAlike_look p).bind fun _ _ hr => runsAlike_place hr

variable [Imaging]

/-- A scaling notes the same sizes. -/
theorem runsAlike_resize (limit : Int) (p : Place) (factor : Binary64) :
    RunsAlike (SeenAlike seen) Eq (resize limit p factor) (resize limit p factor) := by
  refine (runsAlike_look p).bind fun source source' hsource => ?_
  refine (runsAlike_attempt (Raster.seenAlike_resize hsource limit factor)).bind
    fun made made' hmade => ?_
  cases hmade with
  | none => exact runsAlike_pure rfl
  | some hscaled =>
    simp only [hsource.height, hsource.width, hscaled.height, hscaled.width]
    exact (runsAlike_tell _).bind_eq fun _ => runsAlike_place hscaled

/-- The factor of a framing depends on sizes only. -/
theorem runsAlike_frame (limit : Int) (how : Framing) (width height : Int) (p : Place) :
    RunsAlike (SeenAlike seen) Eq (frame limit how width height p)
      (frame limit how width height p) := by
  refine (runsAlike_look p).bind fun source source' hsource => ?_
  rw [hsource.height, hsource.width]
  cases how.factor width height source.width source.height with
  | error e => exact fun _ _ hs => ⟨.error _, hs⟩
  | ok factor => exact runsAlike_timed (runsAlike_resize limit p factor) _

theorem runsAlike_blur (p : Place) (sigma : Binary64) :
    RunsAlike (SeenAlike seen) Eq (blur p sigma) (blur p sigma) :=
  (runsAlike_look p).bind fun _ _ hsource =>
    (runsAlike_attempt (Raster.seenAlike_blur hsource sigma)).bind fun _ _ hmade =>
      runsAlike_settle p hmade

/-- Whether anything is drawn depends on sizes only. -/
theorem runsAlike_overlay (base above : Place) :
    RunsAlike (SeenAlike seen) Eq (overlay base above) (overlay base above) := by
  refine (runsAlike_look base).bind fun below below' hbelow => ?_
  refine (runsAlike_look above).bind fun given given' hgiven => ?_
  refine (runsAlike_attempt (Raster.drawn_alike hgiven hbelow)).bind fun made made' hmade => ?_
  obtain ⟨hmeets, hdrawn⟩ := hmade
  simp only [hmeets]
  by_cases hmeet : below.meets (made.getD given) = true
  · rw [if_pos hmeet, if_pos hmeet]
    exact (runsAlike_replace base (hdrawn hmeet)).bind_eq fun _ => runsAlike_pure rfl
  · rw [if_neg hmeet, if_neg hmeet]
    exact (runsAlike_tell _).bind_eq fun _ => runsAlike_pure rfl

/-- No operation of the studio can tell stores that look alike apart. -/
theorem actsAlike_backend (limit : Int) :
    Backend.ActsAlike (SeenAlike seen) (backend limit) where
  copy := runsAlike_copy
  frame := runsAlike_frame limit
  blur _ p :=
    runsAlike_timed ((runsAlike_attempt (answersAlike_self _)).bind_eq (runsAlike_blur p)) _
  overlay base above := runsAlike_timed (runsAlike_overlay base above) _

/-- No evaluation can tell stores that look alike apart. -/
theorem runsAlike_evaluate (limit : Int) (images : Array Place) (words : List Int) :
    RunsAlike (SeenAlike seen) Eq (evaluate limit images words) (evaluate limit images words) :=
  runsAlike_timed ((actsAlike_backend limit).evaluate images words) _

end Studio

/-! ## Images -/

/-- What holds between the elements of two lists holds at each index, and beyond their ends where
it holds between the defaults. -/
theorem forall₂_getD {α β : Type} {R : α → β → Prop} {l : List α} {l' : List β} {d : α} {d' : β}
    (h : List.Forall₂ R l l') (hd : R d d') (i : Nat) : R (l[i]?.getD d) (l'[i]?.getD d') := by
  induction h generalizing i with
  | nil => exact hd
  | cons hhead _ ih =>
    cases i with
    | zero => exact hhead
    | succ i => exact ih i

/-- The parts of a shape. -/
theorem Raster.eq_of_shape {r q : Raster} (h : q.shape = r.shape) :
    q.height = r.height ∧ q.width = r.width ∧ q.channels = r.channels := by
  unfold Raster.shape at h
  injection h with hheight h
  injection h with hwidth h
  refine ⟨hheight, hwidth, ?_⟩
  have hchannels : q.channels.toList.head? = r.channels.toList.head? := congrArg List.head? h
  rwa [Option.head?_toList, Option.head?_toList] at hchannels

/-- Stores of images of the same shapes look alike to someone who sees the channels in which the
images are the same. -/
theorem seenAlike_images {first second : List Raster}
    (himages : List.Forall₂ (fun r q : Raster => r.channels = some 4 ∧ q.shape = r.shape)
      first second) :
    Studio.SeenAlike (fun c => List.Forall₂ (Raster.SameChannel c) first second)
      ⟨first.toArray, #[]⟩ ⟨second.toArray, #[]⟩ where
  size := himages.length_eq.symm
  events := rfl
  picture p := by
    unfold Studio.picture
    rw [List.getElem?_toArray, List.getElem?_toArray]
    have hshape : ((first[p]?.getD .empty).height = 0 ∨
        (first[p]?.getD .empty).channels = some 4) ∧
        (second[p]?.getD .empty).shape = (first[p]?.getD .empty).shape :=
      forall₂_getD (R := fun r q => (r.height = 0 ∨ r.channels = some 4) ∧ q.shape = r.shape)
        (himages.imp fun r q h => ⟨.inr h.1, h.2⟩) ⟨.inl rfl, rfl⟩ p
    obtain ⟨hheight, hwidth, hchannels⟩ := Raster.eq_of_shape hshape.2
    have hempty (c : Nat) : Raster.SameChannel c .empty .empty := fun _ _ _ _ => rfl
    exact ⟨⟨hheight, hwidth, hchannels⟩, hshape.1, fun c _ hsame => forall₂_getD hsame (hempty c) p⟩

/-- Channels do not interfere, and nothing is decided by samples. Let two lists of images in red,
green, blue and opacity have the same shapes, one by one. Then any words are evaluated on both with
the same fault or to pictures of one shape, and the same is told. Where both lists have the same
samples in a channel, so have the two pictures. -/
theorem evaluateOn_channels [Imaging] (limit : Int) (words : List Int) {first second : List Raster}
    (himages : List.Forall₂ (fun r q : Raster => r.channels = some 4 ∧ q.shape = r.shape)
      first second) :
    AnswersAlike
        (fun r q => q.shape = r.shape ∧
          ∀ c < 4, List.Forall₂ (Raster.SameChannel c) first second → r.SameChannel c q)
        (evaluateOn limit first words).result (evaluateOn limit second words).result ∧
      (evaluateOn limit second words).messages = (evaluateOn limit first words).messages := by
  obtain ⟨hanswers, hstudios⟩ :=
    Studio.runsAlike_evaluate limit (Array.range first.length) words _ _ (seenAlike_images himages)
  have hlength : second.length = first.length := himages.length_eq.symm
  unfold evaluateOn
  -- As there are as many images, the same places name them in both runs.
  rw [hlength]
  generalize hrun : exec (Studio.evaluate limit (Array.range first.length) words)
    ⟨first.toArray, #[]⟩ = run at hanswers hstudios
  generalize hrun' : exec (Studio.evaluate limit (Array.range first.length) words)
    ⟨second.toArray, #[]⟩ = run' at hanswers hstudios
  unfold exec at hrun hrun'
  simp only [hrun, hrun']
  obtain ⟨answer, s⟩ := run
  obtain ⟨answer', s'⟩ := run'
  refine ⟨?_, by rw [hstudios.events]⟩
  cases hanswers with
  | error e => exact .error e
  | ok related =>
    subst related
    rename_i p
    have hpicture := hstudios.picture p
    refine .ok ⟨?_, fun c hc hsame => hpicture.samples c hc hsame⟩
    unfold Raster.shape
    rw [hpicture.height, hpicture.width, hpicture.channels]

/-- A raster of one pixel, with one sample in red and another one in all other channels. -/
def Raster.pixel (red others : UInt8) : Raster :=
  generate 1 1 (some 4) fun _ _ c => if c = 0 then red else others

attribute [local instance] Imaging.standard

/-- A pixel drawn on another one, where the images of the second run differ from those of the first
in all channels but red. -/
theorem evaluateOn_channels_red :
    ∃ r q : Raster,
      (evaluateOn 100 [.pixel 7 1, .pixel 9 2] [0, 4, 1, 4, 2]).result = .ok r ∧
      (evaluateOn 100 [.pixel 7 3, .pixel 9 4] [0, 4, 1, 4, 2]).result = .ok q ∧
      r.SameChannel 0 q ∧ ¬ r.SameChannel 1 q := by
  have hfirst : (evaluateOn 100 [.pixel 7 1, .pixel 9 2] [0, 4, 1, 4, 2]).result =
      .ok (.pixel 9 2) := by
    refine Studio.eq_ok_of_toOption ?_
    decide +kernel
  have hsecond : (evaluateOn 100 [.pixel 7 3, .pixel 9 4] [0, 4, 1, 4, 2]).result =
      .ok (.pixel 9 4) := by
    refine Studio.eq_ok_of_toOption ?_
    decide +kernel
  have hred (red others others' : UInt8) :
      (Raster.pixel red others).SameChannel 0 (.pixel red others') := by
    have hdepth : 0 < (some 4).getD 1 := by decide
    intro y hy x hx
    have hy' : y < 1 := hy
    have hx' : x < 1 := hx
    rw [Raster.pixel, Raster.pixel, Raster.get_generate hy' hx' hdepth,
      Raster.get_generate hy' hx' hdepth]
    rfl
  have himages : List.Forall₂ (fun r q : Raster => r.channels = some 4 ∧ q.shape = r.shape)
      [.pixel 7 1, .pixel 9 2] [.pixel 7 3, .pixel 9 4] :=
    .cons ⟨rfl, rfl⟩ (.cons ⟨rfl, rfl⟩ .nil)
  have halike := (evaluateOn_channels 100 [0, 4, 1, 4, 2] himages).1
  rw [hfirst, hsecond] at halike
  cases halike with
  | ok related =>
    refine ⟨_, _, hfirst, hsecond, related.2 0 (by decide) ?_, ?_⟩
    · exact .cons (hred 7 1 3) (.cons (hred 9 2 4) .nil)
    · intro hsame
      have hgreen := hsame 0 (by decide) 0 (by decide)
      revert hgreen
      decide +kernel

end Montage
