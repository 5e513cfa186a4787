import Montage.Imaging.Standard
import Montage.Proofs.Evaluation.Shapes
import Montage.Proofs.Raster.Box

/-!
# Framing once is enough

The steps of a chain that bring a picture to a box, in the store. A picture whose sides are settled
is answered as it is (`exec_frame_of_settled`), any other one is too large or gives a new picture
with settled sides (`exec_frame_of_not_settled`). So a fitting stays inside its box (`fit_inside`)
and a filling covers it (`fill_covers`), and doing either once more changes nothing.
-/

namespace Montage.Studio

open Effect

section Library

variable [Imaging] {limit : Int} {how : Framing} {boxWidth boxHeight : ℕ} {s s' : Studio}
  {p q : Place}

/-- A picture with settled sides stays as it is. -/
theorem exec_frame_of_settled (limit : Int) (hboxWidth : Framing.IsSide boxWidth)
    (hboxHeight : Framing.IsSide boxHeight) (hp : (s.picture p).Handy)
    (hsettled : how.Settled boxWidth boxHeight (s.picture p).width (s.picture p).height) :
    ∃ s', exec (frame limit how boxWidth boxHeight p) s = (.ok p, s') ∧
      s'.pictures = s.pictures := by
  have hfactor := Raster.factor_of_settled hboxWidth hboxHeight hp hsettled
  have hsame : (s.picture p).resize limit .one = .ok none := Raster.resize_one
  refine ⟨s.note (.timed (how.tag.mnemonic ++ s!"({(boxWidth : Int)}x{(boxHeight : Int)})")), ?_,
    rfl⟩
  rw [exec_frame, hfactor]
  simp only
  rw [exec_timed, exec_resize, hsame]

/-- A picture whose sides are not settled has too many pixels, or there is a new one that comes to
the box. -/
theorem exec_frame_of_not_settled (limit : Int) (hboxWidth : Framing.IsSide boxWidth)
    (hboxHeight : Framing.IsSide boxHeight) (hp : (s.picture p).Moderate)
    (hsettled : ¬how.Settled boxWidth boxHeight (s.picture p).width (s.picture p).height) :
    (∃ (height width : ℕ) (s' : Studio), limit < (height * width : ℕ) ∧
      (how = .fit → width ≤ (s.picture p).width ∧ height ≤ (s.picture p).height) ∧
      exec (frame limit how boxWidth boxHeight p) s = (.error (.tooLarge width height limit), s') ∧
      s'.pictures = s.pictures) ∨
    ∃ s', exec (frame limit how boxWidth boxHeight p) s = (.ok s.pictures.size, s') ∧
      Raster.Framed how boxWidth boxHeight (s.picture p) (s'.picture s.pictures.size) := by
  obtain ⟨factor, hfactor, hcases⟩ :=
    Raster.exists_framing how limit hboxWidth hboxHeight hp hsettled
  have hexec : exec (frame limit how boxWidth boxHeight p) s = _ := exec_frame limit how _ _ s p
  rw [hfactor] at hexec
  simp only at hexec
  rw [exec_timed, exec_resize] at hexec
  obtain ⟨height, width, hlimit, hshrunk, herror⟩ | ⟨made, hframed, hmade⟩ := hcases
  · rw [herror] at hexec
    exact .inl ⟨height, width, _, hlimit, hshrunk, hexec, rfl⟩
  · rw [hmade] at hexec
    refine .inr ⟨_, hexec, ?_⟩
    have hpicture (before after : Event) :
        (((s.note before).add made).2.note after).picture s.pictures.size = made :=
      picture_add (s.note before) made
    rw [hpicture]
    exact hframed

/-- What a framing answers once it has answered: a picture with settled sides, and once more the
same picture. -/
theorem settled_of_exec_frame (hboxWidth : Framing.IsSide boxWidth)
    (hboxHeight : Framing.IsSide boxHeight) (hp : (s.picture p).Moderate)
    (hexec : exec (frame limit how boxWidth boxHeight p) s = (.ok q, s')) :
    (q = p ↔ how.Settled boxWidth boxHeight (s.picture p).width (s.picture p).height) ∧
      Raster.Framed how boxWidth boxHeight (s.picture p) (s'.picture q) ∧
      ∃ s'', exec (frame limit how boxWidth boxHeight q) s' = (.ok q, s'') ∧
        s''.pictures = s'.pictures := by
  have hframed : (q = p ↔
      how.Settled boxWidth boxHeight (s.picture p).width (s.picture p).height) ∧
      Raster.Framed how boxWidth boxHeight (s.picture p) (s'.picture q) := by
    by_cases hsettled : how.Settled boxWidth boxHeight (s.picture p).width (s.picture p).height
    · obtain ⟨s₁, hexec₁, hpictures⟩ :=
        exec_frame_of_settled limit hboxWidth hboxHeight hp.handy hsettled
      rw [hexec] at hexec₁
      cases hexec₁
      have hpicture : s'.picture p = s.picture p := by rw [picture, picture, hpictures]
      rw [hpicture]
      exact ⟨iff_of_true rfl hsettled, hsettled, hp.handy, fun _ => ⟨le_rfl, le_rfl⟩⟩
    · obtain ⟨height, width, s₁, -, -, hexec₁, -⟩ | ⟨s₁, hexec₁, hframed⟩ :=
        exec_frame_of_not_settled limit hboxWidth hboxHeight hp hsettled
      · rw [hexec] at hexec₁
        cases hexec₁
      · rw [hexec] at hexec₁
        cases hexec₁
        have hne : s.pictures.size ≠ p := (lt_size_of_height hp.height_pos).ne'
        exact ⟨iff_of_false hne hsettled, hframed⟩
  exact ⟨hframed.1, hframed.2,
    exec_frame_of_settled limit hboxWidth hboxHeight hframed.2.handy hframed.2.settled⟩

/-- A framing of a picture fails for no other cause than that its target has too many pixels, and
then no picture has changed. -/
theorem tooLarge_of_exec_frame {e : Raster.Fault} (hboxWidth : Framing.IsSide boxWidth)
    (hboxHeight : Framing.IsSide boxHeight) (hp : (s.picture p).Moderate)
    (hexec : exec (frame limit how boxWidth boxHeight p) s = (.error e, s')) :
    ¬how.Settled boxWidth boxHeight (s.picture p).width (s.picture p).height ∧
    ∃ height width : ℕ, e = .tooLarge width height limit ∧ limit < (height * width : ℕ) ∧
      (how = .fit → width ≤ (s.picture p).width ∧ height ≤ (s.picture p).height) ∧
      s'.pictures = s.pictures := by
  by_cases hsettled : how.Settled boxWidth boxHeight (s.picture p).width (s.picture p).height
  · obtain ⟨s₁, hexec₁, -⟩ := exec_frame_of_settled limit hboxWidth hboxHeight hp.handy hsettled
    rw [hexec] at hexec₁
    cases hexec₁
  · obtain ⟨height, width, s₁, hlimit, hshrunk, hexec₁, hpictures⟩ | ⟨s₁, hexec₁, -⟩ :=
      exec_frame_of_not_settled limit hboxWidth hboxHeight hp hsettled
    · rw [hexec] at hexec₁
      cases hexec₁
      exact ⟨hsettled, height, width, rfl, hlimit, hshrunk, hpictures⟩
    · rw [hexec] at hexec₁
      cases hexec₁

/-- Fitting stays inside its box, and once is enough. A fitting step is applied to a picture of a
store whose sides, like those of the box, are at least 1 and at most 2147483647. The picture that it
answers lies in the box, has at least one pixel on each axis and is not larger than the old one on
either axis. It is the old one itself exactly if that one lies in the box, and the step does answer
then. Applied to what it has answered, the step answers the same picture and changes none. It fails
only if the size that it aims at, which is not above the old one either, has more pixels than the
limit, and then it has changed no picture. -/
theorem fit_inside (hp : (s.picture p).Moderate) (hboxWidth : Framing.IsSide boxWidth)
    (hboxHeight : Framing.IsSide boxHeight) :
    let fit (q : Place) := (backend limit).perform q (.frame .fit boxWidth boxHeight)
    let old := s.picture p
    (∀ q s', exec (fit p) s = (.ok q, s') →
      ((s'.picture q).width ≤ boxWidth ∧ (s'.picture q).height ≤ boxHeight) ∧
      ((s'.picture q).width ≤ old.width ∧ (s'.picture q).height ≤ old.height) ∧
      (1 ≤ (s'.picture q).width ∧ 1 ≤ (s'.picture q).height) ∧
      (q = p ↔ old.width ≤ boxWidth ∧ old.height ≤ boxHeight) ∧
      ∃ s'', exec (fit q) s' = (.ok q, s'') ∧ s''.pictures = s'.pictures) ∧
    (old.width ≤ boxWidth ∧ old.height ≤ boxHeight →
      ∃ s', exec (fit p) s = (.ok p, s') ∧ s'.pictures = s.pictures) ∧
    ∀ e s', exec (fit p) s = (.error e, s') → s'.pictures = s.pictures ∧
      ∃ height width : ℕ, e = .tooLarge width height limit ∧ limit < (height * width : ℕ) ∧
        width ≤ old.width ∧ height ≤ old.height := by
  intro fit old
  refine ⟨fun q s' hexec => ?_, ?_, fun e s' hexec => ?_⟩
  · obtain ⟨hsame, hframed, hagain⟩ := settled_of_exec_frame hboxWidth hboxHeight hp hexec
    exact ⟨hframed.settled, hframed.shrunk rfl, ⟨hframed.handy.width_pos, hframed.handy.height_pos⟩,
      hsame, hagain⟩
  · intro hinside
    exact exec_frame_of_settled limit hboxWidth hboxHeight hp.handy hinside
  · obtain ⟨-, height, width, rfl, hlimit, hshrunk, hpictures⟩ :=
      tooLarge_of_exec_frame hboxWidth hboxHeight hp hexec
    exact ⟨hpictures, height, width, rfl, hlimit, hshrunk rfl⟩

end Library

section

attribute [local instance] Imaging.standard

/-- An image of two rows and three columns is fitted into a box that is narrower and higher. -/
theorem fit_inside_narrow : (lone.picture 0).Moderate ∧ Framing.IsSide 2 ∧ Framing.IsSide 5 ∧
    ∃ s', exec ((backend 100).perform 0 (.frame .fit 2 5)) lone = (.ok 1, s') ∧
      ((s'.picture 1).width ≤ 2 ∧ 1 ≤ (s'.picture 1).height) ∧
      ∃ s'', exec ((backend 100).perform 1 (.frame .fit 2 5)) s' = (.ok 1, s'') ∧
        s''.pictures = s'.pictures := by
  have hmoderate : (lone.picture 0).Moderate := ⟨by decide, by decide, by decide, by decide⟩
  have hwidth : Framing.IsSide 2 := ⟨by decide, by decide⟩
  have hheight : Framing.IsSide 5 := ⟨by decide, by decide⟩
  have hanswer : (exec ((backend 100).perform 0 (.frame .fit 2 5)) lone).1 = .ok 1 := by
    refine eq_ok_of_toOption ?_
    decide +kernel
  generalize hrun : exec ((backend 100).perform 0 (.frame .fit 2 5)) lone = run at hanswer
  obtain ⟨result, s'⟩ := run
  obtain rfl : result = .ok 1 := hanswer
  obtain ⟨hbox, -, hpos, -, hagain⟩ := (fit_inside hmoderate hwidth hheight).1 1 s' hrun
  exact ⟨hmoderate, hwidth, hheight, s', rfl, ⟨hbox.1, hpos.2⟩, hagain⟩

end

/-- Filling covers its box and is tight, and once is enough. A filling step is applied to a picture
of a store whose sides, like those of the box, are at least 1 and at most 2147483647. Each side of
the picture that it answers is at least that of the box, and one of them equals it. Applied to what
it has answered, the step answers the same picture and changes none. It fails only if the size that
it aims at has more pixels than the limit, and then it has changed no picture. -/
theorem fill_covers [Imaging] {limit : Int} {boxWidth boxHeight : ℕ} {s : Studio} {p : Place}
    (hp : (s.picture p).Moderate) (hboxWidth : Framing.IsSide boxWidth)
    (hboxHeight : Framing.IsSide boxHeight) :
    let fill (q : Place) := (backend limit).perform q (.frame .fill boxWidth boxHeight)
    (∀ q s', exec (fill p) s = (.ok q, s') →
      boxWidth ≤ (s'.picture q).width ∧ boxHeight ≤ (s'.picture q).height ∧
      (boxWidth = (s'.picture q).width ∨ boxHeight = (s'.picture q).height) ∧
      ∃ s'', exec (fill q) s' = (.ok q, s'') ∧ s''.pictures = s'.pictures) ∧
    ∀ e s', exec (fill p) s = (.error e, s') → s'.pictures = s.pictures ∧
      ∃ height width : ℕ, e = .tooLarge width height limit ∧ limit < (height * width : ℕ) := by
  intro fill
  refine ⟨fun q s' hexec => ?_, fun e s' hexec => ?_⟩
  · obtain ⟨-, hframed, hagain⟩ := settled_of_exec_frame hboxWidth hboxHeight hp hexec
    obtain ⟨hwidth, hheight, htight⟩ := hframed.settled
    exact ⟨hwidth, hheight, htight, hagain⟩
  · obtain ⟨-, height, width, rfl, hlimit, -, hpictures⟩ :=
      tooLarge_of_exec_frame hboxWidth hboxHeight hp hexec
    exact ⟨hpictures, height, width, rfl, hlimit⟩

attribute [local instance] Imaging.standard

/-- An image of two rows and three columns is enlarged until it covers a box of six columns. -/
theorem fill_covers_wide : (lone.picture 0).Moderate ∧ Framing.IsSide 6 ∧ Framing.IsSide 3 ∧
    ∃ s', exec ((backend 100).perform 0 (.frame .fill 6 3)) lone = (.ok 1, s') ∧
      (6 ≤ (s'.picture 1).width ∧ 3 ≤ (s'.picture 1).height) ∧
      ∃ s'', exec ((backend 100).perform 1 (.frame .fill 6 3)) s' = (.ok 1, s'') ∧
        s''.pictures = s'.pictures := by
  have hmoderate : (lone.picture 0).Moderate := ⟨by decide, by decide, by decide, by decide⟩
  have hwidth : Framing.IsSide 6 := ⟨by decide, by decide⟩
  have hheight : Framing.IsSide 3 := ⟨by decide, by decide⟩
  have hanswer : (exec ((backend 100).perform 0 (.frame .fill 6 3)) lone).1 = .ok 1 := by
    refine eq_ok_of_toOption ?_
    decide +kernel
  generalize hrun : exec ((backend 100).perform 0 (.frame .fill 6 3)) lone = run at hanswer
  obtain ⟨result, s'⟩ := run
  obtain rfl : result = .ok 1 := hanswer
  obtain ⟨hcovers_width, hcovers_height, -, hagain⟩ :=
    (fill_covers hmoderate hwidth hheight).1 1 s' hrun
  exact ⟨hmoderate, hwidth, hheight, s', rfl, ⟨hcovers_width, hcovers_height⟩, hagain⟩

end Montage.Studio
