import Montage.Proofs.Evaluation.Order
import Montage.Proofs.Evaluation.Values

/-!
# Drawing in a store

The studio draws on pictures in their places, while the operations of `Raster.values` leave all
pictures as they are. `Studio.Draws` relates the two: the answers agree, the picture that is
answered lies in a place that was free before, and the pictures of the places below are untouched.
The tree of an expression is drawn in the store as it is with values (`draws_node`), because an
argument is drawn before the picture that it is drawn on, and so lies below all places that change.
-/

namespace Montage

open Effect

namespace Studio

variable {s s' s'' : Studio} {m m' : Nat} {p q : Place} {r : Raster}

/-! ## Pictures that stay -/

/-- The places below a bound keep their pictures, and no picture is lost. -/
structure Keeps (m : Nat) (s s' : Studio) : Prop where
  /-- No place is given up. -/
  size : s.pictures.size ≤ s'.pictures.size
  /-- The places below the bound keep their pictures. -/
  picture : ∀ q < m, s'.picture q = s.picture q

theorem Keeps.refl (m : Nat) (s : Studio) : s.Keeps m s :=
  ⟨Nat.le_refl _, fun _ _ => rfl⟩

theorem Keeps.trans (h : s.Keeps m s') (h' : s'.Keeps m s'') : s.Keeps m s'' :=
  ⟨Nat.le_trans h.size h'.size, fun q hq => (h'.picture q hq).trans (h.picture q hq)⟩

/-- Fewer places are looked at. -/
theorem Keeps.mono (h : s.Keeps m s') (hm : m' ≤ m) : s.Keeps m' s' :=
  ⟨h.size, fun q hq => h.picture q (Nat.lt_of_lt_of_le hq hm)⟩

/-- Noting an event changes no picture. -/
theorem keeps_note (m : Nat) (s : Studio) (e : Event) : s.Keeps m (s.note e) :=
  ⟨Nat.le_refl _, fun _ _ => rfl⟩

/-- A new picture is put behind all others. -/
theorem keeps_add (hm : m ≤ s.pictures.size) (r : Raster) : s.Keeps m (s.add r).2 where
  size := by simp [add]
  picture q hq := by
    have hne : q ≠ s.pictures.size := by omega
    simp [add, picture, Array.getElem?_push, hne]

/-- The place of a new picture. -/
theorem picture_add (s : Studio) (r : Raster) : (s.add r).2.picture s.pictures.size = r := by
  simp [add, picture]

/-- Changing a picture leaves the places below it alone. -/
theorem keeps_replace (hm : m ≤ p) (r : Raster) : s.Keeps m (s.replace p r) where
  size := by simp [replace]
  picture q hq := by
    have hne : p ≠ q := Nat.ne_of_gt (Nat.lt_of_lt_of_le hq hm)
    simp [replace, picture, hne]

theorem picture_replace (hp : p < s.pictures.size) (r : Raster) :
    (s.replace p r).picture p = r := by
  simp [replace, picture, hp]

/-! ## Operations in the store and on values -/

/-- A picture is answered as a value is, in a place from a bound on. -/
inductive Holds {Error : Type} (m : Nat) (s : Studio) :
    Except Error Place → Except Error Raster → Prop where
  /-- The picture is the value. -/
  | ok {p : Place} (bound : m ≤ p) (inside : p < s.pictures.size) :
    Holds m s (.ok p) (.ok (s.picture p))
  /-- The fault is the same. -/
  | error (e : Error) : Holds m s (.error e) (.error e)

/-- An action of the store has the answer of an operation on values. Its picture lies in a place
from a bound on, and the pictures below the bound stay. -/
def Draws {Error : Type} (m : Nat) (s : Studio) (action : Effect Studio Error Place)
    (answer : Except Error Raster) : Prop :=
  ∃ result s', exec action s = (result, s') ∧ s.Keeps m s' ∧ s'.Holds m result answer

variable {Error : Type} {action : Effect Studio Error Place} {answer : Except Error Raster}

/-- One drawing after another. What is drawn first may lie higher. -/
theorem Draws.bind {f : Place → Effect Studio Error Place} {g : Raster → Except Error Raster}
    (h : Draws m s action answer) (hm : m' ≤ m)
    (hf : ∀ p s', m ≤ p → p < s'.pictures.size → s.Keeps m s' →
      Draws m' s' (f p) (g (s'.picture p))) :
    Draws m' s (action >>= f) (answer >>= g) := by
  obtain ⟨result, s', hexec, hkeeps, hholds⟩ := h
  cases hholds with
  | error e => exact ⟨.error e, s', by rw [exec_bind, hexec], hkeeps.mono hm, .error e⟩
  | ok bound inside =>
    obtain ⟨result, s'', hexec', hkeeps', hholds'⟩ := hf _ s' bound inside hkeeps
    exact ⟨result, s'', by rw [exec_bind, hexec, ← hexec'], (hkeeps.mono hm).trans hkeeps', hholds'⟩

/-- Drawing as a part of an evaluation. -/
theorem Draws.lift {action : Action Place} {answer : Except Raster.Fault Raster}
    (h : Draws m s action answer) :
    Draws m s (Backend.lift action) (answer.mapError .operation) := by
  obtain ⟨result, s', hexec, hkeeps, hholds⟩ := h
  refine ⟨result.mapError .operation, s', by rw [exec_lift, hexec], hkeeps, ?_⟩
  cases hholds with
  | ok bound inside => exact .ok bound inside
  | error e => exact .error _

/-- Noting that a drawing has ended. -/
theorem Draws.timed (h : Draws m s action answer) (label : String) :
    Draws m s (timed label action) answer := by
  obtain ⟨result, s', hexec, hkeeps, hholds⟩ := h
  refine ⟨result, s'.note (.timed label), ?_, hkeeps.trans (keeps_note m _ _), ?_⟩
  · show ((exec action s).1, (exec action s).2.note (.timed label)) = _
    rw [hexec]
  · cases hholds with
    | ok bound inside => exact .ok bound inside
    | error e => exact .error e

/-- The answer does not depend on how the action is written. -/
theorem Draws.congr {action' : Effect Studio Error Place} (h : Draws m s action' answer)
    (heq : exec action s = exec action' s) : Draws m s action answer := by
  unfold Draws
  rw [heq]
  exact h

/-- A fault leaves the store as it is. -/
theorem Draws.of_error {e : Error} (h : exec action s = (.error e, s)) :
    Draws m s action (.error e) :=
  ⟨.error e, s, h, .refl m s, .error e⟩

/-- A picture that is answered where it is. -/
theorem Draws.of_place (h : exec action s = (.ok p, s')) (hkeeps : s.Keeps m s') (hm : m ≤ p)
    (hp : p < s'.pictures.size) (hr : s'.picture p = r) : Draws m s action (.ok r) :=
  ⟨.ok p, s', h, hkeeps, hr ▸ .ok hm hp⟩

/-- A new picture. -/
theorem Draws.of_add (h : exec action s = (.ok s.pictures.size, (s.add r).2))
    (hm : m ≤ s.pictures.size) : Draws m s action (.ok r) :=
  .of_place h (keeps_add hm r) hm (by simp [add]) (picture_add s r)

/-! ## The operations of the studio -/

/-- Looking at a picture first. -/
theorem Draws.look {f : Raster → Action Place} {answer : Except Raster.Fault Raster}
    (h : Draws m s (f (s.picture p)) answer) : Draws m s (Studio.look p >>= f) answer :=
  h.congr rfl

/-- Noting an event first. -/
theorem Draws.tell {action : Action Place} {answer : Except Raster.Fault Raster} {e : Event}
    (h : Draws m (s.note e) action answer) :
    Draws m s (Studio.tell e >>= fun _ => action) answer := by
  obtain ⟨result, s', hexec, hkeeps, hholds⟩ := h
  exact ⟨result, s', hexec, (keeps_note m s e).trans hkeeps, hholds⟩

/-- A calculation first. -/
theorem Draws.attempt {α : Type} {result : Except Raster.Fault α} {f : α → Action Place}
    {g : α → Except Raster.Fault Raster} (h : ∀ a, result = .ok a → Draws m s (f a) (g a)) :
    Draws m s (Studio.attempt result >>= f) (result >>= g) := by
  cases result with
  | error e => exact .of_error rfl
  | ok a => exact (h a rfl).congr rfl

/-- A copy is a new picture. -/
theorem draws_copy (s : Studio) (p : Place) :
    Draws s.pictures.size s (copy p) (.ok (s.picture p)) :=
  .of_add rfl (Nat.le_refl _)

/-- A picture that stays as it is, or else a new one. -/
theorem draws_settle (hm : m ≤ p) (hp : p < s.pictures.size) (made : Option Raster) :
    Draws m s (settle p made) (.ok (made.getD (s.picture p))) := by
  cases made with
  | none => exact .of_place rfl (.refl m s) hm hp rfl
  | some r => exact .of_add rfl (Nat.le_of_lt (Nat.lt_of_le_of_lt hm hp))

variable [Imaging]

/-- A picture is scaled as its raster is. -/
theorem draws_resize (limit : Int) (factor : Binary64) (hm : m ≤ p) (hp : p < s.pictures.size) :
    Draws m s (resize limit p factor)
      (((s.picture p).resize limit factor).map fun scaled => scaled.getD (s.picture p)) := by
  refine Draws.look (Draws.attempt fun scaled _ => ?_)
  cases scaled with
  | none => exact .of_place rfl (.refl m s) hm hp rfl
  | some r => exact .tell (.of_add rfl (Nat.le_of_lt (Nat.lt_of_le_of_lt hm hp)))

/-- A picture is brought to a box as its raster is. -/
theorem draws_frame (limit : Int) (how : Framing) (width height : Int) (hm : m ≤ p)
    (hp : p < s.pictures.size) :
    Draws m s (frame limit how width height p) ((s.picture p).framed limit how width height) := by
  refine Draws.look ?_
  unfold Raster.framed
  cases how.factor width height (s.picture p).width (s.picture p).height with
  | error e => exact .of_error rfl
  | ok factor => exact (draws_resize limit factor hm hp).timed _

/-- A picture is blurred as its raster is. -/
theorem draws_blur (limit strength : Int) (hm : m ≤ p) (hp : p < s.pictures.size) :
    Draws m s ((backend limit).blur strength p) ((s.picture p).blurred strength) :=
  Draws.timed (Draws.attempt fun _ _ => Draws.look (Draws.attempt fun soft _ =>
    draws_settle hm hp soft)) _

/-- A picture is drawn on another one as its raster is. -/
theorem draws_overlay (hm : m ≤ p) (hp : p < s.pictures.size) :
    Draws m s (overlay p q) ((s.picture p).covered (s.picture q)) := by
  refine Draws.look (Draws.look (Draws.attempt fun given _ => ?_))
  have hinside (r : Raster) : p < (s.replace p r).pictures.size := by
    simpa [replace] using hp
  by_cases hmeets : (s.picture p).meets (given.getD (s.picture q)) = true
  · simp only [hmeets, if_true]
    exact .of_place rfl (keeps_replace hm _) hm (hinside _) (picture_replace hp _)
  · simp only [hmeets]
    exact .tell (.of_place rfl (.refl m _) hm hp rfl)

/-! ## Trees -/

variable {images : Array Place}

omit [Imaging] in
/-- The images of the store are the same rasters later on. -/
theorem Keeps.map_picture (h : s.Keeps m s') (himages : ∀ p ∈ images, p < m) :
    images.map s'.picture = images.map s.picture :=
  Array.map_congr_left fun p hp => h.picture p (himages p hp)

/-- An image is fetched as its raster is. -/
theorem draws_fetch (limit index : Int) (s : Studio) (images : Array Place) :
    Draws s.pictures.size s ((backend limit).fetch images index)
      (value ((Raster.values limit).fetch (images.map s.picture) index)) := by
  unfold Backend.fetch
  rw [Array.size_map, Array.getElem?_map]
  split
  · cases images[index.toNat]? with
    | none => exact .of_error rfl
    | some p => exact (draws_copy s p).lift
  · exact .of_error rfl

/-- A tree is drawn in the store as it is with the rasters of the images, in a place that was
free. -/
theorem draws_node (limit : Int) (n : Node) (s : Studio)
    (himages : ∀ p ∈ images, p < s.pictures.size) :
    Draws s.pictures.size s (n.draw (backend limit) images)
      (value (n.draw (Raster.values limit) (images.map s.picture))) := by
  -- Along the tree, each part of which starts with the store that the one before it has left.
  induction n generalizing s with
  | image index => exact draws_fetch limit index s images
  | frame how source width height ih =>
    rw [Node.draw, Node.draw, value_bind]
    refine (ih s himages).bind (Nat.le_refl _) fun p s' hm hp _ => ?_
    rw [value_lift, Raster.value_frame]
    exact (draws_frame limit how width height hm hp).lift
  | blur source strength ih =>
    rw [Node.draw, Node.draw, value_bind]
    refine (ih s himages).bind (Nat.le_refl _) fun p s' hm hp _ => ?_
    rw [value_lift, Raster.value_blur]
    exact (draws_blur limit strength hm hp).lift
  | overlay source argument ih ih' =>
    simp only [Node.draw, value_bind]
    refine (ih' s himages).bind (Nat.le_refl _) fun q s₁ hq hqs hkeeps => ?_
    -- The source is drawn above the place of the argument, which therefore stays as it is.
    rw [← hkeeps.map_picture himages]
    have himages₁ : ∀ p ∈ images, p < s₁.pictures.size := fun p hp =>
      Nat.lt_of_lt_of_le (himages p hp) hkeeps.size
    refine (ih s₁ himages₁).bind hkeeps.size fun p s₂ hm hp hkeeps₁ => ?_
    rw [value_lift, Raster.value_overlay, ← hkeeps₁.picture q hqs]
    exact ((draws_overlay (Nat.le_trans hkeeps.size hm) hp).timed _).lift

end Studio

end Montage
