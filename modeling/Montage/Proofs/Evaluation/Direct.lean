import Montage.Proofs.Evaluation.Order
import Montage.Proofs.Evaluation.Values
import Montage.Proofs.Expression.Malformed

/-!
# Running words directly

The evaluator collects the steps of a chain until its image is found, while the plain recursion of
`Backend.direct` evaluates what an operation is applied to and then acts. On all words, also on
those of no expression, and whatever the operations do, both do the same in the same order, and fail
with the same fault in the same state (`evaluate_refines_direct`). What the plain recursion answers
is the drawing of a tree whose words it has read (`exists_of_runDirect`).
-/

namespace Montage

namespace Effect

variable {State Error Result Result' : Type}

/-- A computation that fails in certain ways only. -/
def FailsWith (allowed : Error → Prop) (action : Effect State Error Result) : Prop :=
  ∀ s e s', exec action s = (.error e, s') → allowed e

theorem failsWith_pure (allowed : Error → Prop) (a : Result) :
    FailsWith allowed (pure a : Effect State Error Result) := by
  intro s e s' h
  cases h

/-- One computation after another, the second one on what the first one answers. -/
theorem FailsWith.bind_of_answer {allowed : Error → Prop} {action : Effect State Error Result}
    {f : Result → Effect State Error Result'} (h : FailsWith allowed action)
    (hf : ∀ a s s', exec action s = (.ok a, s') → FailsWith allowed (f a)) :
    FailsWith allowed (action >>= f) := by
  intro s e s' hexec
  rcases exec_bind_eq_error_iff.1 hexec with hfirst | ⟨a, s₁, hfirst, hsecond⟩
  · exact h s e s' hfirst
  · exact hf a s s₁ hfirst s₁ e s' hsecond

/-- One computation after another. -/
theorem FailsWith.bind {allowed : Error → Prop} {action : Effect State Error Result}
    {f : Result → Effect State Error Result'} (h : FailsWith allowed action)
    (hf : ∀ a, FailsWith allowed (f a)) : FailsWith allowed (action >>= f) :=
  h.bind_of_answer fun a _ _ _ => hf a

end Effect

namespace Backend

open Effect

variable {State Error Picture : Type} (b : Backend State Error Picture) (images : Array Picture)

section Rejected

variable {Result Result' : Type}

@[simp]
theorem reject_bind (fault : WordFault) (f : Result → Effect State (EvalFault Error) Result') :
    reject fault >>= f = reject fault := rfl

end Rejected

/-- Running words with steps pending is running them directly and then carrying the steps out. -/
theorem run_eq (n : Nat) (pending : List (Step Picture)) (words : List Int) :
    b.run images n pending words = (do
      let (picture, rest) ← b.runDirect images n words
      let picture ← b.finish pending picture
      return (picture, rest)) := by
  -- On the bound; the step that is read goes from the recursion to the pending ones.
  induction n generalizing pending words with
  | zero => rw [run, runDirect, reject_bind]
  | succ n ih =>
    rw [run, runDirect, directly]
    cases Words.nextItem words with
    | error e => rw [reject_bind]
    | ok pair =>
      obtain ⟨item, rest⟩ := pair
      cases item with
      | image index => simp only [finish, bind_assoc, pure_bind]
      | frame how width height =>
        simp only [ih, finish_cons, perform, bind_assoc, pure_bind]
      | blur strength =>
        simp only [ih, finish_cons, perform, bind_assoc, pure_bind]
      | overlay =>
        simp only [ih, finish_nil, finish_cons, perform, bind_assoc, pure_bind]

variable {b} {images} {n m : Nat} {words rest : List Int} {picture : Picture} {s s' : State}

/-! ## What is read -/

/-- Where the plain recursion answers a picture, it has read the words of a tree and drawn it. -/
theorem exists_of_runDirect (h : exec (b.runDirect images n words) s = (.ok (picture, rest), s')) :
    ∃ node : Node, words = node.encode.reverse ++ rest ∧
      exec (node.draw b images) s = (.ok picture, s') := by
  -- On the depth; the item that is read first is the operation at the top of the tree.
  induction n generalizing words picture rest s s' with
  | zero => cases h
  | succ n ih =>
    rw [runDirect, directly] at h
    cases hitem : Words.nextItem words with
    | error e =>
      rw [hitem] at h
      cases h
    | ok pair =>
      obtain ⟨item, left⟩ := pair
      simp only [hitem] at h
      obtain rfl := Words.nextItem_eq_ok_iff.1 hitem
      cases item with
      | image index =>
        obtain ⟨picture, s₁, hfetch, hpure⟩ := exec_bind_eq_ok_iff.1 h
        cases hpure
        exact ⟨.image index, by simp [Node.encode, Item.backward], hfetch⟩
      | frame how width height =>
        obtain ⟨⟨below, left'⟩, s₁, hsource, h⟩ := exec_bind_eq_ok_iff.1 h
        obtain ⟨picture, s₂, hframe, hpure⟩ := exec_bind_eq_ok_iff.1 h
        cases hpure
        obtain ⟨source, rfl, hdraw⟩ := ih hsource
        refine ⟨.frame how source width height, ?_, exec_bind_eq_ok_iff.2 ⟨_, _, hdraw, hframe⟩⟩
        rw [Node.reverse_encode_frame, List.append_assoc]
      | blur strength =>
        obtain ⟨⟨below, left'⟩, s₁, hsource, h⟩ := exec_bind_eq_ok_iff.1 h
        obtain ⟨picture, s₂, hblur, hpure⟩ := exec_bind_eq_ok_iff.1 h
        cases hpure
        obtain ⟨source, rfl, hdraw⟩ := ih hsource
        refine ⟨.blur source strength, ?_, exec_bind_eq_ok_iff.2 ⟨_, _, hdraw, hblur⟩⟩
        rw [Node.reverse_encode_blur, List.append_assoc]
      | overlay =>
        obtain ⟨⟨above, left'⟩, s₁, hargument, h⟩ := exec_bind_eq_ok_iff.1 h
        obtain ⟨⟨below, left''⟩, s₂, hsource, h⟩ := exec_bind_eq_ok_iff.1 h
        obtain ⟨picture, s₃, hoverlay, hpure⟩ := exec_bind_eq_ok_iff.1 h
        cases hpure
        obtain ⟨argument, rfl, hdraw⟩ := ih hargument
        obtain ⟨source, rfl, hdraw'⟩ := ih hsource
        refine ⟨.overlay source argument, ?_, exec_bind_eq_ok_iff.2 ⟨_, _, hdraw,
          exec_bind_eq_ok_iff.2 ⟨_, _, hdraw', hoverlay⟩⟩⟩
        rw [Node.reverse_encode_overlay, List.append_assoc, List.append_assoc]

/-- The words that the plain recursion leaves are fewer. -/
theorem length_lt_of_runDirect
    (h : exec (b.runDirect images n words) s = (.ok (picture, rest), s')) :
    rest.length < words.length := by
  obtain ⟨node, rfl, -⟩ := exists_of_runDirect h
  have := node.two_le_length_encode
  rw [List.length_append, List.length_reverse]
  omega

/-- The words behind an item are fewer. -/
theorem length_lt_of_nextItem {item : Item} (h : Words.nextItem words = .ok (item, rest)) :
    rest.length < words.length := by
  obtain rfl := Words.nextItem_eq_ok_iff.1 h
  have := item.length_backward_pos
  rw [List.length_append]
  omega

/-! ## The depth of the recursion -/

/-- One operation has only fewer words evaluated than it was given itself. -/
theorem directly_congr {f g : List Int → Effect State (EvalFault Error) (Picture × List Int)}
    (hlt : ∀ unread p left s s', exec (f unread) s = (.ok (p, left), s') →
      left.length < unread.length)
    (heq : ∀ unread, unread.length < words.length → f unread = g unread) :
    b.directly images f words = b.directly images g words := by
  unfold directly
  cases hitem : Words.nextItem words with
  | error e => rfl
  | ok pair =>
    obtain ⟨item, left⟩ := pair
    have hleft := length_lt_of_nextItem hitem
    cases item with
    | image index => rfl
    | frame how width height => simp only [heq left hleft]
    | blur strength => simp only [heq left hleft]
    | overlay =>
      simp only
      rw [← heq left hleft]
      refine bind_congr_of_answer fun ⟨argument, left'⟩ s s' hexec => ?_
      simp only
      rw [heq left' (Nat.lt_trans (hlt _ _ _ _ _ hexec) hleft)]

/-- A depth of as many operations as there are words is enough. -/
theorem runDirect_congr (hn : words.length ≤ n) (hm : words.length ≤ m) :
    b.runDirect images n words = b.runDirect images m words := by
  induction n generalizing m words with
  | zero =>
    obtain rfl : words = [] := List.eq_nil_of_length_eq_zero (by omega)
    cases m <;> rfl
  | succ n ih =>
    cases m with
    | zero =>
      obtain rfl : words = [] := List.eq_nil_of_length_eq_zero (by omega)
      rfl
    | succ m =>
      exact directly_congr (fun _ _ _ _ _ => length_lt_of_runDirect)
        fun unread h => ih (by omega) (by omega)

/-- The plain recursion does one operation, and evaluates what stands before it in the same way. -/
theorem direct_eq (words : List Int) :
    b.direct images words = b.directly images (b.direct images) words := by
  rw [direct, runDirect_congr (Nat.le_refl _) (Nat.le_succ _), runDirect]
  exact directly_congr (fun _ _ _ _ _ => length_lt_of_runDirect)
    fun unread h => runDirect_congr (Nat.le_of_lt h) (Nat.le_refl _)

/-! ## Faults -/

/-- A fault that is noticed while words are read: none are left over, and a word that is named is
one of them. -/
structure ReadFrom (words : List Int) (fault : Malformed) : Prop where
  /-- Words that are left over are noticed later. -/
  ne_leftOver : ∀ purpose count, fault ≠ .leftOver purpose count
  /-- The word that is named is there. -/
  named : ∀ word ∈ fault.named?, word ∈ words

theorem readFrom_pastStart (words : List Int) : ReadFrom words .pastStart :=
  ⟨nofun, nofun⟩

/-- A fault of reading is noticed while the words are read. -/
theorem exists_readFrom_of_nextItem {fault : WordFault} (h : Words.nextItem words = .error fault) :
    ∃ cause, ReadFrom words cause ∧ fault = cause.refusal := by
  rw [Words.nextItem_eq_readItem] at h
  rcases Words.readItem_eq_error h with ⟨rfl, -⟩ | ⟨word, rest, rfl, rfl, -⟩
  · exact ⟨.pastStart, readFrom_pastStart words, rfl⟩
  · refine ⟨.unknownTag word, ⟨nofun, fun named hnamed => ?_⟩, rfl⟩
    obtain rfl := Option.some.inj hnamed
    exact List.mem_cons_self

/-- The plain recursion fails as its operations do, or because of a fault that is noticed while the
words are read. -/
theorem failsWith_runDirect {allowed : EvalFault Error → Prop} {all : List Int}
    (hwords : ∀ fault, ReadFrom all fault → allowed (.words fault.refusal))
    (hcopy : ∀ p, FailsWith allowed (lift (b.copy p)))
    (hstep : ∀ p step, FailsWith allowed (lift (b.perform p step))) (n : Nat)
    (hsubset : words ⊆ all) : FailsWith allowed (b.runDirect images n words) := by
  have hreject {Result : Type} {fault : Malformed} (hfault : ReadFrom all fault) :
      FailsWith allowed (reject fault.refusal : Effect State (EvalFault Error) Result) := by
    intro s e s' h
    cases h
    exact hwords fault hfault
  have hleft {unread left : List Int} (node : Node) (hunread : unread ⊆ all)
      (heq : unread = node.encode.reverse ++ left) : left ⊆ all := fun word hword =>
    hunread (heq ▸ List.mem_append_right _ hword)
  induction n generalizing words with
  | zero => exact hreject (readFrom_pastStart all)
  | succ n ih =>
    rw [runDirect, directly]
    cases hitem : Words.nextItem words with
    | error fault =>
      obtain ⟨cause, hcause, rfl⟩ := exists_readFrom_of_nextItem hitem
      exact hreject ⟨hcause.ne_leftOver, fun word hword => hsubset (hcause.named word hword)⟩
    | ok pair =>
      obtain ⟨item, rest⟩ := pair
      obtain rfl := Words.nextItem_eq_ok_iff.1 hitem
      have hrest : rest ⊆ all := fun word hword => hsubset (List.mem_append_right _ hword)
      cases item with
      | image index =>
        have hnamed : ReadFrom all (.noImage index images.size) := by
          refine ⟨nofun, fun word hword => ?_⟩
          obtain rfl := Option.some.inj hword
          exact hsubset (by simp [Item.backward])
        have hfetch : FailsWith allowed (b.fetch images index) := by
          unfold fetch
          split
          · split
            · exact hcopy _
            · exact hreject hnamed
          · exact hreject hnamed
        exact hfetch.bind fun _ => failsWith_pure _ _
      | frame how width height =>
        exact (ih hrest).bind fun below =>
          (hstep below.1 (.frame how width height)).bind fun _ => failsWith_pure _ _
      | blur strength =>
        exact (ih hrest).bind fun below =>
          (hstep below.1 (.blur strength)).bind fun _ => failsWith_pure _ _
      | overlay =>
        refine (ih hrest).bind_of_answer fun above s s' hexec => ?_
        obtain ⟨node, heq, -⟩ := exists_of_runDirect hexec
        exact (ih (hleft node hrest heq)).bind fun below =>
          (hstep below.1 (.overlay above.1)).bind fun _ => failsWith_pure _ _

/-- Words that are left over are no fault of an operation, nor of the words that are read. -/
theorem directAt_ne_leftOver {purpose : Purpose} {count cursor : Nat} :
    exec (b.directAt images words cursor) s ≠
      (.error (.words (.malformed (.leftOver purpose count))), s') := by
  have hlift {Result : Type} (action : Effect State Error Result) :
      FailsWith (fun e => e ≠ .words (.malformed (.leftOver purpose count))) (lift action) := by
    intro s e s' h
    obtain ⟨error, rfl, -⟩ := exists_of_exec_lift_eq_error h
    nofun
  have hdirect : FailsWith (fun e => e ≠ .words (.malformed (.leftOver purpose count)))
      (b.directAt images words cursor) :=
    (failsWith_runDirect (fun fault hfault heq => hfault.ne_leftOver _ _
      (Malformed.refusal_eq_malformed_iff.1 (EvalFault.words.inj heq)).1)
      (fun _ => hlift _) (fun _ _ => hlift _) _ (List.Subset.refl _)).bind fun _ =>
        failsWith_pure _ _
  intro h
  exact hdirect s _ s' h rfl

/-! ## Evaluating -/

/-- The evaluator answers the cursor and the picture of the plain recursion. -/
theorem runAt_eq_directAt (words : List Int) (cursor : Nat) :
    b.runAt images words cursor = b.directAt images words cursor := by
  have hlength : (words.take cursor).reverse.length ≤ cursor := by
    rw [List.length_reverse]
    exact List.length_take_le _ _
  rw [runAt, run_eq, runDirect_congr hlength (Nat.le_refl _), directAt, direct]
  simp only [finish_nil, bind_assoc, pure_bind]

theorem evaluate_eq_evaluateDirect (words : List Int) :
    b.evaluate images words = b.evaluateDirect images words := by
  rw [evaluate, evaluateDirect, runAt_eq_directAt]

/-- Words that are left over are reported where all else has succeeded, and nowhere else. -/
theorem evaluateDirect_eq_leftOver_iff {count : Nat} :
    exec (b.evaluateDirect images words) s =
        (.error (.words (.malformed (.leftOver .evaluating count))), s') ↔
      0 < count ∧
        ∃ picture, exec (b.directAt images words words.length) s = (.ok (count, picture), s') := by
  unfold evaluateDirect
  by_cases hnil : words = []
  · subst hnil
    rw [if_pos rfl]
    constructor
    · intro h
      cases h
    · rintro ⟨-, picture, h⟩
      cases h
  · rw [if_neg hnil, exec_bind_eq_error_iff]
    constructor
    · rintro (h | ⟨⟨start, picture⟩, s₁, h, hstart⟩)
      · exact absurd h directAt_ne_leftOver
      · simp only at hstart
        by_cases hzero : start = 0
        · rw [if_pos hzero] at hstart
          cases hstart
        · rw [if_neg hzero] at hstart
          cases hstart
          exact ⟨Nat.pos_of_ne_zero hzero, picture, h⟩
    · rintro ⟨hpos, picture, h⟩
      refine .inr ⟨(count, picture), s', h, ?_⟩
      simp only
      rw [if_neg (Nat.pos_iff_ne_zero.1 hpos)]
      rfl

variable (b images)

/-- The evaluator refines the plain recursion. `direct` is that recursion: each operation has what
it is applied to evaluated by `direct` itself, the argument of an overlay first, and then acts. From
any cursor of any words, whatever the operations do and in whichever of them they fail, the
evaluator answers the same cursor and picture or fails with the same fault, in the same state. So
does the evaluation of all words, which reports words that are left over only where everything else
has succeeded. -/
theorem evaluate_refines_direct (words : List Int) :
    (∀ unread, b.direct images unread = b.directly images (b.direct images) unread) ∧
      (∀ cursor, b.runAt images words cursor = b.directAt images words cursor) ∧
      b.evaluate images words = b.evaluateDirect images words ∧
      ∀ s s' count, exec (b.evaluate images words) s =
          (.error (.words (.malformed (.leftOver .evaluating count))), s') ↔
        0 < count ∧ ∃ picture,
          exec (b.directAt images words words.length) s = (.ok (count, picture), s') := by
  refine ⟨direct_eq, runAt_eq_directAt words, evaluate_eq_evaluateDirect words,
    fun s s' count => ?_⟩
  rw [evaluate_eq_evaluateDirect]
  exact evaluateDirect_eq_leftOver_iff

end Backend

end Montage
