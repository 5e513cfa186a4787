import Montage.Proofs.Evaluation.Direct

/-!
# Two runs side by side

Where two runs of a backend start in related states, and each of its four operations leads from
related states to related states and answers alike, two evaluations of the same words answer alike
too (`ActsAlike.evaluate`): both name the same picture or both have the same fault. What the
relation leaves open can then decide nothing.
-/

namespace Montage

open Effect

namespace Effect

variable {State State' Error Result Result' Last Last' : Type}

/-- Two answers are alike: they are related results, or the same fault. -/
inductive AnswersAlike (Q : Result → Result' → Prop) :
    Except Error Result → Except Error Result' → Prop where
  /-- Both are results. -/
  | ok {a : Result} {a' : Result'} (related : Q a a') : AnswersAlike Q (.ok a) (.ok a')
  /-- Both are the same fault. -/
  | error (e : Error) : AnswersAlike Q (.error e) (.error e)

section Answers

variable {Q : Result → Result' → Prop} {P : Last → Last' → Prop} {answer : Except Error Result}
  {answer' : Except Error Result'}

theorem answersAlike_self (answer : Except Error Result) : AnswersAlike Eq answer answer := by
  cases answer with
  | ok a => exact .ok rfl
  | error e => exact .error e

/-- Both go on from the same answer. -/
theorem AnswersAlike.bind_same {f : Result → Except Error Last} {f' : Result → Except Error Last'}
    (answer : Except Error Result) (hf : ∀ a, answer = .ok a → AnswersAlike P (f a) (f' a)) :
    AnswersAlike P (answer >>= f) (answer >>= f') := by
  cases answer with
  | ok a => exact hf a rfl
  | error e => exact .error e

theorem AnswersAlike.imp {Q' : Result → Result' → Prop} (h : AnswersAlike Q answer answer')
    (hQ : ∀ a a', Q a a' → Q' a a') : AnswersAlike Q' answer answer' := by
  cases h with
  | ok related => exact .ok (hQ _ _ related)
  | error e => exact .error e

end Answers

/-- Two computations answer alike from related states, and leave related states. -/
def RunsAlike (R : State → State' → Prop) (Q : Result → Result' → Prop)
    (action : Effect State Error Result) (action' : Effect State' Error Result') : Prop :=
  ∀ s s', R s s' →
    AnswersAlike Q (exec action s).1 (exec action' s').1 ∧ R (exec action s).2 (exec action' s').2

variable {R : State → State' → Prop} {Q : Result → Result' → Prop} {P : Last → Last' → Prop}
  {action : Effect State Error Result} {action' : Effect State' Error Result'}

theorem runsAlike_pure {a : Result} {a' : Result'} (h : Q a a') :
    RunsAlike R Q (pure a : Effect State Error Result) (pure a') :=
  fun _ _ hR => ⟨.ok h, hR⟩

/-- One computation after another. -/
theorem RunsAlike.bind {f : Result → Effect State Error Last}
    {f' : Result' → Effect State' Error Last'} (h : RunsAlike R Q action action')
    (hf : ∀ a a', Q a a' → RunsAlike R P (f a) (f' a')) :
    RunsAlike R P (action >>= f) (action' >>= f') := by
  intro s s' hR
  obtain ⟨hanswers, hstates⟩ := h s s' hR
  rw [exec_bind, exec_bind]
  generalize exec action s = run at hanswers hstates ⊢
  generalize exec action' s' = run' at hanswers hstates ⊢
  obtain ⟨answer, s₁⟩ := run
  obtain ⟨answer', s₁'⟩ := run'
  cases hanswers with
  | ok related => exact hf _ _ related _ _ hstates
  | error e => exact ⟨.error e, hstates⟩

/-- One computation after another, where the first one answers the same. -/
theorem RunsAlike.bind_eq {first : Effect State Error Result} {first' : Effect State' Error Result}
    {f : Result → Effect State Error Last} {f' : Result → Effect State' Error Last'}
    (h : RunsAlike R Eq first first') (hf : ∀ a, RunsAlike R P (f a) (f' a)) :
    RunsAlike R P (first >>= f) (first' >>= f') := by
  refine h.bind fun a a' ha => ?_
  subst ha
  exact hf a

theorem RunsAlike.lift (h : RunsAlike R Q action action') :
    RunsAlike R Q (Backend.lift action) (Backend.lift action') := by
  intro s s' hR
  obtain ⟨hanswers, hstates⟩ := h s s' hR
  rw [exec_lift, exec_lift]
  refine ⟨?_, hstates⟩
  generalize (exec action s).1 = answer at hanswers ⊢
  generalize (exec action' s').1 = answer' at hanswers ⊢
  cases hanswers with
  | ok related => exact .ok related
  | error e => exact .error _

theorem runsAlike_reject (fault : WordFault) :
    RunsAlike R Q (Backend.reject fault : Effect State (EvalFault Error) Result)
      (Backend.reject fault : Effect State' (EvalFault Error) Result') :=
  fun _ _ hR => ⟨.error _, hR⟩

end Effect

namespace Backend

variable {State Error Picture : Type}

/-- Each operation of a backend runs alike from related states. -/
structure ActsAlike (R : State → State → Prop) (b : Backend State Error Picture) : Prop where
  /-- A picture is copied. -/
  copy : ∀ p, RunsAlike R Eq (b.copy p) (b.copy p)
  /-- A picture is brought to a box. -/
  frame : ∀ how width height p,
    RunsAlike R Eq (b.frame how width height p) (b.frame how width height p)
  /-- A picture is blurred. -/
  blur : ∀ strength p, RunsAlike R Eq (b.blur strength p) (b.blur strength p)
  /-- A picture is drawn on another one. -/
  overlay : ∀ p q, RunsAlike R Eq (b.overlay p q) (b.overlay p q)

namespace ActsAlike

variable {R : State → State → Prop} {b : Backend State Error Picture}

theorem fetch (h : ActsAlike R b) (images : Array Picture) (index : Int) :
    RunsAlike R Eq (b.fetch images index) (b.fetch images index) := by
  unfold Backend.fetch
  split
  · cases images[index.toNat]? with
    | none => exact runsAlike_reject _
    | some image => exact (h.copy image).lift
  · exact runsAlike_reject _

/-- The plain recursion runs alike. -/
theorem runDirect (h : ActsAlike R b) (images : Array Picture) (n : Nat) (words : List Int) :
    RunsAlike R Eq (b.runDirect images n words) (b.runDirect images n words) := by
  induction n generalizing words with
  | zero => exact runsAlike_reject _
  | succ n ih =>
    rw [Backend.runDirect, directly]
    cases Words.nextItem words with
    | error e => exact runsAlike_reject _
    | ok pair =>
      obtain ⟨item, rest⟩ := pair
      cases item with
      | image index => exact (h.fetch images index).bind_eq fun p => runsAlike_pure rfl
      | frame how width height =>
        exact (ih rest).bind_eq fun below =>
          (h.frame how width height below.1).lift.bind_eq fun p => runsAlike_pure rfl
      | blur strength =>
        exact (ih rest).bind_eq fun below =>
          (h.blur strength below.1).lift.bind_eq fun p => runsAlike_pure rfl
      | overlay =>
        exact (ih rest).bind_eq fun above => (ih above.2).bind_eq fun below =>
          (h.overlay below.1 above.1).lift.bind_eq fun p => runsAlike_pure rfl

/-- Evaluations run alike. -/
theorem evaluate (h : ActsAlike R b) (images : Array Picture) (words : List Int) :
    RunsAlike R Eq (b.evaluate images words) (b.evaluate images words) := by
  rw [evaluate_eq_evaluateDirect, evaluateDirect]
  split
  · exact runsAlike_reject _
  · have hdirect : RunsAlike R Eq (b.directAt images words words.length)
        (b.directAt images words words.length) :=
      (h.runDirect images _ _).bind_eq fun drawn => runsAlike_pure rfl
    refine hdirect.bind_eq fun drawn => ?_
    simp only
    split
    · exact runsAlike_pure rfl
    · exact runsAlike_reject _

end ActsAlike

end Backend

end Montage
