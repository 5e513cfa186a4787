import Montage.Proofs.Evaluation.Direct

/-!
# What a backend keeps, an evaluation keeps

Facts about all evaluations of a backend follow from facts about its four operations. A `Contract`
says what leads from the start of an evaluation to any later moment, and what is known of a picture
when it is answered. If each operation keeps to it, then so does the evaluation of any words,
whether it answers a picture or fails at any point (`Contract.evaluate`).
-/

namespace Montage

open Effect

namespace Effect

variable {State Error Result Result' : Type}

/-- A computation that starts in a state leaves one with a property, also when it fails, and what it
answers is related to that state. -/
def Meets (action : Effect State Error Result) (s : State) (Post : State → Prop)
    (Good : Result → State → Prop) : Prop :=
  ∀ answer s', exec action s = (answer, s') → Post s' ∧ ∀ a, answer = .ok a → Good a s'

variable {action : Effect State Error Result} {s : State} {Post Post' : State → Prop}
  {Good Good' : Result → State → Prop}

theorem Meets.imp (h : Meets action s Post Good) (hpost : ∀ s', Post s' → Post' s')
    (hgood : ∀ a s', Post s' → Good a s' → Good' a s') : Meets action s Post' Good' := by
  intro answer s' hexec
  obtain ⟨hp, hg⟩ := h answer s' hexec
  exact ⟨hpost s' hp, fun a ha => hgood a s' hp (hg a ha)⟩

theorem meets_pure {a : Result} (hpost : Post s) (hgood : Good a s) :
    Meets (pure a : Effect State Error Result) s Post Good := by
  intro answer s' hexec
  cases hexec
  refine ⟨hpost, fun a' ha => ?_⟩
  cases ha
  exact hgood

/-- One computation after another. -/
theorem Meets.bind {f : Result → Effect State Error Result'} {Last : Result' → State → Prop}
    (h : Meets action s Post Good)
    (hf : ∀ a s', Post s' → Good a s' → Meets (f a) s' Post Last) :
    Meets (action >>= f) s Post Last := by
  intro answer s' hexec
  cases answer with
  | ok r =>
    obtain ⟨a, s₁, hfirst, hsecond⟩ := exec_bind_eq_ok_iff.1 hexec
    obtain ⟨hpost, hgood⟩ := h _ _ hfirst
    exact hf a s₁ hpost (hgood a rfl) _ _ hsecond
  | error e =>
    rcases exec_bind_eq_error_iff.1 hexec with hfirst | ⟨a, s₁, hfirst, hsecond⟩
    · exact ⟨(h _ _ hfirst).1, nofun⟩
    · obtain ⟨hpost, hgood⟩ := h _ _ hfirst
      exact hf a s₁ hpost (hgood a rfl) _ _ hsecond

theorem Meets.lift (h : Meets action s Post Good) : Meets (Backend.lift action) s Post Good := by
  intro answer s' hexec
  cases answer with
  | ok r => exact ⟨(h _ _ (exec_lift_eq_ok_iff.1 hexec)).1, fun a ha => (h _ _
      (exec_lift_eq_ok_iff.1 hexec)).2 a (by cases ha; rfl)⟩
  | error e =>
    obtain ⟨error, -, herror⟩ := exists_of_exec_lift_eq_error hexec
    exact ⟨(h _ _ herror).1, nofun⟩

theorem meets_reject {fault : WordFault} {Good : Result → State → Prop} (hpost : Post s) :
    Meets (Backend.reject fault : Effect State (EvalFault Error) Result) s Post Good := by
  intro answer s' hexec
  cases hexec
  exact ⟨hpost, nofun⟩

end Effect

namespace Backend

variable {State Error Picture : Type}

/-- What the operations of a backend keep in an evaluation. It may start in some states, leads from
its start to later states, and has answered a picture in the last one of them. -/
structure Contract (b : Backend State Error Picture) (images : Array Picture)
    (Ready : State → Prop) (Leads : State → State → Prop)
    (Answers : State → Picture → State → Prop) : Prop where
  /-- Every state leads to itself. -/
  refl : ∀ s, Leads s s
  /-- What a later state leads to is led to. -/
  trans : ∀ {s s₁ s₂}, Leads s s₁ → Leads s₁ s₂ → Leads s s₂
  /-- An evaluation may start in a later state too. -/
  ready : ∀ {s s₁}, Ready s → Leads s s₁ → Ready s₁
  /-- An image is copied. -/
  copy : ∀ {s image}, Ready s → image ∈ images →
    Meets (b.copy image) s (Leads s) (Answers s)
  /-- A picture that has been answered is brought to a box. -/
  frame : ∀ {s s₁ p} how width height, Ready s → Leads s s₁ → Answers s p s₁ →
    Meets (b.frame how width height p) s₁ (Leads s) (Answers s)
  /-- A picture that has been answered is blurred. -/
  blur : ∀ {s s₁ p} strength, Ready s → Leads s s₁ → Answers s p s₁ →
    Meets (b.blur strength p) s₁ (Leads s) (Answers s)
  /-- A picture that has been answered first is drawn on one that has been answered after it. -/
  overlay : ∀ {s s₁ s₂ p q}, Ready s → Leads s s₁ → Answers s q s₁ → Leads s₁ s₂ →
    Answers s₁ p s₂ → Meets (b.overlay p q) s₂ (Leads s) (Answers s)

namespace Contract

variable {b : Backend State Error Picture} {images : Array Picture} {Ready : State → Prop}
  {Leads : State → State → Prop} {Answers : State → Picture → State → Prop} {s : State}

theorem fetch (h : Contract b images Ready Leads Answers) (hready : Ready s) (index : Int) :
    Meets (b.fetch images index) s (Leads s) (Answers s) := by
  unfold Backend.fetch
  split
  · split
    · rename_i image himage
      exact (h.copy hready (Array.mem_of_getElem? himage)).lift
    · exact meets_reject (h.refl s)
  · exact meets_reject (h.refl s)

/-- The plain recursion keeps to the contract of its operations. -/
theorem runDirect (h : Contract b images Ready Leads Answers) (hready : Ready s) (n : Nat)
    (words : List Int) :
    Meets (b.runDirect images n words) s (Leads s) fun answer => Answers s answer.1 := by
  induction n generalizing s words with
  | zero => exact meets_reject (h.refl s)
  | succ n ih =>
    rw [Backend.runDirect, directly]
    cases Words.nextItem words with
    | error e => exact meets_reject (h.refl s)
    | ok pair =>
      obtain ⟨item, rest⟩ := pair
      cases item with
      | image index =>
        exact (h.fetch hready index).bind fun p s₁ hleads hp => meets_pure hleads hp
      | frame how width height =>
        refine (ih hready rest).bind fun below s₁ hleads hp => ?_
        exact (h.frame how width height hready hleads hp).lift.bind fun q s₂ hleads' hq =>
          meets_pure hleads' hq
      | blur strength =>
        refine (ih hready rest).bind fun below s₁ hleads hp => ?_
        exact (h.blur strength hready hleads hp).lift.bind fun q s₂ hleads' hq =>
          meets_pure hleads' hq
      | overlay =>
        refine (ih hready rest).bind fun above s₁ hleads hq => ?_
        -- The source starts where the argument has ended.
        have hsource : Meets (b.runDirect images n above.2) s₁ (Leads s)
            fun answer s₂ => Leads s₁ s₂ ∧ Answers s₁ answer.1 s₂ :=
          (ih (h.ready hready hleads) above.2).imp (fun s₂ => h.trans hleads)
            fun answer s₂ hleads' hp => ⟨hleads', hp⟩
        refine hsource.bind fun below s₂ _ hbelow => ?_
        obtain ⟨hleads', hp⟩ := hbelow
        exact (h.overlay hready hleads hq hleads' hp).lift.bind fun r s₃ hleads'' hr =>
          meets_pure hleads'' hr

/-- An evaluation keeps to the contract of the operations. -/
theorem evaluate (h : Contract b images Ready Leads Answers) (hready : Ready s)
    (words : List Int) : Meets (b.evaluate images words) s (Leads s) (Answers s) := by
  rw [evaluate_eq_evaluateDirect, evaluateDirect]
  split
  · exact meets_reject (h.refl s)
  · have hdirect : Meets (b.directAt images words words.length) s (Leads s)
        fun answer => Answers s answer.2 :=
      (h.runDirect hready _ _).bind fun drawn s₁ hleads hp => meets_pure hleads hp
    refine hdirect.bind fun drawn s₁ hleads hp => ?_
    simp only
    split
    · exact meets_pure hleads hp
    · exact meets_reject hleads

end Contract

end Backend

end Montage
