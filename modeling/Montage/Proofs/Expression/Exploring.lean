import Montage.Expression.Chain
import Montage.Proofs.Expression.Reads

/-!
# How far a rule looks

Whatever a rule does, it looks at the text only up to the farthest place at which some rule failed,
or up to its own place. `Rule.Explores` says two things about a rule that does not stop, for the
texts that the rule stands for. The text up to the farthest place is the start of one of these texts
(`Explored`), so that the place is not too far. And the rule does the same on any reading that is
the same up to some place beyond it (`Reading.SameUpTo`), so that the place is far enough: nothing
that comes later can have mattered. The lemmas here carry both through the combinators; nothing is
said of the words, except that they do not depend on what lies beyond the farthest place either.
-/

namespace Montage

/-- A text that some text of a language starts with. -/
def Starts (P : List Char → Prop) (front : List Char) : Prop :=
  ∃ more, P (front ++ more)

/-- A rule has answered, and has not stopped. -/
def Outcome.Decided (outcome : Outcome) : Prop :=
  outcome = .matched ∨ outcome = .failed

theorem Outcome.not_decided_stopped (fault : Fault) : ¬ Outcome.Decided (.stopped fault) := by
  rintro (h | h) <;> cases h

/-- What a rule that has stopped has answered. -/
theorem Outcome.not_decided_of_eq {fault : Fault} {s s' : Reading} {outcome : Outcome}
    (h : (Outcome.stopped fault, s) = (outcome, s')) : ¬ outcome.Decided := by
  obtain ⟨rfl, -⟩ := Prod.mk.inj h
  exact not_decided_stopped fault

/-- What is known of the reading `s'` that a rule for a language has left, which started at `s`. -/
structure Explored (P : List Char → Prop) (s : Reading) (outcome : Outcome) (s' : Reading) :
    Prop where
  /-- The rule went over a text, which is one of the language if it matched. -/
  text : ∃ text, s.rest = text ++ s'.rest ∧ s'.position = s.position + text.length ∧
    (outcome = .matched → P text)
  /-- The farthest place does not move back. -/
  farthest : s.farthest ≤ s'.farthest
  /-- A failure is noted. -/
  noted : outcome = .failed → s'.position ≤ s'.farthest
  /-- The text up to the farthest place could be continued, unless that place was reached before. -/
  viable : s'.farthest = s.farthest ∨ ∃ front, front <+: s.rest ∧ Starts P front ∧
    s'.farthest = s.position + front.length

/-- Two readings are the same, but for the text from some place on. -/
structure Reading.SameUpTo (n : Nat) (s q : Reading) : Prop where
  /-- The text is the same up to the place. -/
  rest : ∃ front tail tail', s.rest = front ++ tail ∧ q.rest = front ++ tail' ∧
    s.position + front.length = n
  /-- As many characters were read. -/
  position : q.position = s.position
  /-- The farthest place is the same. -/
  farthest : q.farthest = s.farthest
  /-- As many overlays are open. -/
  depth : q.depth = s.depth
  /-- The same was written. -/
  buffer : q.buffer = s.buffer

namespace Reading

variable {n : Nat} {s q s' q' : Reading}

theorem SameUpTo.noteFailure (h : s.SameUpTo n q) (offset : Nat) :
    (s.noteFailure offset).SameUpTo n (q.noteFailure offset) :=
  ⟨h.rest, h.position, congrArg (max · offset) h.farthest, h.depth, h.buffer⟩

/-- The same characters are read on both sides. -/
theorem SameUpTo.advance (h : s.SameUpTo n q) {k : Nat} (hk : s.position + k ≤ n) :
    (s.advance k).SameUpTo n (q.advance k) := by
  obtain ⟨front, tail, tail', hs, hq, hn⟩ := h.rest
  refine ⟨⟨front.drop k, tail, tail', ?_, ?_, ?_⟩, congrArg (· + k) h.position, h.farthest, h.depth,
    h.buffer⟩
  · rw [Reading.advance, hs, List.drop_append_of_le_length (by omega)]
  · rw [Reading.advance, hq, List.drop_append_of_le_length (by omega)]
  · rw [List.length_drop, Reading.advance]
    show s.position + k + (front.length - k) = n
    omega

theorem SameUpTo.withBuffer (h : s.SameUpTo n q) (b : Buffer) :
    Reading.SameUpTo n { s with buffer := b } { q with buffer := b } :=
  ⟨h.rest, h.position, h.farthest, h.depth, rfl⟩

theorem SameUpTo.withDepth (h : s.SameUpTo n q) (f : Nat → Nat) :
    Reading.SameUpTo n { s with depth := f s.depth } { q with depth := f q.depth } :=
  ⟨h.rest, h.position, h.farthest, congrArg f h.depth, h.buffer⟩

end Reading

namespace Rule

/-- A rule for a language, wherever it starts: what it leaves unless it stops, and that it does the
same on a text that differs only beyond the farthest place. -/
structure Explores (P : List Char → Prop) (r : Rule) : Prop where
  /-- There are texts that the rule stands for. -/
  inhabited : ∃ text, P text
  /-- What the rule leaves. -/
  explored : ∀ {s s' : Reading} {outcome : Outcome}, r s = (outcome, s') → outcome.Decided →
    Explored P s outcome s'
  /-- What the rule does elsewhere. -/
  elsewhere : ∀ {s s' q : Reading} {outcome : Outcome} {n : Nat}, r s = (outcome, s') →
    outcome.Decided → s'.farthest < n → s'.position < n → s.SameUpTo n q →
    ∃ q', r q = (outcome, q') ∧ s'.SameUpTo n q'

/-- A rule that goes back to its place where it fails. -/
def Returns (r : Rule) : Prop :=
  ∀ ⦃s s' : Reading⦄, r s = (.failed, s') → s'.rest = s.rest ∧ s'.position = s.position

/-- A rule that never fails and only writes, by what the buffer holds. -/
def Writes (r : Rule) : Prop :=
  ∀ ⦃s s' : Reading⦄ ⦃outcome : Outcome⦄, r s = (outcome, s') → outcome.Decided →
    outcome = .matched ∧ ∃ b, s' = { s with buffer := b } ∧
      ∀ q : Reading, q.buffer = s.buffer → r q = (.matched, { q with buffer := b })

end Rule

namespace Explored

variable {P Q T : List Char → Prop} {s s₁ s' : Reading} {outcome : Outcome} {text : List Char}

/-- Nothing has happened. -/
theorem refl (hP : P []) (s : Reading) : Explored P s .matched s :=
  ⟨⟨[], rfl, rfl, fun _ => hP⟩, Nat.le_refl _, nofun, .inl rfl⟩

/-- A text was read. -/
theorem of_advance {rest : List Char} (hrest : s.rest = text ++ rest) (hP : P text) :
    Explored P s .matched (s.advance text.length) where
  text := ⟨text, by simp [Reading.advance, hrest], rfl, fun _ => hP⟩
  farthest := Nat.le_refl _
  noted := nofun
  viable := .inl rfl

/-- The end of the start of a text was noted as a failure. -/
theorem of_noteFailure {front : List Char} (hfront : front <+: s.rest) (hstarts : Starts P front) :
    Explored P s .failed (s.noteFailure (s.position + front.length)) where
  text := ⟨[], rfl, rfl, nofun⟩
  farthest := Nat.le_max_left _ _
  noted _ := Nat.le_trans (Nat.le_add_right _ _) (Nat.le_max_right _ _)
  viable := by
    rcases Nat.le_total s.farthest (s.position + front.length) with hle | hle
    · exact .inr ⟨front, hfront, hstarts, Nat.max_eq_right hle⟩
    · exact .inl (Nat.max_eq_left hle)

/-- Words, and the overlays that are open, do not matter. -/
theorem congr {q q' : Reading} (h : Explored P s outcome s') (hs : q.rest = s.rest)
    (hposition : q.position = s.position) (hfarthest : q.farthest = s.farthest)
    (hs' : q'.rest = s'.rest) (hposition' : q'.position = s'.position)
    (hfarthest' : q'.farthest = s'.farthest) : Explored P q outcome q' := by
  obtain ⟨htext, hle, hnoted, hviable⟩ := h
  refine ⟨?_, ?_, ?_, ?_⟩
  · rwa [hs, hs', hposition, hposition']
  · rwa [hfarthest, hfarthest']
  · rwa [hposition', hfarthest']
  · rwa [hs, hposition, hfarthest, hfarthest']

/-- The place does not move back. -/
theorem position_le (h : Explored P s outcome s') : s.position ≤ s'.position := by
  obtain ⟨text, -, hposition, -⟩ := h.text
  omega

/-- One text after another. The second rule has answered. -/
theorem trans (h : Explored P s .matched s₁) (h' : Explored Q s₁ outcome s')
    (hinhabited : ∃ text, Q text) (hT : ∀ {a b}, P a → Q b → T (a ++ b)) :
    Explored T s outcome s' := by
  obtain ⟨text, hrest, hposition, hP⟩ := h.text
  obtain ⟨text', hrest', hposition', hQ⟩ := h'.text
  refine ⟨⟨text ++ text', ?_, ?_, fun hmatched => hT (hP rfl) (hQ hmatched)⟩,
    Nat.le_trans h.farthest h'.farthest, h'.noted, ?_⟩
  · rw [hrest, hrest', List.append_assoc]
  · rw [hposition', hposition, List.length_append, Nat.add_assoc]
  · rcases h'.viable with heq | ⟨front, hfront, ⟨more, hmore⟩, heq⟩
    · rcases h.viable with heq₁ | ⟨front, hfront, ⟨more, hmore⟩, heq₁⟩
      · exact .inl (heq.trans heq₁)
      · -- The second text can be anything of its language.
        obtain ⟨b, hb⟩ := hinhabited
        refine .inr ⟨front, hfront, ⟨more ++ b, ?_⟩, heq.trans heq₁⟩
        rw [← List.append_assoc]
        exact hT hmore hb
    · refine .inr ⟨text ++ front, ?_, ⟨more, ?_⟩, ?_⟩
      · rw [hrest]
        exact (List.prefix_append_right_inj text).2 hfront
      · rw [List.append_assoc]
        exact hT (hP rfl) hmore
      · rw [heq, hposition, List.length_append, Nat.add_assoc]

/-- A rule that has failed has not seen any text that is not the start of one of the language. -/
theorem of_failed (h : Explored P s .failed s') (hT : ∀ {front}, Starts P front → Starts T front) :
    Explored T s .failed s' := by
  obtain ⟨text, hrest, hposition, -⟩ := h.text
  refine ⟨⟨text, hrest, hposition, nofun⟩, h.farthest, h.noted, ?_⟩
  rcases h.viable with heq | ⟨front, hfront, hstarts, heq⟩
  · exact .inl heq
  · exact .inr ⟨front, hfront, hT hstarts, heq⟩

/-- Another rule for the language is tried at the place where a first one has failed. -/
theorem retry (h : Explored P s .failed s₁) (hrest : s₁.rest = s.rest)
    (hposition : s₁.position = s.position) (h' : Explored P s₁ outcome s') :
    Explored P s outcome s' := by
  obtain ⟨text, hrest', hposition', hP⟩ := h'.text
  refine ⟨⟨text, by rw [← hrest, hrest'], by rw [hposition', hposition], hP⟩,
    Nat.le_trans h.farthest h'.farthest, h'.noted, ?_⟩
  rcases h'.viable with heq | ⟨front, hfront, hstarts, heq⟩
  · rw [heq]
    exact h.viable
  · rw [hrest] at hfront
    rw [hposition] at heq
    exact .inr ⟨front, hfront, hstarts, heq⟩

/-- A larger language. -/
theorem mono (h : Explored P s outcome s') (hT : ∀ {text}, P text → T text) :
    Explored T s outcome s' := by
  obtain ⟨text, hrest, hposition, hP⟩ := h.text
  refine ⟨⟨text, hrest, hposition, hT ∘ hP⟩, h.farthest, h.noted, ?_⟩
  rcases h.viable with heq | ⟨front, hfront, ⟨more, hmore⟩, heq⟩
  · exact .inl heq
  · exact .inr ⟨front, hfront, ⟨more, hT hmore⟩, heq⟩

end Explored

namespace Rule

variable {P Q T : List Char → Prop} {r q : Rule} {s s' : Reading} {outcome : Outcome} {n : Nat}

/-! ## Rules that answer -/

/-- Where two rules one after another have answered, the first one has failed, or the second one
has answered after it. -/
theorem andThen_cases (h : andThen r q s = (outcome, s')) (hdecided : outcome.Decided) :
    outcome = .failed ∧ r s = (.failed, s') ∨
      ∃ s₁, r s = (.matched, s₁) ∧ q s₁ = (outcome, s') := by
  rcases hr : r s with ⟨first, s₁⟩
  cases first with
  | matched => exact .inr ⟨s₁, rfl, (andThen_of_matched hr).symm.trans h⟩
  | failed =>
    obtain ⟨rfl, rfl⟩ := Prod.mk.inj ((andThen_of_failed hr).symm.trans h)
    exact .inl ⟨rfl, rfl⟩
  | stopped fault =>
    exact absurd hdecided (Outcome.not_decided_of_eq ((andThen_of_stopped hr).symm.trans h))

/-- Where one of two rules has answered, the first one has matched, or the second one has answered
after it has failed. -/
theorem orElse_cases (h : orElse r q s = (outcome, s')) (hdecided : outcome.Decided) :
    outcome = .matched ∧ r s = (.matched, s') ∨
      ∃ s₁, r s = (.failed, s₁) ∧ q s₁ = (outcome, s') := by
  rcases hr : r s with ⟨first, s₁⟩
  cases first with
  | failed => exact .inr ⟨s₁, rfl, (orElse_of_failed hr).symm.trans h⟩
  | matched =>
    obtain ⟨rfl, rfl⟩ := Prod.mk.inj ((orElse_of_matched hr).symm.trans h)
    exact .inl ⟨rfl, rfl⟩
  | stopped fault =>
    exact absurd hdecided (Outcome.not_decided_of_eq ((orElse_of_stopped hr).symm.trans h))

/-- Where a loop has answered, its rule has failed at once, or the loop has gone on after a
match. -/
theorem upTo_cases (h : upTo r (n + 1) s = (outcome, s')) (hdecided : outcome.Decided) :
    outcome = .matched ∧ r s = (.failed, s') ∨
      ∃ s₁, r s = (.matched, s₁) ∧ upTo r n s₁ = (outcome, s') := by
  rcases hr : r s with ⟨first, s₁⟩
  cases first with
  | matched => exact .inr ⟨s₁, rfl, (upTo_of_matched hr).symm.trans h⟩
  | failed =>
    obtain ⟨rfl, rfl⟩ := Prod.mk.inj ((upTo_of_failed hr).symm.trans h)
    exact .inl ⟨rfl, rfl⟩
  | stopped fault =>
    exact absurd hdecided (Outcome.not_decided_of_eq ((upTo_of_stopped hr).symm.trans h))

/-- A transaction of a rule that has failed goes back, if the buffer can. -/
theorem transact_of_failed {s₁ : Reading} {b : Buffer} (hr : r s = (.failed, s₁))
    (hroll : s₁.buffer.rollback s.buffer.mark = .ok b) :
    transact r s =
      (.failed, { s₁ with rest := s.rest, position := s.position, buffer := b }) := by
  have hne : (r s).1 ≠ .matched := by
    rw [hr]
    nofun
  rw [transact_eq_of_not_matched hne, hr, rewind]
  simp only [hroll]

/-- Where a transaction has answered, its rule has matched, or it has failed and the buffer has gone
back. -/
theorem transact_cases (h : transact r s = (outcome, s')) (hdecided : outcome.Decided) :
    outcome = .matched ∧ r s = (.matched, s') ∨
      outcome = .failed ∧ ∃ s₁ b, r s = (.failed, s₁) ∧
        s₁.buffer.rollback s.buffer.mark = .ok b ∧
        s' = { s₁ with rest := s.rest, position := s.position, buffer := b } := by
  by_cases hmatched : (r s).1 = .matched
  · rw [transact_eq_of_matched hmatched] at h
    rw [h] at hmatched
    simp only at hmatched
    subst hmatched
    exact .inl ⟨rfl, h⟩
  · rw [transact_eq_of_not_matched hmatched] at h
    rcases hr : r s with ⟨first, s₁⟩
    rw [hr] at h hmatched
    cases hroll : s₁.buffer.rollback s.buffer.mark with
    | error fault =>
      simp only [rewind, hroll] at h
      exact absurd hdecided (Outcome.not_decided_of_eq h)
    | ok b =>
      simp only [rewind, hroll] at h
      obtain ⟨rfl, rfl⟩ := Prod.mk.inj h
      rcases hdecided with rfl | rfl
      · exact absurd rfl hmatched
      · exact .inr ⟨rfl, s₁, b, rfl, hroll, rfl⟩

/-- The place where a rule starts lies before every place that it stays before. -/
theorem explores_of_explored (hinhabited : ∃ text, P text)
    (hexplored : ∀ {s s' : Reading} {outcome : Outcome}, r s = (outcome, s') → outcome.Decided →
      Explored P s outcome s')
    (helsewhere : ∀ {s s' p : Reading} {outcome : Outcome} {n : Nat}, r s = (outcome, s') →
      outcome.Decided → s'.farthest < n → s'.position < n → s.position < n → s.SameUpTo n p →
      ∃ p', r p = (outcome, p') ∧ s'.SameUpTo n p') : r.Explores P where
  inhabited := hinhabited
  explored := hexplored
  elsewhere hr hdecided hfarthest hposition hsame :=
    helsewhere hr hdecided hfarthest hposition
      (Nat.lt_of_le_of_lt (hexplored hr hdecided).position_le hposition) hsame

/-! ## Rules that write -/

/-- Writing a word never fails. -/
theorem writes_emit (expression : String) (w : Word) : (emit expression w).Writes := by
  intro s s' outcome h hdecided
  cases hpush : s.buffer.push w with
  | ok b =>
    simp only [emit, hpush] at h
    obtain ⟨rfl, rfl⟩ := Prod.mk.inj h
    refine ⟨rfl, b, rfl, fun q hbuffer => ?_⟩
    simp only [emit, hbuffer, hpush]
  | error fault =>
    -- Whatever the fault is, the rule has stopped.
    cases fault <;> simp only [emit, hpush] at h <;>
      exact absurd hdecided (Outcome.not_decided_of_eq h)

/-- A rule that stops at once writes nothing. -/
theorem writes_stop (fault : Fault) : (stop fault).Writes := fun _ _ _ hr hdecided =>
  absurd hdecided (Outcome.not_decided_of_eq hr)

/-- A rule that matches at once writes nothing. -/
theorem writes_nothing : nothing.Writes := by
  intro s s' outcome hr _
  obtain ⟨rfl, rfl⟩ := Prod.mk.inj hr
  exact ⟨rfl, s.buffer, rfl, fun q hbuffer => by rw [← hbuffer]; rfl⟩

/-- A look at the buffer depends on what it holds. -/
theorem writes_get {index : Int} {next : Int → Rule} (h : ∀ w, (next w).Writes) :
    (get index next).Writes := by
  intro s s' outcome hr hdecided
  cases hget : s.buffer.get index with
  | error fault =>
    exact absurd hdecided (Outcome.not_decided_of_eq ((get_of_error hget).symm.trans hr))
  | ok w =>
    obtain ⟨hmatched, b, hs', hwrite⟩ := h w ((get_of_ok hget).symm.trans hr) hdecided
    exact ⟨hmatched, b, hs', fun q hbuffer =>
      (get_of_ok ((congrArg (Buffer.get · index) hbuffer).trans hget)).trans (hwrite q hbuffer)⟩

/-- Dropping words never fails. -/
theorem writes_rollback (mark : Nat) : (rollback mark).Writes := by
  intro s s' outcome hr hdecided
  cases hroll : s.buffer.rollback mark with
  | error fault =>
    exact absurd hdecided (Outcome.not_decided_of_eq ((rollback_of_error hroll).symm.trans hr))
  | ok b =>
    obtain ⟨rfl, rfl⟩ := Prod.mk.inj ((rollback_of_ok hroll).symm.trans hr)
    exact ⟨rfl, b, rfl, fun q hbuffer =>
      rollback_of_ok ((congrArg (Buffer.rollback · mark) hbuffer).trans hroll)⟩

theorem Writes.andThen (h : r.Writes) (h' : q.Writes) : (andThen r q).Writes := by
  intro s s' outcome hr hdecided
  obtain ⟨-, hfirst⟩ | ⟨s₁, hfirst, hsecond⟩ := andThen_cases hr hdecided
  · cases (h hfirst (.inr rfl)).1
  · obtain ⟨-, b, rfl, hr'⟩ := h hfirst (.inl rfl)
    obtain ⟨hmatched, b', rfl, hq'⟩ := h' hsecond hdecided
    refine ⟨hmatched, b', rfl, fun p hbuffer => ?_⟩
    rw [andThen_of_matched (hr' p hbuffer)]
    exact hq' { p with buffer := b } rfl

/-- A rule that writes reads nothing. -/
theorem Writes.explores (h : r.Writes) : r.Explores (· = []) where
  inhabited := ⟨[], rfl⟩
  explored := by
    intro s s' outcome hr hdecided
    obtain ⟨rfl, b, rfl, -⟩ := h hr hdecided
    have hnothing : Explored (· = []) s .matched s := .refl (P := (· = [])) rfl s
    exact hnothing.congr rfl rfl rfl rfl rfl rfl
  elsewhere := by
    intro s s' p outcome n hr hdecided _ _ hsame
    obtain ⟨rfl, b, rfl, hr'⟩ := h hr hdecided
    exact ⟨_, hr' p hsame.buffer, hsame.withBuffer b⟩

/-! ## Fixed texts -/

/-- What two texts have in common is not changed by what comes after it. -/
theorem commonLength_append {l front tail : List Char} (tail' : List Char)
    (h : commonLength l (front ++ tail) < front.length) :
    commonLength l (front ++ tail') = commonLength l (front ++ tail) := by
  induction l generalizing front with
  | nil => simp [commonLength]
  | cons c l ih =>
    cases front with
    | nil => simp at h
    | cons d front =>
      simp only [List.cons_append, commonLength] at h ⊢
      by_cases hcd : c = d
      · rw [if_pos hcd, List.length_cons] at h
        rw [if_pos hcd, if_pos hcd, ih (Nat.lt_of_add_lt_add_right h)]
      · rw [if_neg hcd, if_neg hcd]

/-- A fixed text notes how much of it has stood there. -/
theorem explores_literal (literalText : String) :
    (literal literalText).Explores (· = literalText.toList) where
  inhabited := ⟨_, rfl⟩
  explored := by
    intro s s' outcome h _
    obtain ⟨hle, -, htake⟩ := take_commonLength literalText.toList s.rest
    unfold literal at h
    simp only at h
    split at h
    · rename_i hcommon
      obtain ⟨rfl, rfl⟩ := Prod.mk.inj h
      rw [← String.length_toList] at hcommon
      rw [hcommon]
      obtain ⟨rest, hrest⟩ := commonLength_eq_length_iff.1 hcommon
      exact .of_advance hrest.symm rfl
    · obtain ⟨rfl, rfl⟩ := Prod.mk.inj h
      have hlength : (literalText.toList.take (commonLength literalText.toList s.rest)).length =
          commonLength literalText.toList s.rest := List.length_take_of_le hle
      rw [← hlength]
      refine .of_noteFailure ?_ ⟨_, List.take_append_drop _ _⟩
      rw [htake]
      exact List.take_prefix _ _
  elsewhere := by
    intro s s' p outcome n h _ hfarthest hposition hsame
    obtain ⟨front, tail, tail', hs, hp, hn⟩ := hsame.rest
    unfold literal at h ⊢
    simp only at h ⊢
    -- Both answers tell how long the common start is, and that it ends before the place.
    have hcommon : commonLength literalText.toList s.rest < front.length := by
      split at h
      · obtain ⟨-, rfl⟩ := Prod.mk.inj h
        have : s.position + commonLength literalText.toList s.rest < n := hposition
        omega
      · obtain ⟨-, rfl⟩ := Prod.mk.inj h
        have hmax : max s.farthest (s.position + commonLength literalText.toList s.rest) < n :=
          hfarthest
        omega
    have hsame_common :
        commonLength literalText.toList p.rest = commonLength literalText.toList s.rest := by
      rw [hs] at hcommon
      rw [hs, hp, commonLength_append tail' hcommon]
    rw [hsame_common]
    split at h
    · rename_i hwhole
      obtain ⟨rfl, rfl⟩ := Prod.mk.inj h
      rw [if_pos hwhole]
      exact ⟨_, rfl, hsame.advance (by omega)⟩
    · rename_i hwhole
      obtain ⟨rfl, rfl⟩ := Prod.mk.inj h
      rw [if_neg hwhole, hsame.position]
      exact ⟨_, rfl, hsame.noteFailure _⟩

/-! ## Digits -/

/-- The digits at the start of a text are the same where the text is the same up to beyond them. -/
theorem takeWhile_append_eq {p : Char → Bool} {front tail : List Char} (tail' : List Char)
    (h : ((front ++ tail).takeWhile p).length < front.length) :
    (front ++ tail').takeWhile p = (front ++ tail).takeWhile p := by
  rw [List.takeWhile_append] at h ⊢
  rw [List.takeWhile_append]
  split at h
  · rw [List.length_append] at h
    omega
  · rename_i hpart
    rw [if_neg hpart, if_neg hpart]

/-- Reading digits looks at them and at what comes next. -/
theorem explores_digits {next : List Char → Rule} (hnext : ∀ run, (next run).Writes) :
    (digits next).Explores fun text => ∃ number : Digits, text = number.run where
  inhabited := ⟨_, .single 0, rfl⟩
  explored := by
    intro s s' outcome h hdecided
    by_cases hrun : s.rest.takeWhile Char.isDigit = []
    · obtain ⟨rfl, rfl⟩ := Prod.mk.inj ((digits_of_nil hrun).symm.trans h)
      exact .of_noteFailure List.nil_prefix ⟨_, .single 0, rfl⟩
    · obtain ⟨rfl, b, rfl, -⟩ := hnext _ ((digits_of_ne_nil hrun rfl).symm.trans h) hdecided
      have hexplored : Explored (fun text => ∃ number : Digits, text = number.run) s .matched
          (s.advance (s.rest.takeWhile Char.isDigit).length) :=
        .of_advance List.takeWhile_append_dropWhile.symm (Digits.exists_of_takeWhile hrun)
      exact hexplored.congr rfl rfl rfl rfl rfl rfl
  elsewhere := by
    intro s s' p outcome n h hdecided hfarthest hposition hsame
    obtain ⟨front, tail, tail', hs, hp, hn⟩ := hsame.rest
    have htake (hshort : (s.rest.takeWhile Char.isDigit).length < front.length) :
        p.rest.takeWhile Char.isDigit = s.rest.takeWhile Char.isDigit := by
      rw [hs] at hshort
      rw [hs, hp, takeWhile_append_eq tail' hshort]
    -- A run of digits ends before the place, and so within the text that both have.
    by_cases hrun : s.rest.takeWhile Char.isDigit = []
    · obtain ⟨rfl, rfl⟩ := Prod.mk.inj ((digits_of_nil hrun).symm.trans h)
      have hplace : s.position < n := hposition
      have hrun' := (htake (by rw [hrun, List.length_nil]; omega)).trans hrun
      rw [digits_of_nil hrun', hsame.position]
      exact ⟨_, rfl, hsame.noteFailure _⟩
    · obtain ⟨rfl, b, rfl, hwrite⟩ := hnext _ ((digits_of_ne_nil hrun rfl).symm.trans h) hdecided
      have hplace : s.position + (s.rest.takeWhile Char.isDigit).length < n := hposition
      have hadvance : (s.advance (s.rest.takeWhile Char.isDigit).length).SameUpTo n _ :=
        hsame.advance (by omega)
      rw [digits_of_ne_nil hrun (htake (by omega))]
      exact ⟨_, hwrite _ hadvance.buffer, hadvance.withBuffer b⟩

/-- Reading a digit looks at one character. -/
theorem explores_digit {next : Int → Rule} (hnext : ∀ index, (next index).Writes) :
    (digit next).Explores fun text => ∃ c, text = [c] ∧ c.isDigit = true := by
  have hzero : ∃ c, ['0'] = [c] ∧ c.isDigit = true := ⟨'0', rfl, rfl⟩
  have hnone (s : Reading) : Explored (fun text => ∃ c, text = [c] ∧ c.isDigit = true) s .failed
      (s.noteFailure s.position) :=
    .of_noteFailure List.nil_prefix ⟨['0'], hzero⟩
  refine explores_of_explored ⟨_, hzero⟩ ?_ ?_
  · intro s s' outcome h hdecided
    cases hs : s.rest with
    | nil =>
      obtain ⟨rfl, rfl⟩ := Prod.mk.inj ((digit_of_not (by simp [hs])).symm.trans h)
      exact hnone s
    | cons c rest =>
      by_cases hdigit : c.isDigit = true
      · obtain ⟨rfl, b, rfl, -⟩ := hnext _ ((digit_of_isDigit hs hdigit).symm.trans h) hdecided
        have hrest : s.rest = [c] ++ rest := hs
        have hone : Explored (fun text => ∃ c, text = [c] ∧ c.isDigit = true) s .matched
            (s.advance 1) := .of_advance hrest ⟨c, rfl, hdigit⟩
        exact hone.congr rfl rfl rfl rfl rfl rfl
      · obtain ⟨rfl, rfl⟩ := Prod.mk.inj ((digit_of_not (by simp [hs, hdigit])).symm.trans h)
        exact hnone s
  · intro s s' p outcome n h hdecided _ _ hstart hsame
    obtain ⟨front, tail, tail', hs, hp, hn⟩ := hsame.rest
    cases front with
    | nil =>
      rw [List.length_nil] at hn
      omega
    | cons c front =>
      rw [List.cons_append] at hs hp
      by_cases hdigit : c.isDigit = true
      · have hadvance : (s.advance 1).SameUpTo n (p.advance 1) := by
          refine hsame.advance ?_
          rw [List.length_cons] at hn
          omega
        obtain ⟨rfl, b, rfl, hwrite⟩ :=
          hnext _ ((digit_of_isDigit hs hdigit).symm.trans h) hdecided
        rw [digit_of_isDigit hp hdigit]
        exact ⟨_, hwrite _ hadvance.buffer, hadvance.withBuffer b⟩
      · obtain ⟨rfl, rfl⟩ := Prod.mk.inj ((digit_of_not (by simp [hs, hdigit])).symm.trans h)
        rw [digit_of_not (by simp [hp, hdigit]), hsame.position]
        exact ⟨_, rfl, hsame.noteFailure _⟩

/-! ## Combinators -/

/-- A rule does the same elsewhere if what was explored after it stays before the place. -/
theorem Explores.elsewhere_before {first : Outcome} {s₁ p : Reading} (h : r.Explores P)
    (hr : r s = (first, s₁)) (hfirst : first.Decided) (hafter : Explored Q s₁ outcome s')
    (hfarthest : s'.farthest < n) (hposition : s'.position < n) (hsame : s.SameUpTo n p) :
    ∃ p₁, r p = (first, p₁) ∧ s₁.SameUpTo n p₁ :=
  h.elsewhere hr hfirst (Nat.lt_of_le_of_lt hafter.farthest hfarthest)
    (Nat.lt_of_le_of_lt hafter.position_le hposition) hsame

/-- One rule after another. -/
theorem Explores.andThen (h : r.Explores P) (h' : q.Explores Q)
    (hT : ∀ {a b}, P a → Q b → T (a ++ b)) : (andThen r q).Explores T where
  inhabited := by
    obtain ⟨a, ha⟩ := h.inhabited
    obtain ⟨b, hb⟩ := h'.inhabited
    exact ⟨a ++ b, hT ha hb⟩
  explored := by
    intro s s' outcome hr hdecided
    obtain ⟨rfl, hfirst⟩ | ⟨s₁, hfirst, hsecond⟩ := andThen_cases hr hdecided
    · refine (h.explored hfirst hdecided).of_failed ?_
      rintro front ⟨more, hmore⟩
      obtain ⟨b, hb⟩ := h'.inhabited
      refine ⟨more ++ b, ?_⟩
      rw [← List.append_assoc]
      exact hT hmore hb
    · exact (h.explored hfirst (.inl rfl)).trans (h'.explored hsecond hdecided) h'.inhabited hT
  elsewhere := by
    intro s s' p outcome n hr hdecided hfarthest hposition hsame
    obtain ⟨rfl, hfirst⟩ | ⟨s₁, hfirst, hsecond⟩ := andThen_cases hr hdecided
    · obtain ⟨p', hp', hsame'⟩ := h.elsewhere hfirst hdecided hfarthest hposition hsame
      exact ⟨p', andThen_of_failed hp', hsame'⟩
    · obtain ⟨p₁, hp₁, hsame₁⟩ := h.elsewhere_before hfirst (.inl rfl)
        (h'.explored hsecond hdecided) hfarthest hposition hsame
      obtain ⟨p', hp', hsame'⟩ := h'.elsewhere hsecond hdecided hfarthest hposition hsame₁
      exact ⟨p', (andThen_of_matched hp₁).trans hp', hsame'⟩

/-- A larger language. -/
theorem Explores.mono (h : r.Explores P) (hT : ∀ {text}, P text → T text) : r.Explores T where
  inhabited := by
    obtain ⟨text, htext⟩ := h.inhabited
    exact ⟨text, hT htext⟩
  explored hr hdecided := (h.explored hr hdecided).mono hT
  elsewhere := h.elsewhere

/-- One of two rules, the first of which goes back where it fails. -/
theorem Explores.orElse (h : r.Explores P) (hreturns : r.Returns) (h' : q.Explores P) :
    (orElse r q).Explores P where
  inhabited := h.inhabited
  explored := by
    intro s s' outcome hr hdecided
    obtain ⟨rfl, hfirst⟩ | ⟨s₁, hfirst, hsecond⟩ := orElse_cases hr hdecided
    · exact h.explored hfirst hdecided
    · obtain ⟨hrest, hposition⟩ := hreturns hfirst
      exact (h.explored hfirst (.inr rfl)).retry hrest hposition (h'.explored hsecond hdecided)
  elsewhere := by
    intro s s' p outcome n hr hdecided hfarthest hposition hsame
    obtain ⟨rfl, hfirst⟩ | ⟨s₁, hfirst, hsecond⟩ := orElse_cases hr hdecided
    · obtain ⟨p', hp', hsame'⟩ := h.elsewhere hfirst hdecided hfarthest hposition hsame
      exact ⟨p', orElse_of_matched hp', hsame'⟩
    · obtain ⟨p₁, hp₁, hsame₁⟩ := h.elsewhere_before hfirst (.inr rfl)
        (h'.explored hsecond hdecided) hfarthest hposition hsame
      obtain ⟨p', hp', hsame'⟩ := h'.elsewhere hsecond hdecided hfarthest hposition hsame₁
      exact ⟨p', (orElse_of_failed hp₁).trans hp', hsame'⟩

/-- A transaction goes back where it fails. -/
theorem returns_transact (r : Rule) : (transact r).Returns := by
  intro s s' h
  obtain ⟨habsurd, -⟩ | ⟨-, s₁, b, -, -, rfl⟩ := transact_cases h (.inr rfl)
  · cases habsurd
  · exact ⟨rfl, rfl⟩

/-- What is taken back was looked at nevertheless. -/
theorem Explores.transact (h : r.Explores P) : (transact r).Explores P where
  inhabited := h.inhabited
  explored := by
    intro s s' outcome hr hdecided
    obtain ⟨rfl, hmatched⟩ | ⟨rfl, s₁, b, hfailed, -, rfl⟩ := transact_cases hr hdecided
    · exact h.explored hmatched hdecided
    · have hexplored := h.explored hfailed hdecided
      refine ⟨⟨[], rfl, rfl, nofun⟩, hexplored.farthest, fun _ => ?_, hexplored.viable⟩
      exact Nat.le_trans hexplored.position_le (hexplored.noted rfl)
  elsewhere := by
    intro s s' p outcome n hr hdecided hfarthest hposition hsame
    obtain ⟨rfl, hmatched⟩ | ⟨rfl, s₁, b, hfailed, hroll, rfl⟩ := transact_cases hr hdecided
    · obtain ⟨p', hp', hsame'⟩ := h.elsewhere hmatched hdecided hfarthest hposition hsame
      refine ⟨p', ?_, hsame'⟩
      rw [transact_eq_of_matched (by rw [hp']), hp']
    · -- The place at which the rule has failed is not beyond the farthest one.
      have hnoted := (h.explored hfailed hdecided).noted rfl
      obtain ⟨p₁, hp₁, hsame₁⟩ :=
        h.elsewhere hfailed hdecided hfarthest (Nat.lt_of_le_of_lt hnoted hfarthest) hsame
      have hroll' : p₁.buffer.rollback p.buffer.mark = .ok b := by
        rw [hsame₁.buffer, hsame.buffer]
        exact hroll
      exact ⟨_, transact_of_failed hp₁ hroll',
        hsame.rest, hsame.position, hsame₁.farthest, hsame₁.depth, rfl⟩

/-- A rule with one more overlay open. -/
theorem Explores.nested (h : r.Explores P) : (nested r).Explores P where
  inhabited := h.inhabited
  explored := by
    intro s s' outcome hr hdecided
    rcases hinner : r { s with depth := s.depth + 1 } with ⟨first, s₁⟩
    obtain ⟨rfl, rfl⟩ := Prod.mk.inj ((nested_of_eq hinner).symm.trans hr)
    exact (h.explored hinner hdecided).congr rfl rfl rfl rfl rfl rfl
  elsewhere := by
    intro s s' p outcome n hr hdecided hfarthest hposition hsame
    rcases hinner : r { s with depth := s.depth + 1 } with ⟨first, s₁⟩
    obtain ⟨rfl, rfl⟩ := Prod.mk.inj ((nested_of_eq hinner).symm.trans hr)
    obtain ⟨p₁, hp₁, hsame₁⟩ :=
      h.elsewhere hinner hdecided hfarthest hposition (hsame.withDepth (· + 1))
    exact ⟨_, nested_of_eq hp₁, hsame₁.withDepth (· - 1)⟩

/-- A rule that always stops explores any language. -/
theorem explores_of_not_decided (hinhabited : ∃ text, P text) (h : ∀ s, ¬ (r s).1.Decided) :
    r.Explores P where
  inhabited := hinhabited
  explored := by
    intro s s' outcome hr hdecided
    have hnot := h s
    rw [hr] at hnot
    exact absurd hdecided hnot
  elsewhere := by
    intro s s' p outcome n hr hdecided
    have hnot := h s
    rw [hr] at hnot
    exact absurd hdecided hnot

/-- A rule that is chosen by something that two readings have in common. -/
theorem explores_of_choice {choice : Reading → Nat} {rule : Nat → Rule}
    (hchoice : ∀ {n s p}, s.SameUpTo n p → choice p = choice s) (h : ∀ k, (rule k).Explores P) :
    Explores P fun s => rule (choice s) s where
  inhabited := (h 0).inhabited
  explored hr hdecided := (h _).explored hr hdecided
  elsewhere := by
    intro s s' p outcome n hr hdecided hfarthest hposition hsame
    rw [hchoice hsame]
    exact (h _).elsewhere hr hdecided hfarthest hposition hsame

theorem explores_place {next : Nat → Rule} (h : ∀ start, (next start).Explores P) :
    (place next).Explores P :=
  explores_of_choice (fun hsame => hsame.position) h

theorem explores_depth {next : Nat → Rule} (h : ∀ depth, (next depth).Explores P) :
    (depth next).Explores P :=
  explores_of_choice (fun hsame => hsame.depth) h

theorem explores_mark {next : Nat → Rule} (h : ∀ mark, (next mark).Explores P) :
    (mark next).Explores P :=
  explores_of_choice (fun hsame => congrArg Buffer.mark hsame.buffer) h

/-! ## Loops -/

/-- A loop over a rule that reads something whenever it matches. The texts of the loop are those
that can be made from texts of the rule. -/
theorem explored_upTo (h : r.Explores P) (hreturns : r.Returns) (hT : T [])
    (hcons : ∀ {a b}, P a → T b → T (a ++ b)) (hr : upTo r n s = (outcome, s'))
    (hdecided : outcome.Decided) : Explored T s outcome s' := by
  -- On the turns of the loop.
  induction n generalizing s with
  | zero =>
    obtain ⟨rfl, rfl⟩ := Prod.mk.inj hr
    exact .refl hT s
  | succ n ih =>
    obtain ⟨rfl, hfailed⟩ | ⟨s₁, hmatched, hmore⟩ := upTo_cases hr hdecided
    · obtain ⟨hrest, hposition⟩ := hreturns hfailed
      have hexplored := (h.explored hfailed (.inr rfl)).of_failed (T := T) (by
        rintro front ⟨more, hmore⟩
        refine ⟨more, ?_⟩
        have htext := hcons hmore hT
        rwa [List.append_nil] at htext)
      exact ⟨⟨[], hrest.symm, hposition, fun _ => hT⟩, hexplored.farthest, nofun,
        hexplored.viable⟩
    · exact (h.explored hmatched (.inl rfl)).trans (ih hmore) ⟨[], hT⟩ hcons

/-- A loop does the same elsewhere, however often it may be repeated, as long as this is more often
than there are characters. -/
theorem upTo_elsewhere (h : r.Explores P) (hreturns : r.Returns) (hT : T [])
    (hcons : ∀ {a b}, P a → T b → T (a ++ b)) (hreads : ∀ {a}, P a → a ≠ []) {k m : Nat}
    {p : Reading} (hr : upTo r k s = (outcome, s')) (hdecided : outcome.Decided)
    (hk : s.rest.length < k) (hm : p.rest.length < m) (hfarthest : s'.farthest < n)
    (hposition : s'.position < n) (hsame : s.SameUpTo n p) :
    ∃ p', upTo r m p = (outcome, p') ∧ s'.SameUpTo n p' := by
  -- Each turn shortens the text, so neither loop is cut off by its number of turns.
  have hless {s s₁ : Reading} (hmatched : r s = (.matched, s₁)) :
      s₁.rest.length < s.rest.length := by
    obtain ⟨text, hrest, -, hP⟩ := (h.explored hmatched (.inl rfl)).text
    have hpos : 0 < text.length := List.length_pos_iff.2 (hreads (hP rfl))
    rw [hrest, List.length_append]
    omega
  induction k generalizing s p m with
  | zero => omega
  | succ k ih =>
    cases m with
    | zero => omega
    | succ m =>
      obtain ⟨rfl, hfailed⟩ | ⟨s₁, hmatched, hmore⟩ := upTo_cases hr hdecided
      · obtain ⟨p', hp', hsame'⟩ := h.elsewhere hfailed (.inr rfl) hfarthest hposition hsame
        exact ⟨p', upTo_of_failed hp', hsame'⟩
      · have hexplored := explored_upTo h hreturns hT hcons hmore hdecided
        obtain ⟨p₁, hp₁, hsame₁⟩ :=
          h.elsewhere_before hmatched (.inl rfl) hexplored hfarthest hposition hsame
        have hless₁ := hless hmatched
        have hless₁' := hless hp₁
        obtain ⟨p', hp', hsame'⟩ := ih (m := m) hmore (by omega) (by omega) hsame₁
        exact ⟨p', (upTo_of_matched hp₁).trans hp', hsame'⟩

/-- A rule over and over. -/
theorem Explores.many (h : r.Explores P) (hreturns : r.Returns) (hT : T [])
    (hcons : ∀ {a b}, P a → T b → T (a ++ b)) (hreads : ∀ {a}, P a → a ≠ []) :
    (many r).Explores T where
  inhabited := ⟨[], hT⟩
  explored hr hdecided := explored_upTo h hreturns hT hcons hr hdecided
  elsewhere hr hdecided hfarthest hposition hsame :=
    upTo_elsewhere h hreturns hT hcons hreads hr hdecided (Nat.lt_succ_self _) (Nat.lt_succ_self _)
      hfarthest hposition hsame

end Rule

end Montage
