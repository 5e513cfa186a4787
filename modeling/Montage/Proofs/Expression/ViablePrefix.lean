import Montage.Proofs.Expression.Behind
import Montage.Proofs.Expression.Exploring
import Montage.Proofs.Expression.Language
import Montage.Proofs.Expression.Refusal

/-!
# Where an illegal expression is refused

A text that is no expression, and that breaks no limit, is refused at the end of its longest viable
prefix: of its longest start that some expression starts with. The farthest place that the grammar
has reached is not beyond that end, since all rules explore the texts of their nonterminals
(`explores_expression`). And it is not before it: on an expression with that start the grammar would
do the same as on the text, but an expression is read as a whole.
-/

namespace Montage

/-- A text that some expression starts with. -/
def Viable (text : List Char) : Prop :=
  ∃ more, Derives .expression (text ++ more)

/-- The length of the longest viable prefix of a text. -/
structure LongestViable (text : List Char) (n : Nat) : Prop where
  /-- The text is long enough. -/
  le_length : n ≤ text.length
  /-- The prefix is viable. -/
  viable : Viable (text.take n)
  /-- No longer prefix is. -/
  longest : ∀ m, n < m → m ≤ text.length → ¬ Viable (text.take m)

namespace Grammar

open Rule

variable {t : Task}

/-! ## Rules that write -/

theorem writes_writeNumber (start : Nat) (run : List Char) : (writeNumber t start run).Writes := by
  obtain ⟨fault, hstopped⟩ | ⟨w, hemit⟩ := writeNumber_cases t start run
  · rw [hstopped]
    exact writes_stop fault
  · rw [hemit]
    exact writes_emit _ w

theorem writes_writeImage (index : Int) : (writeImage t index).Writes :=
  (writes_emit _ _).andThen (writes_emit _ _)

theorem writes_checkedImage (start : Nat) (index : Int) : (checkedImage t start index).Writes := by
  obtain ⟨fault, hstopped⟩ | hwrite := checkedImage_cases Rule.blocks t start index
  · rw [checkedImage, hstopped]
    exact writes_stop fault
  · rw [checkedImage, hwrite]
    exact writes_writeImage index

/-- Dropping the words of a chain looks at the buffer only. -/
theorem writes_dropDeadChain (mark : Nat) : (dropDeadChain t mark).Writes := by
  refine writes_get fun last => ?_
  split
  · exact writes_get fun index => (writes_rollback mark).andThen (writes_writeImage index)
  · exact writes_nothing

/-! ## Rules without recursion -/

/-- A number looks at its digits and at what comes next. -/
theorem explores_number : (number t).Explores (Derives .number) := by
  show (transact (place fun start => digits (writeNumber t start))).Explores _
  refine Explores.transact (explores_place fun start => ?_)
  refine (explores_digits fun run => writes_writeNumber start run).mono ?_
  rintro _ ⟨number, rfl⟩
  exact derives_number number

/-- An image reference looks at one character. -/
theorem explores_imageRef : (imageRef t).Explores (Derives .imageRef) := by
  show (transact (place fun start => digit (checkedImage t start))).Explores _
  refine Explores.transact (explores_place fun start => ?_)
  refine (explores_digit fun index => writes_checkedImage start index).mono ?_
  rintro _ ⟨c, rfl, hdigit⟩
  exact .imageRef (derives_digit hdigit)

/-- A width and a height. -/
theorem explores_size : (size t).Explores (Derives .size) := by
  have hheight : (andThen (literal "x") (number t)).Explores
      (fun text => ∃ height, text = "x".toList ++ height ∧ Derives .number height) := by
    refine (explores_literal "x").andThen explores_number ?_
    rintro _ height rfl hheight
    exact ⟨height, rfl, hheight⟩
  refine Explores.transact (explores_number.andThen hheight ?_)
  rintro width _ hwidth ⟨height, rfl, hheight⟩
  rw [← List.append_assoc]
  exact .size hwidth hheight

/-! ## Steps -/

/-- A step with brackets, for the language of its argument. -/
theorem explores_call {tag : Tag} {argument : Rule} {P T : List Char → Prop}
    (h : argument.Explores P)
    (hT : ∀ {text}, P text → T ((tag.mnemonic ++ "(").toList ++ text ++ ")".toList)) :
    (transact (call t tag argument)).Explores T := by
  have hclose : (andThen (literal ")") (emit t.expression (.tag tag))).Explores
      (· = ")".toList) := by
    refine (explores_literal ")").andThen (writes_emit _ _).explores ?_
    rintro _ _ rfl rfl
    rfl
  have hargument :
      (andThen argument (andThen (literal ")") (emit t.expression (.tag tag)))).Explores
        (fun text => ∃ a, P a ∧ text = a ++ ")".toList) := by
    refine h.andThen hclose ?_
    rintro a _ ha rfl
    exact ⟨a, ha, rfl⟩
  refine Explores.transact ((explores_literal _).andThen hargument ?_)
  rintro _ _ rfl ⟨a, ha, rfl⟩
  rw [← List.append_assoc]
  exact hT ha

/-- A step, with the rule `inner` for the arguments of overlays. -/
theorem explores_stepOf {inner : Rule} (hinner : inner.Explores (Derives .expression)) :
    (stepOf t inner).Explores (Derives .step) := by
  have hfit : (fit t).Explores (Derives .step) :=
    explores_call explores_size fun h => .step_fit (.fit h)
  have hfill : (fill t).Explores (Derives .step) :=
    explores_call explores_size fun h => .step_fill (.fill h)
  have hoverlay : (overlayOf t inner).Explores (Derives .step) :=
    explores_call hinner fun h => .step_overlay (.overlay h)
  have hblur : (blur t).Explores (Derives .step) :=
    explores_call explores_number fun h => .step_blur (.blur h)
  have himage : (imageRef t).Explores (Derives .step) :=
    explores_imageRef.mono fun h => .step_imageRef h
  exact Explores.transact (hfit.orElse (returns_transact _) (hfill.orElse (returns_transact _)
    (hoverlay.orElse (returns_transact _) (hblur.orElse (returns_transact _) himage))))

/-- A dot and a step. -/
def Chained (text : List Char) : Prop :=
  ∃ step, text = ".".toList ++ step ∧ Derives .step step

theorem explores_chainedStepOf {inner : Rule} (hinner : inner.Explores (Derives .expression)) :
    (chainedStepOf t inner).Explores Chained := by
  refine Explores.transact ((explores_literal ".").andThen (explores_stepOf hinner) ?_)
  rintro _ step rfl hstep
  exact ⟨step, rfl, hstep⟩

/-! ## Chains -/

/-- What may follow an expression in an expression. -/
def Continues (text : List Char) : Prop :=
  ∀ before, Derives .expression before → Derives .expression (before ++ text)

/-- A chained step after which the words of a dead chain are dropped. -/
theorem explores_turn {inner : Rule} (hinner : inner.Explores (Derives .expression)) (mark : Nat) :
    (andThen (chainedStepOf t inner) (dropDeadChain t mark)).Explores Chained := by
  refine (explores_chainedStepOf hinner).andThen (writes_dropDeadChain mark).explores ?_
  rintro a _ ha rfl
  rwa [List.append_nil]

/-- A chained step goes back where it fails, since dropping words does not fail. -/
theorem returns_turn (inner : Rule) (mark : Nat) :
    (andThen (chainedStepOf t inner) (dropDeadChain t mark)).Returns := by
  intro s s' h
  obtain ⟨-, hfailed⟩ | ⟨s₁, -, hdrop⟩ := andThen_cases h (.inr rfl)
  · exact returns_transact _ hfailed
  · cases (writes_dropDeadChain mark hdrop (.inr rfl)).1

/-- The steps of a chain. -/
theorem explores_steps {inner : Rule} (hinner : inner.Explores (Derives .expression))
    (mark : Nat) :
    (many (andThen (chainedStepOf t inner) (dropDeadChain t mark))).Explores Continues := by
  refine (explores_turn hinner mark).many (returns_turn inner mark) ?_ ?_ ?_
  · intro before hbefore
    rwa [List.append_nil]
  · rintro _ b ⟨step, rfl, hstep⟩ hb before hbefore
    rw [← List.append_assoc, ← List.append_assoc]
    exact hb _ (.expression_step hbefore hstep)
  · rintro _ ⟨step, rfl, -⟩
    simp

/-- An expression, with the rule `inner` for the arguments of overlays. -/
theorem explores_expressionOf {inner : Rule} (hinner : inner.Explores (Derives .expression)) :
    (expressionOf t inner).Explores (Derives .expression) := by
  show (transact (mark (Rule.blocks.chainOf t inner))).Explores _
  refine Explores.transact (explores_mark fun mark => ?_)
  exact explores_imageRef.andThen (explores_steps hinner mark) fun ha hb =>
    hb _ (.expression_root ha)

/-- The argument of an overlay, however many overlays may still be opened. -/
theorem explores_nestedExpression (levels : Nat) :
    (nestedExpression t levels).Explores (Derives .expression) := by
  induction levels with
  | zero =>
    have hzero : Derives .expression ['0'] := derives_text (.root 0)
    exact explores_of_not_decided ⟨_, hzero⟩ fun s => Outcome.not_decided_stopped _
  | succ levels ih => exact (explores_expressionOf ih).nested

/-- The argument of an overlay. -/
theorem explores_argument : (argument t).Explores (Derives .expression) := by
  show (depth fun depth => nestedExpression t (t.limits.maxDepth - depth).toNat).Explores _
  exact explores_depth fun _ => explores_nestedExpression _

/-- The grammar explores the language of expressions. -/
theorem explores_expression : (expression t).Explores (Derives .expression) :=
  explores_expressionOf explores_argument

end Grammar

open Rule

variable {t : Task} {capacity : Int} {s : Reading}

/-! ## Compilations that end early -/

theorem viable_nil : Viable [] :=
  ⟨['0'], derives_text (.root 0)⟩

namespace Task.EndsEarly

/-- What the grammar has answered. -/
theorem exists_decided (h : t.EndsEarly capacity s) :
    ∃ outcome : Outcome, outcome.Decided ∧
      Grammar.expression t (Reading.fresh t capacity) = (outcome, s) ∧
      (outcome = .failed ∨ outcome = .matched ∧ s.rest ≠ []) := by
  obtain ⟨outcome, text, words, hrun, -, hpart⟩ := h
  refine ⟨outcome, ?_, hrun, hpart⟩
  rcases hpart with rfl | ⟨rfl, -⟩
  · exact .inr rfl
  · exact .inl rfl

/-- The farthest place is not too far. -/
theorem viable_take (h : t.EndsEarly capacity s) :
    Viable (t.expression.toList.take (max s.farthest s.position)) := by
  obtain ⟨outcome, hdecided, hrun, -⟩ := h.exists_decided
  have hexplored := Grammar.explores_expression.explored hrun hdecided
  by_cases hle : s.position ≤ s.farthest
  · rw [Nat.max_eq_left hle]
    rcases hexplored.viable with heq | ⟨front, hfront, hstarts, heq⟩
    · rw [heq]
      exact viable_nil
    · have hfront' : front <+: t.expression.toList := hfront
      have hlength : s.farthest = front.length := heq.trans (Nat.zero_add _)
      rw [hlength, ← List.prefix_iff_eq_take.1 hfront']
      exact hstarts
  · -- A failure would have been noted, so the grammar has matched a text up to its place.
    have hmatched : outcome = .matched := by
      rcases hdecided with rfl | rfl
      · rfl
      · exact absurd (hexplored.noted rfl) hle
    obtain ⟨text, hrest, hposition, hderives⟩ := hexplored.text
    have hrest' : t.expression.toList = text ++ s.rest := hrest
    have hlength : s.position = text.length := hposition.trans (Nat.zero_add _)
    rw [Nat.max_eq_right (Nat.le_of_not_le hle), hrest', hlength, List.take_left]
    refine ⟨[], ?_⟩
    rw [List.append_nil]
    exact hderives hmatched

/-- The farthest place is far enough: the grammar would end early on any text that is the same up to
beyond it. -/
theorem not_viable_take (h : t.EndsEarly capacity s) {m : Nat}
    (hm : max s.farthest s.position < m) (hle : m ≤ t.expression.toList.length) :
    ¬ Viable (t.expression.toList.take m) := by
  rintro ⟨more, hmore⟩
  obtain ⟨c, htext⟩ := derives_expression_iff.1 hmore
  obtain ⟨outcome, hdecided, hrun, hpart⟩ := h.exists_decided
  -- The expression instead of the text.
  let other : Reading := { Reading.fresh t capacity with rest := c.text }
  have hsame : (Reading.fresh t capacity).SameUpTo m other := by
    refine ⟨⟨t.expression.toList.take m, t.expression.toList.drop m, more,
      (List.take_append_drop _ _).symm, htext.symm, ?_⟩, rfl, rfl, rfl, rfl⟩
    rw [List.length_take_of_le hle]
    exact Nat.zero_add m
  -- The grammar ends at the same place with more text behind it, and so before the end.
  obtain ⟨s', hrun', hsame'⟩ :=
    Grammar.explores_expression.elsewhere hrun hdecided (by omega) (by omega) hsame
  have hopen : other.Open := ⟨rfl, Nat.zero_le _⟩
  have hwhole : c.text = c.text ++ [] := (List.append_nil _).symm
  have hat := hopen.at_self hwhole
  refine not_part_of_at c hat hrun' (hpart.imp id fun hpart => ⟨hpart.1, ?_⟩)
  obtain ⟨front, tail, tail', -, hrest, hlength⟩ := hsame'.rest
  have hpos : 0 < front.length := by omega
  rw [hrest]
  exact List.append_ne_nil_of_left_ne_nil (List.length_pos_iff.1 hpos) _

/-- The farthest place is the end of the longest viable prefix. -/
theorem longestViable (h : t.EndsEarly capacity s) :
    LongestViable t.expression.toList (max s.farthest s.position) where
  le_length := by
    rw [String.length_toList]
    exact h.place_le
  viable := h.viable_take
  longest _ hm hle := h.not_viable_take hm hle

end Task.EndsEarly

/-! ## What the refusal names -/

namespace LongestViable

variable {text : List Char} {n : Nat}

/-- The whole text is viable exactly if its longest viable prefix ends where it ends. -/
theorem eq_length_iff (h : LongestViable text n) : n = text.length ↔ Viable text := by
  constructor
  · rintro rfl
    have hviable := h.viable
    rwa [List.take_length] at hviable
  · intro hviable
    refine Nat.le_antisymm h.le_length (Nat.le_of_not_lt fun hlt => ?_)
    refine h.longest text.length hlt (Nat.le_refl _) ?_
    rwa [List.take_length]

/-- Where the longest viable prefix ends within the text, a character follows that no continuation
allows. -/
theorem exists_next (h : LongestViable text n) (hlt : n < text.length) :
    ∃ front c rest, text = front ++ c :: rest ∧ front.length = n ∧ Viable front ∧
      ¬ Viable (front ++ [c]) := by
  refine ⟨text.take n, text[n], text.drop (n + 1), ?_, List.length_take_of_le h.le_length,
    h.viable, ?_⟩
  · rw [← List.drop_eq_getElem_cons hlt, List.take_append_drop]
  · rw [List.take_append_getElem hlt]
    exact h.longest (n + 1) (Nat.lt_succ_self n) hlt

end LongestViable

namespace Rejection

variable {expression : String}

/-- The description of the end of a text. -/
theorem describe_end (hlength : expression.length < Index.wordBound) :
    (ungrammatical expression expression.length).describe =
      .ok s!"unexpected end of input at column {expression.length + 1}" := by
  have hdescribe : (ungrammatical expression expression.length).describe =
      locate expression.toList expression.length := rfl
  have hend : (expression.toList.length : Int) ≤ expression.length :=
    Int.le_of_eq (by rw [String.length_toList])
  rw [hdescribe, locate, if_pos hend, column_eq_ok_of_lt hlength]
  rfl

/-- The description of a place within a text. -/
theorem describe_inside {front rest : List Char} {c : Char}
    (hlength : expression.length < Index.wordBound)
    (htext : expression.toList = front ++ c :: rest) :
    (ungrammatical expression front.length).describe =
      .ok s!"unexpected '{c}' at column {front.length + 1}" := by
  have hdescribe : (ungrammatical expression front.length).describe =
      locate expression.toList front.length := rfl
  have hlt : front.length < expression.toList.length := by
    rw [htext, List.length_append, List.length_cons]
    omega
  have hbound : (front.length : Int) < Index.wordBound := by
    rw [String.length_toList] at hlt
    omega
  have hplace : Index.place expression.toList.length front.length = .ok ⟨front.length, hlt⟩ := by
    rw [Index.place_eq_ok_iff]
    refine ⟨⟨?_, hbound⟩, .inl rfl⟩
    simp only [Index.wordBound]
    omega
  have hchar : expression.toList[(⟨front.length, hlt⟩ : Fin _)] = c := by
    simp [htext]
  rw [hdescribe, locate, if_neg (by omega), hplace, column_eq_ok_of_lt hbound]
  simp only
  rw [hchar]
  rfl

end Rejection

/-- An illegal expression is refused at the end of its longest viable prefix. Let a text be no
expression, let the maximum have a numeral, as that of all settings has
(`Settings.legible_limits_load`), and let the compilation not refuse the text for a limit. Then it
refuses the text as ungrammatical, at the end of its longest viable prefix. If the whole text is
viable, the refusal names the end of the text, and otherwise the first character that no
continuation allows, as long as the text is one that indexes reach. -/
theorem compile_longest_viable (hcapacity : 1 ≤ capacity) (hlegible : t.limits.Legible)
    (hnot : ¬ Derives .expression t.expression.toList)
    (hlimits : ∀ r, (compile t capacity).result = .error (.rejected r) → r.kind = .ungrammatical) :
    ∃ place, (compile t capacity).result =
        .error (.rejected (.ungrammatical t.expression place)) ∧
      LongestViable t.expression.toList place ∧
      (Viable t.expression.toList ∧ place = t.expression.length ∧
          (t.expression.length < Index.wordBound →
            (Rejection.ungrammatical t.expression place).describe =
              .ok s!"unexpected end of input at column {place + 1}") ∨
        ¬ Viable t.expression.toList ∧ ∃ front c rest,
          t.expression.toList = front ++ c :: rest ∧ front.length = place ∧ Viable front ∧
          ¬ Viable (front ++ [c]) ∧
          (t.expression.length < Index.wordBound →
            (Rejection.ungrammatical t.expression place).describe =
              .ok s!"unexpected '{c}' at column {place + 1}")) := by
  obtain ⟨c, htext, -⟩ | ⟨fault, hresult, hconcerns⟩ | ⟨-, s, hearly, hresult⟩ :=
    compile_cases (t := t) hcapacity
  · exact absurd (htext ▸ derives_text c) hnot
  · -- A fault that stops the grammar concerns a limit, and so it is none of these.
    cases fault with
    | buffer | missingWord => exact hconcerns.elim
    | numeral => exact absurd hlegible hconcerns
    | rejected r =>
      have hkind := hconcerns.kind
      rw [hlimits r hresult] at hkind
      exact hkind.elim
  · have hlongest := hearly.longestViable
    refine ⟨_, hresult, hlongest, ?_⟩
    generalize max s.farthest s.position = place at hlongest
    by_cases hviable : Viable t.expression.toList
    · have hplace := hlongest.eq_length_iff.2 hviable
      rw [String.length_toList] at hplace
      subst hplace
      exact .inl ⟨hviable, rfl, Rejection.describe_end⟩
    · have hne : place ≠ t.expression.toList.length := hviable ∘ hlongest.eq_length_iff.1
      obtain ⟨front, c, rest, htext, rfl, hfront, hnext⟩ :=
        hlongest.exists_next (Nat.lt_of_le_of_ne hlongest.le_length hne)
      exact .inr ⟨hviable, front, c, rest, htext, rfl, hfront, hnext,
        fun hlength => Rejection.describe_inside hlength htext⟩

/-- A letter where a number goes on or a bracket closes the step. -/
theorem compile_longest_viable_letter :
    let t : Task := ⟨"0.pi(1.gb(25y", ⟨some 2, 64, 2147483647⟩⟩
    ¬ Derives .expression t.expression.toList ∧
      (compile t 1024).result = .error (.rejected (.ungrammatical t.expression 12)) ∧
      LongestViable t.expression.toList 12 ∧
      (Rejection.ungrammatical t.expression 12).describe = .ok "unexpected 'y' at column 13" := by
  intro t
  let read := Grammar.expression t (Reading.fresh t 1024)
  have hread : Grammar.expression t (Reading.fresh t 1024) = (read.1, read.2) := rfl
  have hearly : t.EndsEarly 1024 read.2 :=
    Task.endsEarly_of_part hread (.inr ⟨by decide +kernel, by decide +kernel⟩)
  have hnot : ¬ Derives .expression t.expression.toList := by
    rw [derives_expression_iff]
    rintro ⟨c, htext⟩
    exact hearly.not_grammatical ⟨c, htext.symm⟩
  have hcapacity : (1 : Int) ≤ 1024 := by decide
  have hresult : (compile t 1024).result = .error (.rejected (.ungrammatical t.expression 12)) := by
    have hplace : max read.2.farthest read.2.position = 12 := by decide +kernel
    have hplaced := hearly.result_eq hcapacity
    rwa [hplace] at hplaced
  obtain ⟨place, hplace, hlongest, hnames⟩ :=
    compile_longest_viable (t := t) hcapacity (by decide) hnot fun r hr => by
      rw [hresult] at hr
      cases hr
      rfl
  have hsame : place = 12 := by
    rw [hresult] at hplace
    have hposition := congrArg Rejection.position (Fault.rejected.inj (Except.error.inj hplace))
    exact (Int.ofNat.inj (Option.some.inj hposition)).symm
  subst hsame
  refine ⟨hnot, hresult, hlongest, ?_⟩
  obtain ⟨-, hend, -⟩ | ⟨-, front, c, rest, htext, hlength, -, -, hdescribe⟩ := hnames
  · exact absurd hend (by decide)
  · have hchar : t.expression.toList[12]? = some c := by
      rw [htext, ← hlength]
      simp
    have hletter : t.expression.toList[12]? = some 'y' := by decide
    obtain rfl : 'y' = c := Option.some.inj (hletter.symm.trans hchar)
    exact hdescribe (by decide)

end Montage
