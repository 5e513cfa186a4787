import Montage.Proofs.Expression.Soundness

/-!
# Reading behind earlier words

The rules of the grammar look at the last words of the buffer, and they truncate it to lengths that
they remember, so what they do might depend on the words that the buffer held before. It does not.
`Buffer.behind` puts the words of a buffer behind those of another one, with as much room as before;
a rule is `Uniform` if it does the same there, word for word, and answers the same but for the
capacity that a full buffer is reported with. The main statement, `uniform_expression`, says that
the grammar is uniform.
-/

namespace Montage

namespace Buffer

/-- A change, with the places counted behind earlier words. -/
def Change.behind (earlier : Nat) : Change → Change
  | put word index => put word (earlier + index)
  | undo count mark => undo count (earlier + mark)

/-- The words and the changes of a buffer behind those of another one, with the same room left. -/
def behind (b base : Buffer) : Buffer where
  capacity := base.size + b.capacity
  words := base.words ++ b.words
  frozen := b.frozen
  journal := base.journal ++ b.journal.map (Change.behind base.size)

variable {b b' base : Buffer} {w : Word} {mark : Nat} {index word : Int}

@[simp]
theorem size_behind (b base : Buffer) : (b.behind base).size = base.size + b.size :=
  Array.size_append

/-- A word that is pushed stands behind the earlier ones, too. -/
theorem push_behind (h : b.push w = .ok b') : (b.behind base).push w = .ok (b'.behind base) := by
  obtain ⟨hopen, hroom, rfl⟩ := push_eq_ok_iff.1 h
  have hroom' : (b.behind base).size < (b.behind base).capacity := by
    rw [size_behind]
    exact Nat.add_lt_add_left hroom base.size
  rw [push_eq_ok_iff]
  refine ⟨hopen, hroom', ?_⟩
  rw [size_behind]
  simp [behind, Change.behind]

/-- The earlier words count for the words that are taken. -/
theorem take_behind (b base : Buffer) (mark : Nat) :
    (b.behind base).words.take (base.size + mark) = base.words ++ b.words.take mark := by
  apply Array.toList_inj.1
  simp [behind, size, List.take_of_length_le]

/-- A rollback drops the same words behind the earlier ones. -/
theorem rollback_behind (h : b.rollback mark = .ok b') :
    (b.behind base).rollback ((base.size + mark : Nat) : Int) = .ok (b'.behind base) := by
  obtain ⟨-, hle, -⟩ := words_rollback h
  have hcount : base.size + b.size - (base.size + mark) = b.size - mark := by omega
  unfold rollback at h ⊢
  by_cases hfrozen : b.frozen = true
  · simp [hfrozen] at h
  · have hfrozen' : ¬ (b.behind base).frozen = true := hfrozen
    rw [if_neg hfrozen, if_neg (by omega), Int.toNat_natCast] at h
    rw [if_neg hfrozen', size_behind, if_neg (by omega), Int.toNat_natCast, take_behind, hcount]
    by_cases hless : mark < b.size
    · rw [if_pos hless] at h
      rw [if_pos (Nat.add_lt_add_left hless base.size), ← Except.ok.inj h]
      simp [behind, Change.behind]
    · rw [if_neg hless] at h
      rw [if_neg (by omega), ← Except.ok.inj h]

/-- A word that is counted from the end is the same behind earlier words. -/
theorem get_behind (hneg : index < 0) (h : b.get index = .ok word) :
    (b.behind base).get index = .ok word := by
  unfold get at h ⊢
  cases hplace : Index.place b.words.size index with
  | error fault =>
    rw [hplace] at h
    cases h
  | ok place =>
    obtain ⟨hbounds, hindex⟩ := Index.place_eq_ok_iff.1 hplace
    have hsize : (b.behind base).words.size = base.size + b.words.size := size_behind b base
    have hlt : base.size + place < (b.behind base).words.size := by
      have := place.isLt
      omega
    have hplace' : Index.place (b.behind base).words.size index = .ok ⟨_, hlt⟩ := by
      rw [Index.place_eq_ok_iff]
      refine ⟨hbounds, .inr ?_⟩
      simp only
      omega
    rw [hplace] at h
    rw [hplace', ← h]
    simp [Except.map, behind, size]

end Buffer

/-- A fault behind earlier words: the same, but that a full buffer is reported with the capacity
that it has there. -/
inductive Fault.Behind (earlier : Nat) : Fault → Fault → Prop where
  /-- The fault does not speak of the buffer. -/
  | refl (fault : Fault) : Behind earlier fault fault
  /-- There is no room for a word, at the same place of the text. -/
  | full (expression : String) (position capacity : Nat) : Behind earlier
    (.rejected (.tooLong expression position (Buffer.Fault.full capacity).message))
    (.rejected (.tooLong expression position (Buffer.Fault.full (earlier + capacity)).message))

/-- An outcome behind earlier words. -/
inductive Outcome.Behind (earlier : Nat) : Outcome → Outcome → Prop where
  /-- Both match. -/
  | matched : Behind earlier .matched .matched
  /-- Both fail. -/
  | failed : Behind earlier .failed .failed
  /-- Both stop, with the same fault. -/
  | stopped {fault fault' : Fault} (h : fault.Behind earlier fault') :
    Behind earlier (.stopped fault) (.stopped fault')

/-- An outcome that does not speak of the buffer. -/
theorem Outcome.Behind.refl {earlier : Nat} (outcome : Outcome) :
    outcome.Behind earlier outcome := by
  cases outcome with
  | matched => exact .matched
  | failed => exact .failed
  | stopped fault => exact .stopped (.refl fault)

namespace Reading

/-- The reading with its words behind earlier ones. -/
def behind (s : Reading) (base : Buffer) : Reading :=
  { s with buffer := s.buffer.behind base }

/-- Two answers to a reading agree, if the second one is given behind earlier words: the outcomes
are alike, and the reading is left with the same words. -/
structure Agree (base : Buffer) (s : Reading) (answer answer' : Outcome × Reading) : Prop where
  /-- The outcomes are alike. -/
  outcome : answer.1.Behind base.size answer'.1
  /-- What is left is the same. -/
  left : answer'.2 = answer.2.behind base
  /-- The reading goes on from where it stood. -/
  reads : ∃ text words, s.Reads text words answer.2

variable {base : Buffer} {s s₁ : Reading} {text : List Char} {words : List Int}
  {answer answer' : Outcome × Reading}

/-- Answers that agree after a reading has gone on agree before it. -/
theorem Agree.of_reads (hreads : s.Reads text words s₁) (h : s₁.Agree base answer answer') :
    s.Agree base answer answer' := by
  obtain ⟨text', words', hreads'⟩ := h.reads
  exact ⟨h.outcome, h.left, _, _, hreads.trans hreads'⟩

end Reading

namespace Rule

variable {base : Buffer} {r q : Rule} {s s' s'' : Reading} {outcome outcome' : Outcome}

/-- A rule that gives at a reading the same answer behind earlier words. -/
def Uniform (base : Buffer) (r : Rule) (s : Reading) : Prop :=
  s.Agree base (r s) (r (s.behind base))

/-- The answer of a uniform rule behind earlier words. -/
theorem Uniform.exists_eq (h : r.Uniform base s) (hr : r s = (outcome, s')) : ∃ outcome',
    r (s.behind base) = (outcome', s'.behind base) ∧ outcome.Behind base.size outcome' := by
  obtain ⟨houtcome, hleft, -⟩ := h
  rw [hr] at houtcome hleft
  exact ⟨_, Prod.ext rfl hleft, houtcome⟩

/-- A match behind earlier words. -/
theorem Uniform.eq_matched (h : r.Uniform base s) (hr : r s = (.matched, s')) :
    r (s.behind base) = (.matched, s'.behind base) := by
  obtain ⟨_, hr', hbehind⟩ := h.exists_eq hr
  cases hbehind
  exact hr'

/-- A failure behind earlier words. -/
theorem Uniform.eq_failed (h : r.Uniform base s) (hr : r s = (.failed, s')) :
    r (s.behind base) = (.failed, s'.behind base) := by
  obtain ⟨_, hr', hbehind⟩ := h.exists_eq hr
  cases hbehind
  exact hr'

/-- A stop behind earlier words. -/
theorem Uniform.exists_stopped {fault : Fault} (h : r.Uniform base s)
    (hr : r s = (.stopped fault, s')) : ∃ fault', fault.Behind base.size fault' ∧
      r (s.behind base) = (.stopped fault', s'.behind base) := by
  obtain ⟨_, hr', hbehind⟩ := h.exists_eq hr
  cases hbehind with
  | stopped hfault => exact ⟨_, hfault, hr'⟩

/-! ## Building rules -/

/-- One uniform rule after the other. -/
theorem Uniform.andThen (h : r.Uniform base s)
    (h' : ∀ text words s', s.Reads text words s' → q.Uniform base s') :
    (andThen r q).Uniform base s := by
  unfold Uniform
  obtain ⟨text, words, hreads⟩ := h.reads
  rcases hr : r s with ⟨outcome, s₁⟩
  rw [hr] at hreads
  cases outcome with
  | matched =>
    rw [andThen_of_matched hr, andThen_of_matched (h.eq_matched hr)]
    exact (h' text words s₁ hreads).of_reads hreads
  | failed =>
    rw [andThen_of_failed hr, andThen_of_failed (h.eq_failed hr)]
    exact ⟨.failed, rfl, text, words, hreads⟩
  | stopped fault =>
    obtain ⟨fault', hfault, hr'⟩ := h.exists_stopped hr
    rw [andThen_of_stopped hr, andThen_of_stopped hr']
    exact ⟨.stopped hfault, rfl, text, words, hreads⟩

/-- The first of two uniform alternatives that does not fail. -/
theorem Uniform.orElse (h : r.Uniform base s)
    (h' : ∀ text words s', s.Reads text words s' → q.Uniform base s') :
    (orElse r q).Uniform base s := by
  unfold Uniform
  obtain ⟨text, words, hreads⟩ := h.reads
  rcases hr : r s with ⟨outcome, s₁⟩
  rw [hr] at hreads
  cases outcome with
  | matched =>
    rw [orElse_of_matched hr, orElse_of_matched (h.eq_matched hr)]
    exact ⟨.matched, rfl, text, words, hreads⟩
  | failed =>
    rw [orElse_of_failed hr, orElse_of_failed (h.eq_failed hr)]
    exact (h' text words s₁ hreads).of_reads hreads
  | stopped fault =>
    obtain ⟨fault', hfault, hr'⟩ := h.exists_stopped hr
    rw [orElse_of_stopped hr, orElse_of_stopped hr']
    exact ⟨.stopped hfault, rfl, text, words, hreads⟩

/-- Behind earlier words the same words can be dropped. -/
theorem rollback_mark_behind {b : Buffer} (h : s'.buffer.rollback s.buffer.mark = .ok b) :
    (s'.behind base).buffer.rollback (s.behind base).buffer.mark = .ok (b.behind base) := by
  have hmark : (s.behind base).buffer.mark = base.size + s.buffer.mark :=
    Buffer.size_behind s.buffer base
  rw [hmark]
  exact Buffer.rollback_behind h

/-- Behind earlier words the way back leads to the same place. -/
theorem rewind_behind {b : Buffer} (hroll : s'.buffer.rollback s.buffer.mark = .ok b)
    (h : rewind s outcome s' = (outcome, s'')) :
    rewind (s.behind base) outcome' (s'.behind base) = (outcome', s''.behind base) := by
  rw [rewind, hroll] at h
  rw [rewind, rollback_mark_behind hroll, ← (Prod.mk.inj h).2]
  rfl

/-- The transaction of a uniform rule. -/
theorem Uniform.transact (hopen : s.buffer.frozen = false) (h : r.Uniform base s) :
    (transact r).Uniform base s := by
  unfold Uniform
  -- A match is kept in both places, and anything else is taken back in both.
  by_cases hmatched : (r s).1 = .matched
  · have hr' := h.eq_matched (Prod.ext hmatched rfl)
    rw [transact_eq_of_matched hmatched, transact_eq_of_matched (by rw [hr'])]
    exact h
  · have hmatched' : (r (s.behind base)).1 ≠ .matched := by
      intro heq
      have houtcome := h.outcome
      rw [heq] at houtcome
      generalize (r s).1 = outcome at hmatched houtcome
      cases houtcome
      exact hmatched rfl
    obtain ⟨text, words, hreads⟩ := h.reads
    obtain ⟨b, hroll, -⟩ := exists_rollback hopen hreads
    obtain ⟨s'', hrewind, hback⟩ := exists_rewind hopen hreads (r s).1
    rw [transact_eq_of_not_matched hmatched, transact_eq_of_not_matched hmatched', hrewind, h.left,
      rewind_behind hroll hrewind]
    exact ⟨h.outcome, rfl, [], [], hback⟩

/-- A uniform rule with one more overlay open. -/
theorem Uniform.nested (h : r.Uniform base { s with depth := s.depth + 1 }) :
    (nested r).Uniform base s := by
  obtain ⟨text, words, hreads⟩ := h.reads
  rcases hr : r { s with depth := s.depth + 1 } with ⟨outcome, s'⟩
  rw [hr] at hreads
  obtain ⟨outcome', hr', hbehind⟩ := h.exists_eq hr
  unfold Uniform
  rw [nested_of_eq hr, nested_of_eq hr']
  exact ⟨hbehind, rfl, text, words, hreads.nested⟩

/-- A rule that stops at once is uniform. -/
theorem uniform_stop (fault : Fault) : (stop fault).Uniform base s :=
  ⟨.refl _, rfl, [], [], .refl s⟩

/-- Reading digits is uniform, if what follows is. -/
theorem uniform_digits {next : List Char → Rule}
    (h : ∀ run, s.Reads run [] (s.advance run.length) →
      (next run).Uniform base (s.advance run.length)) :
    (digits next).Uniform base s := by
  by_cases hrun : s.rest.takeWhile Char.isDigit = []
  · have hbehind : digits next (s.behind base) = _ := digits_of_nil hrun
    unfold Uniform
    rw [digits_of_nil hrun, hbehind]
    exact ⟨.failed, rfl, [], [], Reading.reads_noteFailure (Nat.le_add_right _ _)⟩
  · have hrest := List.takeWhile_append_dropWhile (p := Char.isDigit) (l := s.rest)
    have hreads := Reading.reads_advance hrest.symm
    have hbehind : digits next (s.behind base) = _ := digits_of_ne_nil hrun rfl
    unfold Uniform
    rw [digits_of_ne_nil hrun rfl, hbehind]
    exact (h _ hreads).of_reads hreads

/-- Reading a digit is uniform, if what follows is. -/
theorem uniform_digit {next : Int → Rule}
    (h : ∀ c index, s.Reads [c] [] (s.advance 1) → (next index).Uniform base (s.advance 1)) :
    (digit next).Uniform base s := by
  have hfailed (hnot : ∀ c ∈ s.rest.head?, c.isDigit = false) :
      (digit next).Uniform base s := by
    have hbehind : digit next (s.behind base) = _ := digit_of_not hnot
    unfold Uniform
    rw [digit_of_not hnot, hbehind]
    exact ⟨.failed, rfl, [], [], Reading.reads_noteFailure (Nat.le_add_right _ _)⟩
  cases hrest : s.rest with
  | nil => exact hfailed (by simp [hrest])
  | cons c rest =>
    by_cases hdigit : c.isDigit = true
    · have hreads : s.Reads [c] [] (s.advance 1) := Reading.reads_advance hrest
      have hbehind : digit next (s.behind base) = _ := digit_of_isDigit hrest hdigit
      unfold Uniform
      rw [digit_of_isDigit hrest hdigit, hbehind]
      exact (h c _ hreads).of_reads hreads
    · exact hfailed (by simp [hrest, hdigit])

/-- A fixed text is uniform. -/
theorem uniform_literal (literalText : String) : (literal literalText).Uniform base s := by
  unfold Uniform
  by_cases hprefix : literalText.toList <+: s.rest
  · obtain ⟨rest, hrest⟩ := hprefix
    have hrest' : (s.behind base).rest = literalText.toList ++ rest := hrest.symm
    rw [literal_eq_matched hrest.symm, literal_eq_matched hrest']
    exact ⟨.matched, rfl, _, _, Reading.reads_advance hrest.symm⟩
  · have hcommon : commonLength literalText.toList s.rest ≠ literalText.length := by
      rw [← String.length_toList, ne_eq, commonLength_eq_length_iff]
      exact hprefix
    have hr : literal literalText s = _ := if_neg hcommon
    have hr' : literal literalText (s.behind base) = _ := if_neg hcommon
    have hle := (take_commonLength literalText.toList s.rest).2.1
    rw [hr, hr']
    exact ⟨.failed, rfl, [], [], Reading.reads_noteFailure (by omega)⟩

/-- Writing a word is uniform. -/
theorem uniform_emit {expression : String} (w : Word) (hopen : s.Open) :
    (emit expression w).Uniform base s := by
  have hfrozen' : (s.behind base).buffer.frozen = false := hopen.frozen
  unfold Uniform
  by_cases hfull : s.buffer.capacity ≤ s.buffer.size
  · have hfull' : (s.behind base).buffer.capacity ≤ (s.behind base).buffer.size := by
      simp only [Reading.behind, Buffer.size_behind]
      exact Nat.add_le_add_left hfull _
    rw [emit_eq_stopped hopen.frozen hfull, emit_eq_stopped hfrozen' hfull']
    exact ⟨.stopped (.full ..), rfl, [], [], .refl s⟩
  · have hpush := (Buffer.push_eq_ok_iff (w := w)).2 ⟨hopen.frozen, Nat.lt_of_not_le hfull, rfl⟩
    have hpush' : (s.behind base).buffer.push w = _ := Buffer.push_behind hpush
    rw [emit, emit, hpush, hpush']
    exact ⟨.matched, rfl, _, _, Reading.reads_push hpush⟩

end Rule

namespace Grammar

open Rule

variable {t : Task} {base : Buffer} {s : Reading} {inner : Rule}

/-! ## Rules without recursion -/

/-- Writing a number is uniform. -/
theorem uniform_writeNumber (start : Nat) (run : List Char) (hopen : s.Open) :
    (writeNumber t start run).Uniform base s := by
  obtain ⟨fault, hstopped⟩ | ⟨w, hemit⟩ := writeNumber_cases t start run
  · rw [hstopped]
    exact uniform_stop fault
  · rw [hemit]
    exact uniform_emit w hopen

/-- Writing an image reference is uniform. -/
theorem uniform_writeImage (index : Int) (hopen : s.Open) :
    (writeImage t index).Uniform base s :=
  (uniform_emit (.number index) hopen).andThen fun _ _ _ hreads =>
    uniform_emit (.tag .image) (hopen.of_reads hreads)

/-- Writing an image reference after its index was checked is uniform. -/
theorem uniform_checkedImage (start : Nat) (index : Int) (hopen : s.Open) :
    (checkedImage t start index).Uniform base s := by
  obtain ⟨fault, hstopped⟩ | hwrite := checkedImage_cases Rule.blocks t start index
  · rw [checkedImage, hstopped]
    exact uniform_stop fault
  · rw [checkedImage, hwrite]
    exact uniform_writeImage index hopen

/-- A run of digits is uniform. -/
theorem uniform_number (hopen : s.Open) : (number t).Uniform base s :=
  Uniform.transact hopen.frozen (uniform_digits fun run hreads =>
    uniform_writeNumber s.position run (hopen.of_reads hreads))

/-- An image reference is uniform. -/
theorem uniform_imageRef (hopen : s.Open) : (imageRef t).Uniform base s :=
  Uniform.transact hopen.frozen (uniform_digit fun _ index hreads =>
    uniform_checkedImage s.position index (hopen.of_reads hreads))

/-- A width and a height are uniform. -/
theorem uniform_size (hopen : s.Open) : (size t).Uniform base s := by
  refine Uniform.transact hopen.frozen ((uniform_number hopen).andThen fun _ _ s₁ hreads₁ => ?_)
  refine (uniform_literal "x").andThen fun _ _ s₂ hreads₂ => ?_
  exact uniform_number ((hopen.of_reads hreads₁).of_reads hreads₂)

/-! ## Steps -/

/-- The rule `inner` is uniform where `depth` overlays are open. -/
def UniformArgument (base : Buffer) (depth : Nat) (inner : Rule) : Prop :=
  ∀ s : Reading, s.Open → s.depth = depth → inner.Uniform base s

/-- A step with brackets is uniform, if its argument is. -/
theorem uniform_call {tag : Tag} {argument : Rule} (hopen : s.Open)
    (hargument : UniformArgument base s.depth argument) :
    (transact (call t tag argument)).Uniform base s := by
  refine Uniform.transact hopen.frozen ((uniform_literal _).andThen fun _ _ s₁ hreads₁ => ?_)
  have hopen₁ := hopen.of_reads hreads₁
  refine (hargument s₁ hopen₁ hreads₁.depth).andThen fun _ _ s₂ hreads₂ => ?_
  have hopen₂ := hopen₁.of_reads hreads₂
  refine (uniform_literal ")").andThen fun _ _ s₃ hreads₃ => ?_
  exact uniform_emit (.tag tag) (hopen₂.of_reads hreads₃)

/-- A step is uniform, if the arguments of overlays are. -/
theorem uniform_stepOf (hopen : s.Open) (hinner : UniformArgument base s.depth inner) :
    (stepOf t inner).Uniform base s := by
  refine Uniform.transact hopen.frozen ?_
  refine (uniform_call hopen fun _ hs _ => uniform_size hs).orElse fun _ _ s₁ hreads₁ => ?_
  have hopen₁ := hopen.of_reads hreads₁
  refine (uniform_call hopen₁ fun _ hs _ => uniform_size hs).orElse fun _ _ s₂ hreads₂ => ?_
  have hopen₂ := hopen₁.of_reads hreads₂
  have hdepth₂ : s₂.depth = s.depth := hreads₂.depth.trans hreads₁.depth
  refine (uniform_call hopen₂ (hdepth₂ ▸ hinner)).orElse fun _ _ s₃ hreads₃ => ?_
  have hopen₃ := hopen₂.of_reads hreads₃
  refine (uniform_call hopen₃ fun _ hs _ => uniform_number hs).orElse fun _ _ s₄ hreads₄ => ?_
  exact uniform_imageRef (hopen₃.of_reads hreads₄)

/-- A dot and a step are uniform, if the arguments of overlays are. -/
theorem uniform_chainedStepOf (hopen : s.Open) (hinner : UniformArgument base s.depth inner) :
    (chainedStepOf t inner).Uniform base s := by
  refine Uniform.transact hopen.frozen ((uniform_literal ".").andThen fun _ _ s₁ hreads₁ => ?_)
  exact uniform_stepOf (hopen.of_reads hreads₁) (hreads₁.depth ▸ hinner)

/-! ## Chains -/

/-- Behind earlier words the words of a chain are dropped or kept in the same way. The last two
words of the buffer were written since the mark, so the earlier ones are not looked at. -/
theorem dropDeadChain_behind {s' s'' : Reading} {text : List Char} {words : List Int}
    (hopen : s.Open) (hreads : s.Reads text words s')
    (h : dropDeadChain t s.buffer.mark s' = (.matched, s'')) :
    dropDeadChain t (s.behind base).buffer.mark (s'.behind base) =
      (.matched, s''.behind base) := by
  obtain ⟨last, hlast, hother, rfl⟩ | ⟨index, b, hlast, hindex, hroll, hwrite⟩ :=
    dropDeadChain_cases h
  · exact dropDeadChain_of_other (Buffer.get_behind (by decide) hlast) hother
  · obtain ⟨b', hroll', hback⟩ := exists_rollback hopen.frozen hreads
    obtain rfl : b' = b := Except.ok.inj (hroll'.symm.trans hroll)
    refine (dropDeadChain_of_image (Buffer.get_behind (by decide) hlast)
      (Buffer.get_behind (by decide) hindex) (rollback_mark_behind hroll)).trans ?_
    exact (uniform_writeImage index (hopen.of_reads hback)).eq_matched hwrite

/-- The loop over the steps of a chain gives the same answer behind earlier words, from the end of
any chain on. -/
theorem agree_upTo (hopen : s.Open) (hsound : SoundArgument t s.depth inner)
    (hinner : UniformArgument base s.depth inner) (n : Nat) (before : Chain) {s₁ : Reading}
    (hreads₁ : s.Reads before.text before.prune.encode s₁) :
    s.Agree base
      (upTo (andThen (chainedStepOf t inner) (dropDeadChain t s.buffer.mark)) n s₁)
      (upTo (andThen (chainedStepOf t inner) (dropDeadChain t (s.behind base).buffer.mark)) n
        (s₁.behind base)) := by
  -- On the turns of the loop; the chain grows by a link in each of them.
  induction n generalizing before s₁ with
  | zero => exact ⟨.matched, rfl, _, _, hreads₁⟩
  | succ n ih =>
    have hopen₁ := hopen.of_reads hreads₁
    have huniform : (chainedStepOf t inner).Uniform base s₁ :=
      uniform_chainedStepOf hopen₁ (hreads₁.depth ▸ hinner)
    obtain ⟨outcome, text, words, ⟨s₂, hs₂, hreads₂⟩, htells, -⟩ :=
      neat_chainedStepOf (k := 0) hopen₁ (hreads₁.depth ▸ hsound)
    have hreads := hreads₁.trans hreads₂
    cases outcome with
    | matched =>
      obtain ⟨link, rfl, rfl⟩ := htells
      obtain ⟨s₃, hs₃, hreads₃⟩ := dropDeadChain_eq (t := t) link hopen.frozen hopen.fits hreads
      have hs₃' : dropDeadChain t (s.behind base).buffer.mark (s₂.behind base) =
          (.matched, s₃.behind base) := dropDeadChain_behind hopen hreads hs₃
      rw [← Chain.text_extend, ← Chain.encode_prune_extend] at hreads₃
      rw [upTo_of_matched ((andThen_of_matched hs₂).trans hs₃),
        upTo_of_matched ((andThen_of_matched (huniform.eq_matched hs₂)).trans hs₃')]
      exact ih (before.extend link) hreads₃
    | failed =>
      rw [upTo_of_failed (andThen_of_failed hs₂),
        upTo_of_failed (andThen_of_failed (huniform.eq_failed hs₂))]
      exact ⟨.matched, rfl, _, _, hreads⟩
    | stopped fault =>
      obtain ⟨fault', hfault, hs₂'⟩ := huniform.exists_stopped hs₂
      rw [upTo_of_stopped (andThen_of_stopped hs₂), upTo_of_stopped (andThen_of_stopped hs₂')]
      exact ⟨.stopped hfault, rfl, _, _, hreads⟩

/-- An expression is uniform, if the arguments of overlays are. -/
theorem uniform_expressionOf (hopen : s.Open) (hsound : SoundArgument t s.depth inner)
    (hinner : UniformArgument base s.depth inner) : (expressionOf t inner).Uniform base s := by
  refine Uniform.transact hopen.frozen ?_
  have huniform : (imageRef t).Uniform base s := uniform_imageRef hopen
  obtain ⟨outcome, text, words, ⟨s₁, hs₁, hreads₁⟩, htells, -⟩ :=
    neat_imageRef (t := t) (k := 0) hopen
  show s.Agree base (andThen (imageRef t) (many _) s)
    (andThen (imageRef t) (many _) (s.behind base))
  cases outcome with
  | failed =>
    rw [andThen_of_failed hs₁, andThen_of_failed (huniform.eq_failed hs₁)]
    exact ⟨.failed, rfl, _, _, hreads₁⟩
  | stopped fault =>
    obtain ⟨fault', hfault, hs₁'⟩ := huniform.exists_stopped hs₁
    rw [andThen_of_stopped hs₁, andThen_of_stopped hs₁']
    exact ⟨.stopped hfault, rfl, _, _, hreads₁⟩
  | matched =>
    obtain ⟨index, rfl, rfl⟩ := htells
    rw [andThen_of_matched hs₁, andThen_of_matched (huniform.eq_matched hs₁)]
    exact agree_upTo hopen hsound hinner (s₁.rest.length + 1) (.root index) hreads₁

/-- The argument of an overlay is uniform, however many overlays may still be opened. -/
theorem uniformArgument_nestedExpression {levels depth : Nat}
    (hlevels : levels = (t.limits.maxDepth - depth).toNat) :
    UniformArgument base depth (nestedExpression t levels) := by
  -- On the levels that are left.
  induction levels generalizing depth with
  | zero =>
    rintro s - rfl
    unfold Uniform
    exact ⟨.refl _, rfl, [], [], .refl s⟩
  | succ levels ih =>
    rintro s hopen rfl
    have hopen' : Reading.Open { s with depth := s.depth + 1 } := ⟨hopen.frozen, hopen.fits⟩
    have hlevels' : levels = (t.limits.maxDepth - (s.depth + 1 : Nat)).toNat := by omega
    exact (uniform_expressionOf hopen' (soundArgument_nestedExpression hlevels')
      (ih hlevels')).nested

/-- The argument of an overlay is uniform, wherever the overlay stands. -/
theorem uniformArgument_argument (t : Task) (base : Buffer) (depth : Nat) :
    UniformArgument base depth (argument t) := by
  rintro s hopen rfl
  exact uniformArgument_nestedExpression (t := t) rfl s hopen rfl

/-- The grammar gives the same answer whatever words the buffer held before. -/
theorem uniform_expression (hopen : s.Open) : (expression t).Uniform base s :=
  uniform_expressionOf hopen (soundArgument_argument t s.depth)
    (uniformArgument_argument t base s.depth)

end Grammar

end Montage
