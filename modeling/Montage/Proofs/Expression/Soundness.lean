import Montage.Proofs.Expression.Walk

/-!
# What the grammar can have read

`settles_expression` says what the grammar does where the text of a syntax tree stands. Here is the
other direction, for a text of any kind: what an expression is read from is the text of a syntax
tree, the words that are written are those of the pruned tree, and where the reading stops, the
fault concerns one of the limits (`neat_expression`). Before a rule can stop it may have read a part
of a step that no syntax tree has, so a fault is not traced to a tree; `Fault.Concerns` says what it
tells about the text that stood next.

A rule is `Sound` when its matches are so described, and `Neat` when it also leaves nothing behind
unless it matches, which is what a transaction adds.
-/

namespace Montage

/-- What the kind of a rejection tells about a reading. A rule writes at most two words for each
character of the text. It opens an overlay for each opening bracket at most, apart from `k` overlays
whose bracket was read before. -/
def Rejection.Kind.Concerns (t : Task) (k : Nat) (s : Reading) : Rejection.Kind → Prop
  | .ungrammatical => False
  | .tooLong => s.buffer.capacity ≤ s.buffer.size + 2 * s.rest.length
  | .tooDeep => t.limits.maxDepth < s.depth + s.rest.count '(' + k
  | .numberTooLarge =>
    ∃ number : Digits, number.run <:+: s.rest ∧ t.limits.maxNumber < number.value
  | .indexOutOfRange index imageCount =>
    t.limits.imageCount = some imageCount ∧ imageCount ≤ index ∧ 0 ≤ index ∧ index < 10

/-- The rejection of a text for a kind of reason, at a place. -/
def Task.rejection (t : Task) (capacity place : Nat) : Rejection.Kind → Rejection
  | .ungrammatical => .ungrammatical t.expression place
  | .tooLong => .tooLong t.expression place (Buffer.Fault.full capacity).message
  | .tooDeep => .tooDeep t.expression place t.limits.maxDepth
  | .numberTooLarge => .numberTooLarge t.expression place t.limits.maxNumber
  | .indexOutOfRange index imageCount => .indexOutOfRange t.expression place index imageCount

/-- What a rejection tells about a reading. -/
structure Rejection.Concerns (t : Task) (k : Nat) (s : Reading) (r : Rejection) : Prop where
  /-- One of the limits is broken. -/
  kind : r.kind.Concerns t k s
  /-- The place lies in the text that stood next, and the rest of the rejection goes with its kind.
  -/
  place : ∃ place, s.position ≤ place ∧ place ≤ s.position + s.rest.length ∧
    r = t.rejection s.buffer.capacity place r.kind

/-- What a fault tells about a reading: it is a rejection for one of the limits, or the maximum
cannot be read. -/
def Fault.Concerns (t : Task) (k : Nat) (s : Reading) : Fault → Prop
  | .rejected rejection => rejection.Concerns t k s
  | .numeral _ => ¬ t.limits.Legible
  | .buffer _ | .missingWord _ => False

namespace Rejection

variable {t : Task} {k k' : Nat} {s s' : Reading} {text : List Char} {words : List Int}
  {kind : Kind} {rejection : Rejection}

/-- What a kind tells about a reading, it tells about an earlier one. -/
theorem Kind.Concerns.of_reads (h : kind.Concerns t k' s') (hreads : s.Reads text words s')
    (hwords : words.length ≤ 2 * text.length) (hle : k' ≤ k + text.count '(') :
    kind.Concerns t k s := by
  -- What was read since the earlier reading counts for the words and the overlays.
  have hrest : s.rest.length = text.length + s'.rest.length := by
    rw [hreads.rest, List.length_append]
  have hbrackets : s.rest.count '(' = text.count '(' + s'.rest.count '(' := by
    rw [hreads.rest, List.count_append]
  cases kind with
  | ungrammatical => exact h
  | indexOutOfRange => exact h
  | tooLong =>
    have hfull : s'.buffer.capacity ≤ s'.buffer.size + 2 * s'.rest.length := h
    rw [hreads.capacity, hreads.size] at hfull
    show s.buffer.capacity ≤ s.buffer.size + 2 * s.rest.length
    omega
  | tooDeep =>
    have hdeep : t.limits.maxDepth < s'.depth + s'.rest.count '(' + k' := h
    rw [hreads.depth] at hdeep
    show t.limits.maxDepth < s.depth + s.rest.count '(' + k
    omega
  | numberTooLarge =>
    obtain ⟨number, hwithin, habove⟩ := h
    refine ⟨number, ?_, habove⟩
    rw [hreads.rest]
    exact hwithin.trans (List.suffix_append text s'.rest).isInfix

/-- An overlay more is open. -/
theorem Kind.Concerns.of_nested (h : kind.Concerns t 0 { s with depth := s.depth + 1 }) :
    kind.Concerns t 1 s := by
  cases kind with
  | ungrammatical | indexOutOfRange | tooLong | numberTooLarge => exact h
  | tooDeep =>
    have hdeep : t.limits.maxDepth < (s.depth + 1 : Nat) + s.rest.count '(' + (0 : Nat) := h
    show t.limits.maxDepth < s.depth + s.rest.count '(' + (1 : Nat)
    omega

/-- What a rejection tells about a reading, it tells about an earlier one. -/
theorem Concerns.of_reads (h : rejection.Concerns t k' s') (hreads : s.Reads text words s')
    (hwords : words.length ≤ 2 * text.length) (hle : k' ≤ k + text.count '(') :
    rejection.Concerns t k s := by
  obtain ⟨hkind, place, hfirst, hlast, hrejection⟩ := h
  refine ⟨hkind.of_reads hreads hwords hle, place, ?_, ?_, ?_⟩
  · rw [hreads.position] at hfirst
    omega
  · rw [hreads.position] at hlast
    rw [hreads.rest, List.length_append]
    omega
  · rwa [hreads.capacity] at hrejection

end Rejection

namespace Fault

variable {t : Task} {k k' : Nat} {s s' : Reading} {text : List Char} {words : List Int}
  {fault : Fault}

/-- What a fault tells about a reading, it tells about an earlier one. -/
theorem Concerns.of_reads (h : fault.Concerns t k' s') (hreads : s.Reads text words s')
    (hwords : words.length ≤ 2 * text.length) (hle : k' ≤ k + text.count '(') :
    fault.Concerns t k s := by
  cases fault with
  | buffer | missingWord | numeral => exact h
  | rejected rejection => exact Rejection.Concerns.of_reads h hreads hwords hle

/-- An overlay more is open. -/
theorem Concerns.of_nested (h : fault.Concerns t 0 { s with depth := s.depth + 1 }) :
    fault.Concerns t 1 s := by
  cases fault with
  | buffer | missingWord | numeral => exact h
  | rejected rejection =>
    obtain ⟨hkind, hplace⟩ := h
    exact ⟨hkind.of_nested, hplace⟩

end Fault

/-- What is known of the texts that a rule matches and of the words that it writes for them. -/
abbrev Phrase := List Char → List Int → Prop

namespace Phrase

/-- A run of digits, with its value. -/
def number : Phrase := fun text words =>
  ∃ number : Digits, text = number.run ∧ words = [(number.value : Int)]

/-- A width and a height. -/
def size : Phrase := fun text words =>
  ∃ width height : Digits, text = width.run ++ 'x' :: height.run ∧
    words = [(width.value : Int), (height.value : Int)]

/-- An image reference. -/
def imageRef : Phrase := fun text words =>
  ∃ index : Fin 10, text = Chain.indexText index ∧ words = [(index.val : Int), Tag.image.word]

/-- A step. -/
def step : Phrase := fun text words =>
  ∃ link : Link, text = link.text ∧ words = link.words

/-- A dot and a step. -/
def chainedStep : Phrase := fun text words =>
  ∃ link : Link, text = '.' :: link.text ∧ words = link.words

/-- An expression, with the words of its pruned tree. -/
def expression : Phrase := fun text words =>
  ∃ c : Chain, text = c.text ∧ words = c.prune.encode

end Phrase

/-- A reading whose buffer is open and holds no more words than it has room for. -/
structure Reading.Open (s : Reading) : Prop where
  /-- The buffer is open. -/
  frozen : s.buffer.frozen = false
  /-- The words fit into the buffer. -/
  fits : s.buffer.size ≤ s.buffer.capacity

namespace Reading

variable {s s' : Reading} {text rest : List Char} {words : List Int}

/-- A reading stays open. -/
theorem Open.of_reads (h : s.Open) (hreads : s.Reads text words s') : s'.Open :=
  ⟨hreads.frozen.trans h.frozen, hreads.size_within h.fits⟩

/-- Where an open reading stands. -/
theorem Open.at_self (h : s.Open) (hrest : s.rest = rest) :
    s.At s.buffer.capacity s.depth s.position s.buffer.size rest :=
  ⟨h.frozen, rfl, rfl, rfl, rfl, h.fits, hrest⟩

end Reading

namespace Rule

variable {t : Task} {k k' : Nat} {r q : Rule} {s s' : Reading} {P Q : Phrase}

/-- What is known of the answer of a rule that read a text and wrote words. -/
def Tells (t : Task) (k : Nat) (P : Phrase) (s : Reading) (text : List Char)
    (words : List Int) : Outcome → Prop
  | .matched => P text words
  | .failed => True
  | .stopped fault => fault.Concerns t k s

/-- A rule at a reading matches as a phrase says, and stops for one of the limits. -/
def Sound (t : Task) (k : Nat) (P : Phrase) (r : Rule) (s : Reading) : Prop :=
  ∃ outcome text words, r.Yields s outcome text words ∧ Tells t k P s text words outcome

/-- A sound rule that reads and writes nothing unless it matches. -/
def Neat (t : Task) (k : Nat) (P : Phrase) (r : Rule) (s : Reading) : Prop :=
  ∃ outcome text words, r.Yields s outcome text words ∧ Tells t k P s text words outcome ∧
    (outcome ≠ .matched → text = [] ∧ words = [])

/-- What is told of an answer at one reading may be told of it at another one. -/
theorem Tells.imp {outcome : Outcome} {text text' : List Char} {words words' : List Int}
    (h : Tells t k P s text words outcome) (hmatched : P text words → Q text' words')
    (hstopped : ∀ {fault : Fault}, fault.Concerns t k s → fault.Concerns t k' s') :
    Tells t k' Q s' text' words' outcome := by
  cases outcome with
  | matched => exact hmatched h
  | failed => trivial
  | stopped fault => exact hstopped h

theorem Neat.sound (h : r.Neat t k P s) : r.Sound t k P s := by
  obtain ⟨outcome, text, words, hyields, htells, -⟩ := h
  exact ⟨outcome, text, words, hyields, htells⟩

/-- More overlays may be opened without a character. -/
theorem Sound.mono (h : r.Sound t k P s) (hle : k ≤ k') :
    r.Sound t k' P s := by
  obtain ⟨outcome, text, words, hyields, htells⟩ := h
  refine ⟨outcome, text, words, hyields, htells.imp id fun hconcerns => ?_⟩
  exact hconcerns.of_reads (.refl s) (Nat.zero_le _) hle

/-- A transaction of a sound rule is neat. -/
theorem Sound.transact (hopen : s.buffer.frozen = false) (h : r.Sound t k P s) :
    (transact r).Neat t k P s := by
  obtain ⟨outcome, text, words, hyields, htells⟩ := h
  by_cases hmatched : outcome = .matched
  · subst hmatched
    exact ⟨_, _, _, hyields.transact_matched, htells, fun hne => absurd rfl hne⟩
  · refine ⟨outcome, [], [], hyields.transact hopen hmatched, ?_, fun _ => ⟨rfl, rfl⟩⟩
    cases outcome with
    | matched => exact absurd rfl hmatched
    | failed => trivial
    | stopped fault => exact htells

/-- One sound rule after the other. The second one may speak of what the first one matched. -/
theorem Sound.andThen (h : r.Sound t k P s)
    (hwords : ∀ {text words}, P text words → words.length ≤ 2 * text.length)
    (h' : ∀ s' text words, P text words → s.Reads text words s' →
      q.Sound t (k + text.count '(') (fun text' words' => Q (text ++ text') (words ++ words')) s') :
    (andThen r q).Sound t k Q s := by
  obtain ⟨outcome, text, words, ⟨s₁, hr, hreads⟩, htells⟩ := h
  cases outcome with
  | failed => exact ⟨.failed, text, words, ⟨s₁, andThen_of_failed hr, hreads⟩, trivial⟩
  | stopped fault =>
    exact ⟨.stopped fault, text, words, ⟨s₁, andThen_of_stopped hr, hreads⟩, htells⟩
  | matched =>
    obtain ⟨outcome, text', words', ⟨s₂, hq, hreads'⟩, htells'⟩ := h' s₁ text words htells hreads
    have hboth := (andThen_of_matched hr).trans hq
    refine ⟨outcome, _, _, ⟨s₂, hboth, hreads.trans hreads'⟩, htells'.imp id fun hconcerns => ?_⟩
    exact hconcerns.of_reads hreads (hwords htells) (Nat.le_refl _)

/-- The first of two alternatives that does not fail decides. -/
theorem Neat.orElse (h : r.Neat t k P s)
    (h' : ∀ s', s.Reads [] [] s' → q.Sound t k P s') : (orElse r q).Sound t k P s := by
  obtain ⟨outcome, text, words, ⟨s₁, hr, hreads⟩, htells, hnothing⟩ := h
  cases outcome with
  | matched => exact ⟨.matched, text, words, ⟨s₁, orElse_of_matched hr, hreads⟩, htells⟩
  | stopped fault =>
    exact ⟨.stopped fault, text, words, ⟨s₁, orElse_of_stopped hr, hreads⟩, htells⟩
  | failed =>
    obtain ⟨rfl, rfl⟩ := hnothing (by simp)
    obtain ⟨outcome, text', words', ⟨s₂, hq, hreads'⟩, htells'⟩ := h' s₁ hreads
    have hsecond := (orElse_of_failed hr).trans hq
    refine ⟨outcome, _, _, ⟨s₂, hsecond, hreads.trans hreads'⟩, htells'.imp id fun hconcerns => ?_⟩
    exact hconcerns.of_reads hreads (by simp) (by simp)

/-- A rule that matches a more special phrase. -/
theorem Neat.imp (h : r.Neat t k P s) (hPQ : ∀ {text words}, P text words → Q text words) :
    r.Neat t k Q s := by
  obtain ⟨outcome, text, words, hyields, htells, hnothing⟩ := h
  exact ⟨outcome, text, words, hyields, htells.imp hPQ id, hnothing⟩

/-- A rule that settles a text is neat there, if the faults of the check concern the limits. -/
theorem Settles.neat {text : List Char} {words : List Int} {check : Except Fault Unit}
    (h : r.Settles s text words check) (hP : P text words)
    (hcheck : ∀ {fault}, check = .error fault → fault.Concerns t k s) :
    r.Neat t k P s := by
  cases check with
  | ok _ => exact ⟨.matched, text, words, h, hP, fun hne => absurd rfl hne⟩
  | error fault => exact ⟨.stopped fault, [], [], h, hcheck rfl, fun _ => ⟨rfl, rfl⟩⟩

/-- A fixed text is matched, or fails. -/
theorem sound_literal (literalText : String)
    (hP : P literalText.toList []) : (literal literalText).Sound t k P s := by
  by_cases hprefix : literalText.toList <+: s.rest
  · obtain ⟨rest, hrest⟩ := hprefix
    exact ⟨.matched, _, _, accepts_literal hrest.symm, hP⟩
  · exact ⟨.failed, _, _, yields_literal hprefix, trivial⟩

/-- A word is written, or the buffer is full. -/
theorem sound_emit (w : Word) (hopen : s.Open) (hP : P [] [w.code]) :
    (emit t.expression w).Sound t k P s := by
  by_cases hfull : s.buffer.capacity ≤ s.buffer.size
  · refine ⟨_, _, _, ⟨s, emit_eq_stopped hopen.frozen hfull, .refl s⟩, ?_⟩
    exact ⟨Nat.le_trans hfull (Nat.le_add_right _ _), s.position, Nat.le_refl _,
      Nat.le_add_right _ _, rfl⟩
  · exact ⟨.matched, _, _, emit_eq_matched hopen.frozen (by omega), hP⟩

end Rule

namespace Chain

/-- The words of an expression are at most twice as many as its characters. -/
theorem length_encode_prune_le (c : Chain) : c.prune.encode.length ≤ 2 * c.text.length := by
  induction c with
  | root index => exact Nat.le_refl 2
  | image before index ih =>
    rw [text, List.length_append, prune, Node.encode]
    simp only [indexText, List.length_cons, List.length_nil]
    omega
  | frame how before width height ih =>
    rw [text, List.length_append, prune, Node.encode, List.length_append]
    simp only [callText, List.length_append, List.length_cons, List.length_nil]
    omega
  | blur before strength ih =>
    rw [text, List.length_append, prune, Node.encode, List.length_append]
    simp only [callText, List.length_append, List.length_cons, List.length_nil]
    omega
  | overlay before argument ih ih' =>
    rw [text, List.length_append, prune, Node.encode, List.length_append, List.length_append]
    simp only [callText, List.length_append, List.length_cons, List.length_nil]
    omega

end Chain

namespace Grammar

open Rule

variable {t : Task} {k : Nat} {s : Reading} {position live : Nat} {fault : Fault}

/-! ## The checks -/

/-- No room is left only after as many words as the text that stood next allows. -/
theorem concerns_of_room (h : t.room s.buffer.capacity position live = .error fault)
    (hlive : live ≤ s.buffer.size + 2 * s.rest.length) (hfirst : s.position ≤ position)
    (hlast : position ≤ s.position + s.rest.length) : fault.Concerns t k s := by
  unfold Task.room at h
  split at h
  · rename_i hfull
    obtain rfl := Except.error.inj h
    exact ⟨Nat.le_trans hfull hlive, position, hfirst, hlast, rfl⟩
  · cases h

/-- A number that does not pass is above the maximum, unless that cannot be read. -/
theorem concerns_of_checkMaximum {number : Digits} (hwithin : number.run <:+: s.rest)
    (h : t.checkMaximum number s.position = .error fault) : fault.Concerns t k s := by
  unfold Task.checkMaximum at h
  split at h
  · rename_i fault' hexceeds
    obtain rfl := Except.error.inj h
    obtain ⟨⟨cause, rfl⟩, hlong⟩ := exists_of_exceeds_eq_error number.isDigit_of_mem hexceeds
    exact Nat.not_le_of_lt hlong
  · rename_i hexceeds
    obtain rfl := Except.error.inj h
    exact ⟨⟨number, hwithin, lt_of_exceeds number.isDigit_of_mem hexceeds⟩, s.position,
      Nat.le_refl _, Nat.le_add_right _ _, rfl⟩
  · cases h

/-- The first of two checks that does not pass decides. -/
theorem concerns_of_bind {check check' : Except Fault Unit}
    (hcheck : check = .error fault → fault.Concerns t k s)
    (hcheck' : check' = .error fault → fault.Concerns t k s)
    (h : (do check; check') = .error fault) : fault.Concerns t k s := by
  cases check with
  | error fault' => exact hcheck h
  | ok _ => exact hcheck' h

/-- A number is settled for the limits. -/
theorem concerns_of_checkNumber {number : Digits} (hwithin : number.run <:+: s.rest)
    (h : t.checkNumber s.buffer.capacity number s.position s.buffer.size = .error fault) :
    fault.Concerns t k s :=
  concerns_of_bind (concerns_of_checkMaximum hwithin)
    (fun hroom => concerns_of_room hroom (Nat.le_add_right _ _) (Nat.le_add_right _ _)
      (Nat.add_le_add_left hwithin.length_le _)) h

/-- An image reference is settled for the limits. -/
theorem concerns_of_checkImage {index : Fin 10} (hrest : s.rest ≠ [])
    (h : t.checkImage s.buffer.capacity index s.position s.buffer.size = .error fault) :
    fault.Concerns t k s := by
  have hlength : 0 < s.rest.length := List.length_pos_iff.2 hrest
  refine concerns_of_bind (fun hindex => ?_) (fun hrooms => ?_) h
  · unfold Task.checkIndex at hindex
    split at hindex
    · rename_i count hcount
      split at hindex
      · rename_i habove
        obtain rfl := Except.error.inj hindex
        have hlt := index.isLt
        exact ⟨⟨hcount, habove, by omega, by omega⟩, s.position, Nat.le_refl _,
          Nat.le_add_right _ _, rfl⟩
      · cases hindex
    · cases hindex
  · exact concerns_of_bind
      (fun hroom => concerns_of_room hroom (by omega) (by omega) (by omega))
      (fun hroom => concerns_of_room hroom (by omega) (by omega) (by omega)) hrooms

/-! ## Rules without recursion -/

/-- What a number is read from. -/
theorem neat_number (hopen : s.Open) : (number t).Neat t k .number s := by
  cases htake : s.rest.takeWhile Char.isDigit with
  | nil =>
    have hhead : ∀ c ∈ s.rest.head?, c.isDigit = false := by
      cases hs : s.rest with
      | nil => simp
      | cons c rest =>
        rw [hs] at htake
        simpa [List.takeWhile_cons] using htake
    exact ⟨.failed, [], [], yields_number_failed hopen.frozen hhead, trivial, fun _ => ⟨rfl, rfl⟩⟩
  | cons c run =>
    obtain ⟨digits, hdigits⟩ := Digits.exists_of_takeWhile (htake ▸ List.cons_ne_nil c run)
    -- All digits are taken, so the number ends where none stands.
    have hrest : s.rest = digits.run ++ s.rest.dropWhile Char.isDigit := by
      rw [← hdigits, List.takeWhile_append_dropWhile]
    have hhead : ∀ d ∈ (s.rest.dropWhile Char.isDigit).head?, d.isDigit = false := by
      intro d hd
      have := List.head?_dropWhile_not Char.isDigit s.rest
      rw [Option.mem_def.1 hd] at this
      simpa using this
    have hwithin : digits.run <:+: s.rest := ⟨[], s.rest.dropWhile Char.isDigit, hrest.symm⟩
    exact (settles_number digits (hopen.at_self hrest) hhead).neat ⟨digits, rfl, rfl⟩
      (concerns_of_checkNumber hwithin)

/-- What an image reference is read from. -/
theorem neat_imageRef (hopen : s.Open) : (imageRef t).Neat t k .imageRef s := by
  have hfailed (hhead : ∀ c ∈ s.rest.head?, c.isDigit = false) :
      (imageRef t).Neat t k .imageRef s :=
    ⟨.failed, [], [], yields_imageRef_failed hopen.frozen hhead, trivial, fun _ => ⟨rfl, rfl⟩⟩
  cases hs : s.rest with
  | nil => exact hfailed (by simp [hs])
  | cons c rest =>
    by_cases hdigit : c.isDigit = true
    · obtain ⟨index, rfl, -⟩ := exists_of_isDigit hdigit
      have hrest : s.rest = Chain.indexText index ++ rest := hs
      exact (settles_imageRef index (hopen.at_self hrest)).neat ⟨index, rfl, rfl⟩
        (concerns_of_checkImage (by simp [hs]))
    · exact hfailed (by simp [hs, hdigit])

/-- The words of a number. -/
theorem length_words_number {text : List Char} {words : List Int} (h : Phrase.number text words) :
    words.length ≤ 2 * text.length := by
  obtain ⟨number, rfl, rfl⟩ := h
  have : 0 < number.run.length := List.length_pos_iff.2 number.run_ne_nil
  simp only [List.length_cons, List.length_nil]
  omega

/-- What a width and a height are read from. -/
theorem neat_size (hopen : s.Open) : (size t).Neat t k .size s := by
  -- A width, the letter between the numbers, and a height.
  refine Sound.transact hopen.frozen ((neat_number hopen).sound.andThen length_words_number ?_)
  rintro s₁ _ _ ⟨width, rfl, rfl⟩ hreads₁
  have hopen₁ := hopen.of_reads hreads₁
  refine (sound_literal (P := fun text words => text = ['x'] ∧ words = []) "x" ⟨rfl, rfl⟩).andThen
    (by rintro _ _ ⟨rfl, rfl⟩; simp) ?_
  rintro s₂ _ _ ⟨rfl, rfl⟩ hreads₂
  refine ((neat_number (hopen₁.of_reads hreads₂)).imp ?_).sound
  rintro _ _ ⟨height, rfl, rfl⟩
  exact ⟨width, height, by simp, rfl⟩

/-! ## Steps -/

/-- What a step with brackets is read from. -/
theorem neat_call {tag : Tag} {argument : Rule} {P Q : Phrase} (hopen : s.Open)
    (hargument : ∀ s', s'.Open → s'.depth = s.depth → argument.Sound t (k + 1) P s')
    (hwords : ∀ {text words}, P text words → words.length ≤ 2 * text.length)
    (hQ : ∀ {text words}, P text words → Q (Chain.callText tag text) (words ++ [tag.word])) :
    (transact (call t tag argument)).Neat t k Q s := by
  -- The bracket of the step is read before its argument, and so allows one more overlay there.
  have hbracket : (tag.mnemonic ++ "(").toList.count '(' = 1 := by
    cases tag <;> rfl
  refine Sound.transact hopen.frozen ?_
  refine (sound_literal (P := fun text words => text = (tag.mnemonic ++ "(").toList ∧ words = [])
    _ ⟨rfl, rfl⟩).andThen (by rintro _ _ ⟨rfl, rfl⟩; simp) ?_
  rintro s₁ _ _ ⟨rfl, rfl⟩ hreads₁
  have hopen₁ := hopen.of_reads hreads₁
  rw [hbracket]
  refine (hargument s₁ hopen₁ hreads₁.depth).andThen hwords ?_
  intro s₂ text words hP hreads₂
  have hopen₂ := hopen₁.of_reads hreads₂
  refine (sound_literal (P := fun text words => text = [')'] ∧ words = []) ")" ⟨rfl, rfl⟩).andThen
    (by rintro _ _ ⟨rfl, rfl⟩; simp) ?_
  rintro s₃ _ _ ⟨rfl, rfl⟩ hreads₃
  refine sound_emit (.tag tag) (hopen₂.of_reads hreads₃) ?_
  simpa [Chain.callText, toList_opening, Word.code] using hQ hP

/-- The rule `inner` reads the arguments of overlays when `depth` of them are open. -/
def SoundArgument (t : Task) (depth : Nat) (inner : Rule) : Prop :=
  ∀ s : Reading, s.Open → s.depth = depth → inner.Sound t 1 .expression s

/-- What a framing is read from. -/
theorem neat_frame (how : Framing) (hopen : s.Open) :
    (transact (call t how.tag (size t))).Neat t k .step s := by
  refine neat_call hopen (fun s₁ hopen₁ _ => (neat_size hopen₁).sound) ?_ ?_
  · rintro _ _ ⟨width, height, rfl, rfl⟩
    simp only [List.length_append, List.length_cons, List.length_nil]
    omega
  · rintro _ _ ⟨width, height, rfl, rfl⟩
    exact ⟨.frame how width height, rfl, rfl⟩

/-- What a blur is read from. -/
theorem neat_blur (hopen : s.Open) : (blur t).Neat t k .step s := by
  refine neat_call hopen (fun s₁ hopen₁ _ => (neat_number hopen₁).sound) length_words_number ?_
  rintro _ _ ⟨strength, rfl, rfl⟩
  exact ⟨.blur strength, rfl, rfl⟩

/-- What an overlay is read from. -/
theorem neat_overlayOf {inner : Rule} (hopen : s.Open) (hinner : SoundArgument t s.depth inner) :
    (overlayOf t inner).Neat t k .step s := by
  refine neat_call hopen (fun s₁ hopen₁ hdepth₁ => (hinner s₁ hopen₁ hdepth₁).mono (by omega)) ?_ ?_
  · rintro _ _ ⟨c, rfl, rfl⟩
    exact c.length_encode_prune_le
  · rintro _ _ ⟨c, rfl, rfl⟩
    exact ⟨.overlay c, rfl, rfl⟩

/-- What a step is read from. -/
theorem neat_stepOf {inner : Rule} (hopen : s.Open) (hinner : SoundArgument t s.depth inner) :
    (stepOf t inner).Neat t k .step s := by
  -- Each alternative is neat, so where it fails the next one starts at the same place.
  refine Sound.transact hopen.frozen ((neat_frame .fit hopen).orElse fun s₁ hreads₁ => ?_)
  have hopen₁ := hopen.of_reads hreads₁
  refine (neat_frame .fill hopen₁).orElse fun s₂ hreads₂ => ?_
  have hopen₂ := hopen₁.of_reads hreads₂
  have hdepth₂ : s₂.depth = s.depth := hreads₂.depth.trans hreads₁.depth
  refine (neat_overlayOf hopen₂ (hdepth₂ ▸ hinner)).orElse fun s₃ hreads₃ => ?_
  have hopen₃ := hopen₂.of_reads hreads₃
  refine (neat_blur hopen₃).orElse fun s₄ hreads₄ => ?_
  refine ((neat_imageRef (hopen₃.of_reads hreads₄)).imp ?_).sound
  rintro _ _ ⟨index, rfl, rfl⟩
  exact ⟨.image index, rfl, rfl⟩

/-- What a dot and a step are read from. -/
theorem neat_chainedStepOf {inner : Rule} (hopen : s.Open)
    (hinner : SoundArgument t s.depth inner) :
    (chainedStepOf t inner).Neat t k .chainedStep s := by
  refine Sound.transact hopen.frozen ?_
  refine (sound_literal (P := fun text words => text = ['.'] ∧ words = []) "." ⟨rfl, rfl⟩).andThen
    (by rintro _ _ ⟨rfl, rfl⟩; simp) ?_
  rintro s₁ _ _ ⟨rfl, rfl⟩ hreads₁
  refine ((neat_stepOf (hopen.of_reads hreads₁) (hreads₁.depth ▸ hinner)).imp ?_).sound
  rintro _ _ ⟨link, rfl, rfl⟩
  exact ⟨link, rfl, rfl⟩

/-! ## Chains -/

/-- The loop over the steps of a chain goes from the end of one chain to the end of another: after
each step, what was read since the start of the expression is the text of a syntax tree, and what
was written are the words of its pruned tree. -/
theorem tells_upTo {inner : Rule} (hopen : s.Open) (hinner : SoundArgument t s.depth inner)
    (n : Nat) (before : Chain) {s₁ : Reading}
    (hreads₁ : s.Reads before.text before.prune.encode s₁) :
    ∃ outcome text words s₂,
      upTo (andThen (chainedStepOf t inner) (dropDeadChain t s.buffer.mark)) n s₁ = (outcome, s₂) ∧
      s.Reads text words s₂ ∧ Tells t k .expression s text words outcome := by
  -- On the turns of the loop; the chain grows by a link in each of them.
  induction n generalizing before s₁ with
  | zero => exact ⟨.matched, _, _, s₁, rfl, hreads₁, before, rfl, rfl⟩
  | succ n ih =>
    obtain ⟨outcome, text, words, ⟨s₂, hs₂, hreads₂⟩, htells, hnothing⟩ :=
      neat_chainedStepOf (k := k + before.text.count '(') (hopen.of_reads hreads₁)
        (hreads₁.depth ▸ hinner)
    cases outcome with
    | matched =>
      obtain ⟨link, rfl, rfl⟩ := htells
      obtain ⟨s₃, hs₃, hreads₃⟩ :=
        dropDeadChain_eq (t := t) link hopen.frozen hopen.fits (hreads₁.trans hreads₂)
      rw [← Chain.text_extend, ← Chain.encode_prune_extend] at hreads₃
      obtain ⟨outcome, text, words, s₄, hs₄, hreads₄, htells⟩ := ih (before.extend link) hreads₃
      have hturn := (andThen_of_matched hs₂).trans hs₃
      exact ⟨outcome, text, words, s₄, (upTo_of_matched hturn).trans hs₄, hreads₄, htells⟩
    | failed =>
      obtain ⟨rfl, rfl⟩ := hnothing (by simp)
      have hreads := hreads₁.trans hreads₂
      rw [List.append_nil, List.append_nil] at hreads
      have hturn : andThen (chainedStepOf t inner) (dropDeadChain t s.buffer.mark) s₁ =
          (.failed, s₂) := andThen_of_failed hs₂
      exact ⟨.matched, _, _, s₂, upTo_of_failed hturn, hreads, before, rfl, rfl⟩
    | stopped fault =>
      have hturn : andThen (chainedStepOf t inner) (dropDeadChain t s.buffer.mark) s₁ =
          (.stopped fault, s₂) := andThen_of_stopped hs₂
      have hconcerns : fault.Concerns t k s :=
        htells.of_reads hreads₁ before.length_encode_prune_le (Nat.le_refl _)
      exact ⟨.stopped fault, _, _, s₂, upTo_of_stopped hturn, hreads₁.trans hreads₂, hconcerns⟩

/-- What an expression is read from. -/
theorem neat_expressionOf {inner : Rule} (hopen : s.Open)
    (hinner : SoundArgument t s.depth inner) :
    (expressionOf t inner).Neat t k .expression s := by
  refine Sound.transact hopen.frozen ?_
  obtain ⟨outcome, text, words, ⟨s₁, hs₁, hreads₁⟩, htells, -⟩ :=
    neat_imageRef (t := t) (k := k) hopen
  cases outcome with
  | failed => exact ⟨.failed, text, words, ⟨s₁, andThen_of_failed hs₁, hreads₁⟩, trivial⟩
  | stopped fault =>
    exact ⟨.stopped fault, text, words, ⟨s₁, andThen_of_stopped hs₁, hreads₁⟩, htells⟩
  | matched =>
    obtain ⟨index, rfl, rfl⟩ := htells
    obtain ⟨outcome, text, words, s₂, hs₂, hreads₂, htells⟩ :=
      tells_upTo (k := k) hopen hinner (s₁.rest.length + 1) (.root index) hreads₁
    have hrun : andThen (imageRef t)
        (many (andThen (chainedStepOf t inner) (dropDeadChain t s.buffer.mark))) s =
          (outcome, s₂) := by
      rw [andThen_of_matched hs₁, many, hs₂]
    exact ⟨outcome, text, words, ⟨s₂, hrun, hreads₂⟩, htells⟩

/-- What a rule is read from with one more overlay open. -/
theorem sound_nested {r : Rule} {P : Phrase}
    (h : r.Sound t 0 P { s with depth := s.depth + 1 }) : (nested r).Sound t 1 P s := by
  obtain ⟨outcome, text, words, ⟨s', hs', hreads⟩, htells⟩ := h
  have hnested := nested_of_eq hs'
  exact ⟨outcome, text, words, ⟨_, hnested, hreads.nested⟩, htells.imp id fun h => h.of_nested⟩

/-- What the argument of an overlay is read from, however many overlays may still be opened. -/
theorem soundArgument_nestedExpression {levels depth : Nat}
    (hlevels : levels = (t.limits.maxDepth - depth).toNat) :
    SoundArgument t depth (nestedExpression t levels) := by
  -- On the levels that are left. Without any, the depth has reached its limit.
  induction levels generalizing depth with
  | zero =>
    rintro s - rfl
    refine ⟨_, [], [], ⟨s, rfl, .refl s⟩, ?_, s.position, Nat.le_refl _, Nat.le_add_right _ _, rfl⟩
    show t.limits.maxDepth < s.depth + s.rest.count '(' + (1 : Nat)
    omega
  | succ levels ih =>
    rintro s hopen rfl
    have hopen' : Reading.Open { s with depth := s.depth + 1 } := ⟨hopen.frozen, hopen.fits⟩
    have hinner : SoundArgument t (s.depth + 1) (nestedExpression t levels) := ih (by omega)
    exact sound_nested (neat_expressionOf hopen' hinner).sound

/-- What the argument of an overlay is read from, wherever the overlay stands. -/
theorem soundArgument_argument (t : Task) (depth : Nat) : SoundArgument t depth (argument t) := by
  rintro s hopen rfl
  obtain ⟨outcome, text, words, hyields, htells⟩ :=
    soundArgument_nestedExpression (t := t) rfl s hopen rfl
  exact ⟨outcome, text, words, hyields, htells⟩

/-- What the grammar reads is the text of a syntax tree, and it writes the words of the pruned tree.
Where it does not match it leaves nothing behind, and where it stops its fault concerns the limits.
-/
theorem neat_expression (hopen : s.Open) : (expression t).Neat t k .expression s :=
  neat_expressionOf hopen (soundArgument_argument t s.depth)

end Grammar

end Montage
