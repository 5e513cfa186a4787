import Montage.Proofs.Expression.Number

/-!
# Rules and the limits

What a rule does where its text stands depends on the limits alone: a number is held to the maximum,
an image reference to the number of images, an overlay to the depth and each word to the room in the
buffer. `Rule.Accepts` says of a rule that it matches a text where a check passes and stops with the
fault of the check where it does not, and `Rule.Settles` that it then also leaves nothing behind,
which is what a transaction adds. Both are shown here for the rules without recursion.
-/

namespace Montage

namespace Task

variable (t : Task) (capacity : Nat)

/-- Room for another word when `live` words are in the buffer. -/
def room (position live : Nat) : Except Fault Unit :=
  if capacity ≤ live then
    .error (.rejected (.tooLong t.expression position (Buffer.Fault.full capacity).message))
  else .ok ()

/-- Whether a number that starts at an offset is within the maximum. -/
def checkMaximum (number : Digits) (position : Nat) : Except Fault Unit :=
  match Grammar.exceeds (Numeral.stripZeros number.run) t.limits.maxNumber with
  | .error fault => .error fault
  | .ok true => .error (.rejected (.numberTooLarge t.expression position t.limits.maxNumber))
  | .ok false => .ok ()

/-- Whether the digit at an offset names an image. -/
def checkIndex (index : Fin 10) (position : Nat) : Except Fault Unit :=
  match t.limits.imageCount with
  | some count =>
    if count ≤ index.val then
      .error (.rejected (.indexOutOfRange t.expression position index.val count))
    else .ok ()
  | none => .ok ()

/-- Whether another overlay may be opened when `opened` are open. -/
def checkDepth (opened position : Nat) : Except Fault Unit :=
  if t.limits.maxDepth ≤ opened then
    .error (.rejected (.tooDeep t.expression position t.limits.maxDepth))
  else .ok ()

/-- The checks of a number that starts at an offset. -/
def checkNumber (number : Digits) (position live : Nat) : Except Fault Unit := do
  t.checkMaximum number position
  t.room capacity (position + number.run.length) live

/-- The checks of an image reference at an offset. -/
def checkImage (index : Fin 10) (position live : Nat) : Except Fault Unit := do
  t.checkIndex index position
  t.room capacity (position + 1) live
  t.room capacity (position + 1) (live + 1)

end Task

/-- Where an open reading stands: what its buffer may and does hold, how many overlays are open, and
the text that is still to be read. -/
structure Reading.At (s : Reading) (capacity depth position live : Nat) (rest : List Char) :
    Prop where
  /-- The buffer is open. -/
  frozen : s.buffer.frozen = false
  /-- The capacity of the buffer. -/
  capacity : s.buffer.capacity = capacity
  /-- The number of open overlays. -/
  depth : s.depth = depth
  /-- The number of characters that were read. -/
  position : s.position = position
  /-- The number of words in the buffer. -/
  live : s.buffer.size = live
  /-- The words fit into the buffer. -/
  fits : s.buffer.size ≤ s.buffer.capacity
  /-- The text that is still to be read. -/
  rest : s.rest = rest

namespace Reading

variable {s s' : Reading} {capacity depth position live : Nat} {text rest : List Char}
  {words : List Int}

/-- Where a reading stands after reading a text. -/
theorem At.of_reads (h : s.At capacity depth position live (text ++ rest))
    (hreads : s.Reads text words s') :
    s'.At capacity depth (position + text.length) (live + words.length) rest where
  frozen := hreads.frozen.trans h.frozen
  capacity := hreads.capacity.trans h.capacity
  depth := hreads.depth.trans h.depth
  position := by rw [hreads.position, h.position]
  live := by rw [hreads.size, h.live]
  fits := hreads.size_within h.fits
  rest := List.append_cancel_left (hreads.rest.symm.trans h.rest)

/-- A reading stays where it is when nothing is read or written. -/
theorem At.of_nil (h : s.At capacity depth position live rest) (hreads : s.Reads [] [] s') :
    s'.At capacity depth position live rest := by
  have hnil : s.At capacity depth position live ([] ++ rest) := h
  exact hnil.of_reads hreads

end Reading

namespace Rule

variable {r q : Rule} {s s' : Reading} {text text' : List Char} {words words' : List Int}
  {outcome : Outcome} {check check' : Except Fault Unit}

/-- A rule answers, and reads a text and writes words on the way. -/
def Yields (r : Rule) (s : Reading) (outcome : Outcome) (text : List Char) (words : List Int) :
    Prop :=
  ∃ s', r s = (outcome, s') ∧ s.Reads text words s'

/-- A rule matches a text and writes words where a check passes, and stops with the fault of the
check where it does not. -/
def Accepts (r : Rule) (s : Reading) (text : List Char) (words : List Int)
    (check : Except Fault Unit) : Prop :=
  match check with
  | .ok () => r.Yields s .matched text words
  | .error fault => ∃ text' words', r.Yields s (.stopped fault) text' words'

/-- What a transaction does where its rule accepts a text: if it stops, it has read and written
nothing. -/
def Settles (r : Rule) (s : Reading) (text : List Char) (words : List Int)
    (check : Except Fault Unit) : Prop :=
  match check with
  | .ok () => r.Yields s .matched text words
  | .error fault => r.Yields s (.stopped fault) [] []

/-- What a rule settles, it accepts. -/
theorem Settles.accepts (h : r.Settles s text words check) : r.Accepts s text words check := by
  cases check with
  | ok _ => exact h
  | error fault => exact ⟨[], [], h⟩

/-- A rule that stops with the fault of the check. -/
theorem Accepts.of_stopped {fault : Fault} (s' : Reading) (h : r s = (.stopped fault, s'))
    (hreads : s.Reads text' words' s') : r.Accepts s text words (.error fault) :=
  ⟨text', words', s', h, hreads⟩

/-- Only what a rule does at a reading matters for what it accepts there. -/
theorem Accepts.congr (h : q.Accepts s text words check) (heq : r s = q s) :
    r.Accepts s text words check := by
  unfold Accepts Yields at h ⊢
  rw [heq]
  exact h

/-- A transaction matches as its rule does. -/
theorem Yields.transact_matched (h : r.Yields s .matched text words) :
    (transact r).Yields s .matched text words := by
  obtain ⟨s', hr, hreads⟩ := h
  exact ⟨s', by rw [transact_eq_of_matched (by rw [hr]), hr], hreads⟩

/-- A transaction that does not match leaves nothing behind. -/
theorem Yields.transact (hopen : s.buffer.frozen = false) (h : r.Yields s outcome text words)
    (hne : outcome ≠ .matched) : (transact r).Yields s outcome [] [] := by
  obtain ⟨s', hr, hreads⟩ := h
  have hreads' : s.Reads text words (r s).2 := by rwa [hr]
  obtain ⟨houtcome, -, hback⟩ := reads_transact hopen hreads'
  rw [hr] at houtcome hback
  exact ⟨(Rule.transact r s).2, Prod.ext houtcome rfl, hback hne⟩

/-- A transaction settles what its rule accepts. -/
theorem Accepts.transact (hopen : s.buffer.frozen = false) (h : r.Accepts s text words check) :
    (transact r).Settles s text words check := by
  cases check with
  | ok _ => exact Yields.transact_matched h
  | error fault =>
    obtain ⟨text', words', hyields⟩ := h
    exact hyields.transact hopen (by simp)

/-- What two rules accept one after the other. -/
theorem Accepts.andThen (h : r.Accepts s text words check)
    (h' : ∀ s', s.Reads text words s' → q.Accepts s' text' words' check') :
    (andThen r q).Accepts s (text ++ text') (words ++ words') (do check; check') := by
  cases check with
  | error fault =>
    obtain ⟨text₁, words₁, s₁, hr, hreads⟩ := h
    exact ⟨text₁, words₁, s₁, andThen_of_stopped hr, hreads⟩
  | ok _ =>
    -- The second rule starts where the first one has matched.
    obtain ⟨s₁, hr, hreads⟩ := h
    have hq := h' s₁ hreads
    have hboth : Rule.andThen r q s = q s₁ := andThen_of_matched hr
    show (Rule.andThen r q).Accepts s _ _ check'
    cases check' with
    | error fault =>
      obtain ⟨text₂, words₂, s₂, hs₂, hreads₂⟩ := hq
      exact ⟨_, _, s₂, hboth.trans hs₂, hreads.trans hreads₂⟩
    | ok _ =>
      obtain ⟨s₂, hs₂, hreads₂⟩ := hq
      exact ⟨s₂, hboth.trans hs₂, hreads.trans hreads₂⟩

/-- What the first of two alternatives accepts. -/
theorem Accepts.orElse_left (h : r.Accepts s text words check) :
    (orElse r q).Accepts s text words check := by
  cases check with
  | ok _ =>
    obtain ⟨s', hr, hreads⟩ := h
    exact ⟨s', orElse_of_matched hr, hreads⟩
  | error fault =>
    obtain ⟨text', words', s', hr, hreads⟩ := h
    exact ⟨text', words', s', orElse_of_stopped hr, hreads⟩

/-- What the second of two alternatives accepts, where the first one fails. -/
theorem Accepts.orElse_right (h : r.Yields s .failed [] [])
    (h' : ∀ s', s.Reads [] [] s' → q.Accepts s' text words check) :
    (orElse r q).Accepts s text words check := by
  obtain ⟨s₁, hr, hreads⟩ := h
  have hq := h' s₁ hreads
  have hsecond : orElse r q s = q s₁ := orElse_of_failed hr
  cases check with
  | ok _ =>
    obtain ⟨s₂, hs₂, hreads₂⟩ := hq
    exact ⟨s₂, hsecond.trans hs₂, hreads.trans hreads₂⟩
  | error fault =>
    obtain ⟨text₂, words₂, s₂, hs₂, hreads₂⟩ := hq
    exact ⟨text₂, words₂, s₂, hsecond.trans hs₂, hreads.trans hreads₂⟩

/-- What a rule accepts that goes over a text and then writes words. -/
theorem Accepts.of_advance {rest : List Char} (hs : s.rest = text ++ rest)
    (heq : r s = q (s.advance text.length)) (h : q.Accepts (s.advance text.length) [] words check) :
    r.Accepts s text words check := by
  have hadvance := Reading.reads_advance hs
  cases check with
  | ok _ =>
    obtain ⟨s₁, hq, hreads⟩ := h
    have hboth := hadvance.trans hreads
    rw [List.append_nil, List.nil_append] at hboth
    exact ⟨s₁, heq.trans hq, hboth⟩
  | error fault =>
    obtain ⟨text₁, words₁, s₁, hq, hreads⟩ := h
    exact ⟨_, _, s₁, heq.trans hq, hadvance.trans hreads⟩

/-- A fixed text is accepted where it stands. -/
theorem accepts_literal {literalText : String} {rest : List Char}
    (h : s.rest = literalText.toList ++ rest) :
    (literal literalText).Accepts s literalText.toList [] (.ok ()) :=
  ⟨_, literal_eq_matched h, Reading.reads_advance h⟩

/-- A fixed text fails where it does not stand. -/
theorem yields_literal {literalText : String} (h : ¬ literalText.toList <+: s.rest) :
    (literal literalText).Yields s .failed [] [] :=
  literal_eq_failed h

/-- Where the first rule fails, so do the two together. -/
theorem Yields.andThen_failed (h : r.Yields s .failed text words) :
    (andThen r q).Yields s .failed text words := by
  obtain ⟨s', hr, hreads⟩ := h
  exact ⟨s', andThen_of_failed hr, hreads⟩

variable {capacity depth position live : Nat} {rest : List Char}

/-- A word is accepted where there is room for it. -/
theorem accepts_emit (t : Task) (w : Word) (h : s.At capacity depth position live rest) :
    (emit t.expression w).Accepts s [] [w.code] (t.room capacity position live) := by
  obtain rfl := h.capacity
  obtain rfl := h.position
  obtain rfl := h.live
  unfold Task.room
  split
  · rename_i hfull
    exact .of_stopped s (emit_eq_stopped h.frozen hfull) (.refl s)
  · rename_i hroom
    exact emit_eq_matched h.frozen (by omega)

end Rule

namespace Grammar

open Rule

variable {t : Task} {s : Reading} {capacity depth position live : Nat} {rest : List Char}

/-! ## Numbers -/

/-- A run of digits up to a character that is none is what is taken. -/
theorem takeWhile_run (number : Digits) (hrest : ∀ c ∈ rest.head?, c.isDigit = false) :
    (number.run ++ rest).takeWhile Char.isDigit = number.run := by
  rw [List.takeWhile_append_of_pos (by simpa using number.isDigit_of_mem)]
  cases rest with
  | nil => simp
  | cons c rest => simp [hrest c (by simp)]

/-- A run of digits decides by itself whether its value is written. -/
theorem writeNumber_cases (t : Task) (start : Nat) (run : List Char) :
    (∃ fault, writeNumber t start run = stop fault) ∨
      ∃ w, writeNumber t start run = emit t.expression w := by
  cases hexceeds : exceeds (Numeral.stripZeros run) t.limits.maxNumber with
  | error fault => exact .inl ⟨_, isPlain_blocks.writeNumber_of_error hexceeds⟩
  | ok above =>
    cases above with
    | true => exact .inl ⟨_, isPlain_blocks.writeNumber_of_above hexceeds⟩
    | false => exact .inr ⟨_, isPlain_blocks.writeNumber_of_within hexceeds⟩

/-- The value of a run is written where the run is within the maximum and there is room. -/
theorem accepts_writeNumber (number : Digits) (start : Nat)
    (h : s.At capacity depth position live rest) :
    (writeNumber t start number.run).Accepts s [] [(number.value : Int)] (do
      t.checkMaximum number start
      t.room capacity position live) := by
  unfold Task.checkMaximum
  cases hexceeds : exceeds (Numeral.stripZeros number.run) t.limits.maxNumber with
  | error fault =>
    exact .of_stopped s (congrFun (isPlain_blocks.writeNumber_of_error hexceeds) s)
      (.refl s)
  | ok above =>
    cases above with
    | true =>
      exact .of_stopped s (congrFun (isPlain_blocks.writeNumber_of_above hexceeds) s)
        (.refl s)
    | false =>
      exact (accepts_emit t (.number (number.value : Int)) h).congr
        (congrFun (isPlain_blocks.writeNumber_of_within hexceeds) s)

/-- A number is settled within the maximum. -/
theorem settles_number (number : Digits)
    (h : s.At capacity depth position live (number.run ++ rest))
    (hrest : ∀ c ∈ rest.head?, c.isDigit = false) :
    (Grammar.number t).Settles s number.run [(number.value : Int)]
      (t.checkNumber capacity number position live) := by
  have hwrite := accepts_writeNumber (t := t) number s.position
    (h.of_reads (Reading.reads_advance h.rest))
  rw [h.position] at hwrite
  refine Accepts.transact h.frozen (Accepts.of_advance h.rest ?_ hwrite)
  -- The run ends at the first character that is no digit, so all of it is taken.
  have htake := takeWhile_run number hrest
  rw [← h.rest] at htake
  rw [← h.position]
  exact digits_of_ne_nil number.run_ne_nil htake

/-- Where no digit stands, a number fails. -/
theorem yields_number_failed (hopen : s.buffer.frozen = false)
    (hrest : ∀ c ∈ s.rest.head?, c.isDigit = false) :
    (Grammar.number t).Yields s .failed [] [] := by
  have htake : s.rest.takeWhile Char.isDigit = [] := by
    cases hs : s.rest with
    | nil => rfl
    | cons c rest => simp [hrest c (by simp [hs])]
  exact Yields.transact hopen
    ⟨s.noteFailure s.position, digits_of_nil htake, Reading.reads_noteFailure (by omega)⟩ (by simp)

/-! ## Image references -/

/-- A digit is the digit of an index, and stands for it. -/
theorem exists_of_isDigit {c : Char} (h : c.isDigit = true) :
    ∃ index : Fin 10, c = Nat.digitChar index ∧ Nat.ofDigitChars 10 [c] 0 = index.val := by
  obtain ⟨hlow, hhigh⟩ := Char.isDigit_iff_toNat.1 h
  have hlt : c.toNat - 48 < 10 := by
    have : '9'.toNat = 57 := rfl
    omega
  refine ⟨⟨c.toNat - 48, hlt⟩, ?_, ?_⟩
  · rw [← Char.toNat_inj, Nat.toNat_digitChar_of_lt_ten hlt]
    have : '0'.toNat = 48 := rfl
    omega
  · simp [Nat.ofDigitChars_cons]

/-- The digit of an index is a digit. -/
theorem isDigit_digitChar (index : Fin 10) : (Nat.digitChar index).isDigit = true := by
  rw [Nat.isDigit_digitChar, decide_eq_true index.isLt]

/-- A reference to an image is written where there is room for both of its words. -/
theorem accepts_writeImage (index : Int) (h : s.At capacity depth position live rest) :
    (writeImage t index).Accepts s [] [index, Tag.image.word] (do
      t.room capacity position live
      t.room capacity position (live + 1)) :=
  (accepts_emit t (.number index) h).andThen fun _ hreads =>
    accepts_emit t (.tag .image) (h.of_reads hreads)

/-- An index decides by itself whether a reference to its image is written. -/
theorem checkedImage_cases {R : Type} (B : GrammarBlocks R) (t : Task) (start : Nat) (index : Int) :
    (∃ fault, B.checkedImage t start index = B.stop fault) ∨
      B.checkedImage t start index = B.writeImage t index := by
  unfold GrammarBlocks.checkedImage
  split
  · split
    · exact .inl ⟨_, rfl⟩
    · exact .inr rfl
  · exact .inr rfl

/-- A reference to an image is written where its index names one and there is room. -/
theorem accepts_checkedImage (index : Fin 10) (start : Nat)
    (h : s.At capacity depth position live rest) :
    (checkedImage t start index.val).Accepts s [] [(index.val : Int), Tag.image.word] (do
      t.checkIndex index start
      t.room capacity position live
      t.room capacity position (live + 1)) := by
  have hwrite := accepts_writeImage (t := t) index.val h
  unfold checkedImage GrammarBlocks.checkedImage Task.checkIndex
  cases t.limits.imageCount with
  | none => exact hwrite
  | some count =>
    by_cases habove : count ≤ index.val
    · simp only [if_pos habove]
      exact .of_stopped s rfl (.refl s)
    · simp only [if_neg habove]
      exact hwrite

/-- An image reference is settled where its index names an image. -/
theorem settles_imageRef (index : Fin 10)
    (h : s.At capacity depth position live (Chain.indexText index ++ rest)) :
    (imageRef t).Settles s (Chain.indexText index) [(index.val : Int), Tag.image.word]
      (t.checkImage capacity index position live) := by
  -- The index is checked when the digit has been read and before anything is written.
  have hchecked := accepts_checkedImage (t := t) index position
    (h.of_reads (Reading.reads_advance h.rest))
  refine Accepts.transact h.frozen (Accepts.of_advance h.rest ?_ hchecked)
  have hvalue : Nat.ofDigitChars 10 [Nat.digitChar index] 0 = index.val := by
    rw [Nat.ofDigitChars_cons_digitChar_of_lt_ten index.isLt]
    simp
  rw [← h.position, ← hvalue]
  exact digit_of_isDigit h.rest (isDigit_digitChar index)

/-- Where no digit stands, an image reference fails. -/
theorem yields_imageRef_failed (hopen : s.buffer.frozen = false)
    (hrest : ∀ c ∈ s.rest.head?, c.isDigit = false) :
    (imageRef t).Yields s .failed [] [] :=
  Yields.transact hopen
    ⟨s.noteFailure s.position, digit_of_not hrest, Reading.reads_noteFailure (by omega)⟩ (by simp)

end Grammar

end Montage
