import Montage.Proofs.Expression.Journal

/-!
# Numbers of any length

The run of a number may have any number of digits, but it is held to the maximum before it is
converted. More digits than the numeral of the maximum has, superfluous zeros apart, decide the
matter without a conversion, and the decision is the one that the values would give.

What is converted is told by a converter that notes the runs it is given. Converters of any kind are
blocks that a number is read by (`Converter.number`), and with the noting one the answers are those
of the grammar's rule and no run is converted that is longer than the numeral of the maximum
(`convertsWithin_number`). The main statement is `number_verdict`.
-/

namespace Montage

open Rule

/-! ## Converters -/

/-- What turns a run of digits into a number, with effects of its own. -/
abbrev Converter (m : Type → Type) : Type :=
  List Char → m (Option Nat)

namespace Converter

section Blocks

variable {m : Type → Type} [Monad m] (convert : Converter m)

/-- What reads a number with a converter. -/
def blocks : NumberBlocks (Reading → m (Outcome × Reading)) where
  convert digits next s := do
    let value ← convert digits
    next value s
  stop fault s := return stop fault s
  place next s := next s.position s
  digits next s := match s.rest.takeWhile Char.isDigit with
    | [] => return (.failed, s.noteFailure s.position)
    | run => next run (s.advance run.length)
  emit expression w s := return emit expression w s
  transact r s := do
    let answer ← r s
    return transact (fun _ => answer) s

/-- A run of digits, as long as possible. -/
def number (t : Task) : Reading → m (Outcome × Reading) :=
  convert.blocks.number t

end Blocks

/-- Converts runs as numerals are read, and notes each of them. -/
def noting : Converter (StateM (List (List Char))) := fun digits => do
  modify fun noted => noted ++ [digits]
  return Numeral.value? digits

/-- A computation whose converter notes the runs gives an answer, and no run that it converts is
longer than a bound. -/
def ConvertsWithin {Answer : Type} (bound : Nat) (x : StateM (List (List Char)) Answer)
    (answer : Answer) : Prop :=
  ∀ before, ∃ converted, x.run before = (answer, before ++ converted) ∧
    ∀ digits ∈ converted, digits.length ≤ bound

section Noting

variable {Answer Answer' : Type} {bound : Nat} {x : StateM (List (List Char)) Answer}
  {f : Answer → StateM (List (List Char)) Answer'} {answer : Answer} {answer' : Answer'}

/-- An answer needs no conversion. -/
theorem convertsWithin_pure (answer : Answer) : ConvertsWithin bound (pure answer) answer :=
  fun before => ⟨[], by rw [List.append_nil]; rfl, nofun⟩

/-- One computation after the other. -/
theorem ConvertsWithin.bind (hx : ConvertsWithin bound x answer)
    (hf : ConvertsWithin bound (f answer) answer') : ConvertsWithin bound (x >>= f) answer' := by
  intro before
  obtain ⟨converted, hrun, hshort⟩ := hx before
  obtain ⟨converted', hrun', hshort'⟩ := hf (before ++ converted)
  refine ⟨converted ++ converted', ?_, fun digits hdigits => ?_⟩
  · rw [StateT.run_bind, hrun, ← List.append_assoc]
    exact hrun'
  · exact (List.mem_append.1 hdigits).elim (hshort digits) (hshort' digits)

/-- A short run may be converted. -/
theorem convertsWithin_noting {digits : List Char} (h : digits.length ≤ bound) :
    ConvertsWithin bound (noting digits) (Numeral.value? digits) :=
  fun _ => ⟨[digits], rfl, fun _ hmem => List.mem_singleton.1 hmem ▸ h⟩

end Noting

/-- A short run may be converted for what follows. -/
theorem convertsWithin_convert {bound : Nat} {digits : List Char}
    {next : Option Nat → Reading → StateM (List (List Char)) (Outcome × Reading)}
    {next' : Option Nat → Rule} (hshort : digits.length ≤ bound)
    (hnext : ∀ value s, ConvertsWithin bound (next value s) (next' value s)) (s : Reading) :
    ConvertsWithin bound (noting.blocks.convert digits next s)
      (Rule.blocks.convert digits next' s) :=
  (convertsWithin_noting hshort).bind (hnext _ s)

/-- Comparing a run with the maximum converts it only if it is no longer than the numeral. A run
that is found to be within the maximum is no longer either. -/
theorem convertsWithin_exceeds {digits : List Char} {maximum : Int}
    {next : Bool → Reading → StateM (List (List Char)) (Outcome × Reading)} {next' : Bool → Rule}
    (hnext : ∀ above, (above = false → digits.length ≤ (Numeral.decimal maximum).length) →
      ∀ s, ConvertsWithin (Numeral.decimal maximum).length (next above s) (next' above s))
    (s : Reading) :
    ConvertsWithin (Numeral.decimal maximum).length (noting.blocks.exceeds digits maximum next s)
      (Rule.blocks.exceeds digits maximum next' s) := by
  unfold NumeralBlocks.exceeds
  cases hshown : Numeral.written maximum with
  | error fault => exact convertsWithin_pure _
  | ok shown =>
    obtain ⟨-, rfl⟩ := Numeral.written_eq_ok_iff.1 hshown
    by_cases hlong : (toString maximum).length < digits.length
    · simp only [if_pos hlong]
      exact hnext true nofun s
    · simp only [if_neg hlong]
      have hshort : digits.length ≤ (Numeral.decimal maximum).length := by
        rw [Numeral.decimal, String.length_toList]
        exact Nat.le_of_not_lt hlong
      refine convertsWithin_convert hshort (fun value s => ?_) s
      cases value with
      | none => exact convertsWithin_pure _
      | some n => exact hnext _ (fun _ => hshort) s

/-- The value that is written is that of a run which was compared with the maximum. -/
theorem convertsWithin_writeNumber (t : Task) (start : Nat) (run : List Char) (s : Reading) :
    ConvertsWithin (Numeral.decimal t.limits.maxNumber).length
      (noting.blocks.writeNumber t start run s) (Grammar.writeNumber t start run s) := by
  unfold Grammar.writeNumber NumberBlocks.writeNumber
  refine convertsWithin_exceeds (fun above hshort s => ?_) s
  cases above with
  | true => exact convertsWithin_pure _
  | false =>
    -- The run is converted once more, now that it is known to be within the maximum.
    refine convertsWithin_convert (hshort rfl) (fun value s => ?_) s
    cases value with
    | none => exact convertsWithin_pure _
    | some n => exact convertsWithin_pure _

/-- The rule for numbers answers as in the grammar when it notes what it converts, and it converts
no run that is longer than the numeral of the maximum. -/
theorem convertsWithin_number (t : Task) (s : Reading) :
    ConvertsWithin (Numeral.decimal t.limits.maxNumber).length (noting.number t s)
      (Grammar.number t s) := by
  have hrun : ConvertsWithin (Numeral.decimal t.limits.maxNumber).length
      (noting.blocks.digits (noting.blocks.writeNumber t s.position) s)
      (digits (Grammar.writeNumber t s.position) s) := by
    unfold digits
    simp only [blocks]
    cases s.rest.takeWhile Char.isDigit with
    | nil => exact convertsWithin_pure _
    | cons c run => exact convertsWithin_writeNumber t s.position (c :: run) _
  have hnumber : transact (fun _ => digits (Grammar.writeNumber t s.position) s) s =
      Grammar.number t s := transact_congr rfl
  rw [← hnumber]
  exact hrun.bind (convertsWithin_pure _)

end Converter

/-! ## The verdict on a number -/

/-- Nothing is dropped by a rollback to the present length. -/
theorem Buffer.rollback_mark {b : Buffer} (hopen : b.frozen = false) :
    b.rollback b.mark = .ok b := by
  simp [rollback, mark, hopen]

/-- Going back over a text that was read without writing leaves no trace. -/
theorem Rule.rewind_advance {s : Reading} (hopen : s.buffer.frozen = false) (n : Nat)
    (outcome : Outcome) : rewind s outcome (s.advance n) = (outcome, s) := by
  have hroll : (s.advance n).buffer.rollback s.buffer.mark = .ok s.buffer :=
    Buffer.rollback_mark hopen
  rw [rewind, hroll]
  rfl

/-- A run with zeros in front of it. -/
def Digits.pad (zeros : Nat) (number : Digits) : Digits where
  run := List.replicate zeros '0' ++ number.run
  run_ne_nil h := number.run_ne_nil (List.append_eq_nil_iff.1 h).2
  isDigit_of_mem c hc := (List.mem_append.1 hc).elim
    (fun hzero => (List.eq_of_mem_replicate hzero).symm ▸ rfl) (number.isDigit_of_mem c)

/-- Zeros in front of a run do not change the number that it stands for. -/
theorem Digits.value_pad (zeros : Nat) (number : Digits) :
    (number.pad zeros).value = number.value := by
  unfold value pad
  rw [Nat.ofDigitChars_append, Nat.ofDigitChars_replicate_zero, Nat.mul_zero]

/-- A reading with zeros in front of what is still to be read. -/
def Reading.pad (zeros : Nat) (s : Reading) : Reading :=
  { s with rest := List.replicate zeros '0' ++ s.rest }

/-- Zeros in front of a run of digits belong to it. -/
theorem Reading.takeWhile_pad {s : Reading} {number : Digits} (zeros : Nat)
    (hrun : s.rest.takeWhile Char.isDigit = number.run) :
    (s.pad zeros).rest.takeWhile Char.isDigit = (number.pad zeros).run := by
  have hzeros : ∀ c ∈ List.replicate zeros '0', c.isDigit = true := fun c hc =>
    (List.eq_of_mem_replicate hc).symm ▸ rfl
  show (List.replicate zeros '0' ++ s.rest).takeWhile Char.isDigit = _
  rw [List.takeWhile_append_of_pos hzeros, hrun]
  rfl

namespace Grammar

variable {t : Task} {s : Reading} {number : Digits}

/-- Where a run of digits stands, a number is that run, written or taken back. -/
theorem number_eq_transact (hrun : s.rest.takeWhile Char.isDigit = number.run) :
    Grammar.number t s = transact (fun _ =>
      writeNumber t s.position number.run (s.advance number.run.length)) s := by
  have hbody : digits (writeNumber t s.position) s =
      writeNumber t s.position number.run (s.advance number.run.length) :=
    digits_of_ne_nil number.run_ne_nil hrun
  exact transact_congr hbody

/-- A number above a legible maximum is refused, and all is as before. -/
theorem number_eq_stopped (hopen : s.buffer.frozen = false) (hlegible : t.limits.Legible)
    (hrun : s.rest.takeWhile Char.isDigit = number.run)
    (habove : t.limits.maxNumber < number.value) :
    Grammar.number t s =
      (.stopped (.rejected (.numberTooLarge t.expression s.position t.limits.maxNumber)), s) := by
  have hexceeds : exceeds (Numeral.stripZeros number.run) t.limits.maxNumber = .ok true := by
    rw [exceeds_eq_decide hlegible, decide_eq_true habove]
  have hwrite (start : Nat) (s' : Reading) : writeNumber t start number.run s' =
      (.stopped (.rejected (.numberTooLarge t.expression start t.limits.maxNumber)), s') :=
    congrFun (isPlain_blocks.writeNumber_of_above hexceeds) s'
  rw [number_eq_transact hrun, hwrite, transact_eq_of_not_matched (by simp)]
  exact rewind_advance hopen _ _

/-- A number within a legible maximum is read and written. -/
theorem number_eq_matched {b : Buffer} (hlegible : t.limits.Legible)
    (hrun : s.rest.takeWhile Char.isDigit = number.run)
    (hwithin : (number.value : Int) ≤ t.limits.maxNumber)
    (hpush : s.buffer.push (.number number.value) = .ok b) :
    Grammar.number t s = (.matched, { s.advance number.run.length with buffer := b }) := by
  have hexceeds := (exceeds_eq_false_iff hlegible).2 hwithin
  have hpush' : (s.advance number.run.length).buffer.push (.number number.value) = .ok b := hpush
  have hemit : emit t.expression (.number number.value) (s.advance number.run.length) =
      (.matched, { s.advance number.run.length with buffer := b }) := by
    simp only [emit, hpush']
  have hwrite : writeNumber t s.position number.run (s.advance number.run.length) =
      (.matched, { s.advance number.run.length with buffer := b }) :=
    (congrFun (isPlain_blocks.writeNumber_of_within hexceeds) _).trans hemit
  rw [number_eq_transact hrun, hwrite, transact_eq_of_matched rfl]

/-- The request to write a number within a legible maximum is carried out, its record included. -/
theorem serve_number {b : Buffer} (hlegible : t.limits.Legible)
    (hwithin : (number.value : Int) ≤ t.limits.maxNumber)
    (hpush : s.buffer.push (.number number.value) = .ok b) :
    s.buffer.serve (.push (.number number.value)) = (.ok .done, b) := by
  have hvalue := value?_of_exceeds ((exceeds_eq_false_iff hlegible).2 hwithin)
  have hdigits := Client.isDigit_of_mem_stripZeros number.isDigit_of_mem
  obtain ⟨text, hshown⟩ : ∃ text, (Word.number number.value).shown = .ok text :=
    Buffer.exists_shown (Client.not_isLong_of_value? hdigits hvalue)
  rw [Buffer.serve_push, hpush]
  simp only [hshown]

/-- Zeros in front of a run of digits change neither the answer nor what is written. -/
theorem number_pad (hopen : s.buffer.frozen = false) (hroom : s.buffer.size < s.buffer.capacity)
    (hlegible : t.limits.Legible) (hrun : s.rest.takeWhile Char.isDigit = number.run)
    (zeros : Nat) :
    (Grammar.number t (s.pad zeros)).1 = (Grammar.number t s).1 ∧
      (Grammar.number t (s.pad zeros)).2.buffer = (Grammar.number t s).2.buffer := by
  -- The padded run stands for the same number, so the maximum decides both alike.
  have hpadded := Reading.takeWhile_pad zeros hrun
  have hvalue := number.value_pad zeros
  rcases Int.lt_or_le t.limits.maxNumber number.value with habove | hwithin
  · rw [number_eq_stopped hopen hlegible hrun habove,
      number_eq_stopped (s := s.pad zeros) hopen hlegible hpadded (hvalue.symm ▸ habove)]
    exact ⟨rfl, rfl⟩
  · obtain ⟨b, hpush⟩ : ∃ b, s.buffer.push (.number number.value) = .ok b :=
      ⟨_, Buffer.push_eq_ok_iff.2 ⟨hopen, hroom, rfl⟩⟩
    have hpush' : (s.pad zeros).buffer.push (.number (number.pad zeros).value) = .ok b := by
      rw [hvalue]
      exact hpush
    rw [number_eq_matched hlegible hrun hwithin hpush,
      number_eq_matched hlegible hpadded (hvalue.symm ▸ hwithin) hpush']
    exact ⟨rfl, rfl⟩

/-- The length of a run only ever speeds up the verdict of the maximum. Where a run of digits stands
and there is room for a word, the number is read and written exactly if its value is at most the
maximum, and otherwise it is refused at the start of the run and nothing has changed. Zeros in front
make no difference. No run is converted that is longer than the numeral of the maximum. -/
theorem number_verdict (hopen : s.buffer.frozen = false)
    (hroom : s.buffer.size < s.buffer.capacity)
    (hmaximum : (Numeral.decimal t.limits.maxNumber.natAbs).length < Numeral.longest)
    (hrun : s.rest.takeWhile Char.isDigit = number.run) :
    ((number.value : Int) ≤ t.limits.maxNumber →
      ∃ b, s.buffer.serve (.push (.number number.value)) = (.ok .done, b) ∧
        b.words = s.buffer.words.push number.value ∧
        Grammar.number t s = (.matched, { s.advance number.run.length with buffer := b })) ∧
    (t.limits.maxNumber < number.value → Grammar.number t s =
      (.stopped (.rejected (.numberTooLarge t.expression s.position t.limits.maxNumber)), s)) ∧
    (∀ zeros, (Grammar.number t (s.pad zeros)).1 = (Grammar.number t s).1 ∧
      (Grammar.number t (s.pad zeros)).2.buffer = (Grammar.number t s).2.buffer) ∧
    Converter.ConvertsWithin (Numeral.decimal t.limits.maxNumber).length
      (Converter.noting.number t s) (Grammar.number t s) := by
  have hlegible := Limits.legible_of_length_lt hmaximum
  refine ⟨fun hwithin => ?_, number_eq_stopped hopen hlegible hrun,
    number_pad hopen hroom hlegible hrun, Converter.convertsWithin_number t s⟩
  have hpush := Buffer.push_eq_ok_iff (w := .number number.value).2 ⟨hopen, hroom, rfl⟩
  exact ⟨_, serve_number hlegible hwithin hpush, rfl,
    number_eq_matched hlegible hrun hwithin hpush⟩

/-- A number with zeros in front that is the maximum itself, and the same number when the maximum is
negative. -/
theorem number_verdict_zeros :
    let s : Reading := (Reading.start "0.gb(00099)" ⟨3, #[0, 4], false, #[]⟩).advance 5
    s.rest.takeWhile Char.isDigit = ['0', '0', '0', '9', '9'] ∧
      s.buffer.size < s.buffer.capacity ∧
      (∃ b, b.words = #[0, 4, 99] ∧ Grammar.number ⟨"0.gb(00099)", ⟨none, 64, 99⟩⟩ s =
        (.matched, { s.advance 5 with buffer := b })) ∧
      Grammar.number ⟨"0.gb(00099)", ⟨none, 64, -1⟩⟩ s =
        (.stopped (.rejected (.numberTooLarge "0.gb(00099)" 5 (-1))), s) := by
  intro s
  let number : Digits :=
    ⟨['0', '0', '0', '9', '9'], List.cons_ne_nil _ _, List.all_eq_true.1 rfl⟩
  have hrun : s.rest.takeWhile Char.isDigit = number.run := by decide
  have hroom : s.buffer.size < s.buffer.capacity := by decide
  obtain ⟨hmatched, -⟩ :=
    number_verdict (t := ⟨"0.gb(00099)", ⟨none, 64, 99⟩⟩) rfl hroom (by decide) hrun
  obtain ⟨-, hstopped, -⟩ :=
    number_verdict (t := ⟨"0.gb(00099)", ⟨none, 64, -1⟩⟩) rfl hroom (by decide) hrun
  obtain ⟨b, -, hwords, hnumber⟩ := hmatched (by decide)
  exact ⟨hrun, hroom, ⟨b, hwords, hnumber⟩, hstopped (by decide)⟩

end Grammar

end Montage
