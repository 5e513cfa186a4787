import Montage.Proofs.Expression.Room

/-!
# The canonical text of an expression

The text of the words that a text was compiled to is the text of another syntax tree:
`Chain.canonical` drops the chain before each image reference among the steps, and the superfluous
zeros of each number. The canonical tree keeps every limit that the tree itself keeps
(`within_canonical`), and it needs no more room (`peak_canonical_le`). Its text is shorter, unless
the tree is canonical already (`tidy_of_length_le`).

The main statement, `compile_rewritten`, says of every text that is compiled that the text of its
words is compiled within the same limits to the same words, that these are written as that text
again, and which texts are written as themselves.
-/

namespace Montage

/-! ## Numbers without superfluous zeros -/

namespace Numeral

/-- The value of a digit is written as that digit. -/
theorem toDigits_of_isDigit {c : Char} (h : c.isDigit = true) :
    Nat.toDigits 10 (c.toNat - '0'.toNat) = [c] := by
  obtain ⟨index, rfl, -⟩ := Grammar.exists_of_isDigit h
  have hvalue : (Nat.digitChar index).toNat - '0'.toNat = index := by
    rw [Nat.toNat_digitChar_of_lt_ten index.isLt]
    show 48 + index.val - 48 = index.val
    omega
  rw [hvalue, Nat.toDigits_of_lt_base index.isLt]

/-- Digits behind a positive number are written behind the digits of that number. -/
theorem toDigits_ofDigitChars_of_pos {run : List Char} (hrun : ∀ c ∈ run, c.isDigit = true)
    {init : Nat} (hinit : 0 < init) :
    Nat.toDigits 10 (Nat.ofDigitChars 10 run init) = Nat.toDigits 10 init ++ run := by
  induction run generalizing init with
  | nil => simp
  | cons c run ih =>
    have hdigit : c.isDigit = true := hrun c List.mem_cons_self
    have hrest : ∀ d ∈ run, d.isDigit = true := fun d hd => hrun d (List.mem_cons_of_mem c hd)
    calc Nat.toDigits 10 (Nat.ofDigitChars 10 (c :: run) init)
        = Nat.toDigits 10 (Nat.ofDigitChars 10 run (10 * init + (c.toNat - '0'.toNat))) := by
          rw [Nat.ofDigitChars_cons]
      _ = Nat.toDigits 10 (10 * init + (c.toNat - '0'.toNat)) ++ run := ih hrest (by omega)
      _ = Nat.toDigits 10 init ++ Nat.toDigits 10 (c.toNat - '0'.toNat) ++ run := by
          rw [Nat.toDigits_append_toDigits (by decide) hinit (digit_lt_ten hdigit)]
      _ = Nat.toDigits 10 init ++ c :: run := by
          rw [toDigits_of_isDigit hdigit, List.append_assoc]
          rfl

/-- The number of a run is written with the digits of the run, superfluous zeros apart. -/
theorem toDigits_ofDigitChars {run : List Char} (hrun : ∀ c ∈ run, c.isDigit = true) :
    Nat.toDigits 10 (Nat.ofDigitChars 10 run 0) = stripZeros run := by
  rw [← ofDigitChars_dropWhile run]
  unfold stripZeros
  cases hdrop : run.dropWhile (· == '0') with
  | nil => exact Nat.toDigits_zero 10
  | cons c cs =>
    obtain ⟨hdigit, hpos⟩ := digit_pos_of_dropWhile hrun hdrop
    have hcs : ∀ d ∈ cs, d.isDigit = true := fun d hd =>
      hrun d ((List.dropWhile_suffix _).subset (hdrop ▸ List.mem_cons_of_mem c hd))
    rw [Nat.ofDigitChars_cons, Nat.mul_zero, Nat.zero_add, toDigits_ofDigitChars_of_pos hcs hpos,
      toDigits_of_isDigit hdigit]
    rfl

end Numeral

namespace Digits

/-- A run has a superfluous zero at its start. -/
def Padded (d : Digits) : Prop :=
  ∃ rest, rest ≠ [] ∧ d.run = '0' :: rest

/-- The number of a run is written without the superfluous zeros of the run. -/
theorem run_ofNat_value (d : Digits) : (ofNat d.value).run = Numeral.stripZeros d.run :=
  Numeral.toDigits_ofDigitChars d.isDigit_of_mem

/-- A run without superfluous zeros is what its number is written with. -/
theorem ofNat_value_of_not_padded {d : Digits} (h : ¬ d.Padded) : ofNat d.value = d := by
  have hrun : Numeral.stripZeros d.run = d.run := by
    unfold Numeral.stripZeros
    match hd : d.run with
    | [] => exact absurd hd d.run_ne_nil
    | c :: rest =>
      by_cases hc : c = '0'
      · subst hc
        have hrest : rest = [] := Decidable.byContradiction fun hne => h ⟨rest, hne, hd⟩
        rw [hrest]
        rfl
      · rw [List.dropWhile_cons_of_neg (by simpa using hc)]
  have heq := d.run_ofNat_value.trans hrun
  cases d
  simpa [ofNat] using heq

/-- A run with superfluous zeros is longer than what its number is written with. -/
theorem length_ofNat_value_lt {d : Digits} (h : d.Padded) :
    (ofNat d.value).run.length < d.run.length := by
  obtain ⟨rest, hne, hd⟩ := h
  have hpos : 0 < rest.length := List.length_pos_iff.2 hne
  have hsuffix : (rest.dropWhile (· == '0')).length ≤ rest.length :=
    (List.dropWhile_suffix _).length_le
  rw [run_ofNat_value, hd]
  unfold Numeral.stripZeros
  rw [List.dropWhile_cons_of_pos (by rfl)]
  split
  · simpa using hpos
  · simpa using Nat.lt_succ_of_le hsuffix

/-- A run that is not longer than what its number is written with has no superfluous zeros. -/
theorem not_padded_of_length_le {d : Digits} (h : d.run.length ≤ (ofNat d.value).run.length) :
    ¬ d.Padded := fun hpadded =>
  Nat.not_lt.2 h (length_ofNat_value_lt hpadded)

/-- No run is shorter than what its number is written with. -/
theorem length_ofNat_value_le (d : Digits) : (ofNat d.value).run.length ≤ d.run.length := by
  by_cases h : d.Padded
  · exact Nat.le_of_lt (length_ofNat_value_lt h)
  · exact Nat.le_of_eq (by rw [ofNat_value_of_not_padded h])

end Digits

namespace Limits

variable {limits : Limits} {d : Digits}

/-- Superfluous zeros do not count when a number is held to the maximum. -/
theorem AllowsNumber.ofNat_value (h : limits.AllowsNumber d) :
    limits.AllowsNumber (.ofNat d.value) := by
  have hstrip : Numeral.stripZeros (Digits.ofNat d.value).run = Numeral.stripZeros d.run := by
    rw [← Digits.run_ofNat_value, Digits.value_ofNat, Digits.run_ofNat_value]
  unfold AllowsNumber
  rw [hstrip]
  exact h

/-- A number that was held to the maximum is not too long to be written. -/
theorem AllowsNumber.written (h : limits.AllowsNumber d) :
    Numeral.written d.value = .ok (toString (d.value : Int)) := by
  have hvalue := Grammar.value?_of_exceeds h
  have hshort : (Digits.ofNat d.value).run.length ≤ Numeral.longest := by
    rw [Digits.run_ofNat_value]
    exact (Numeral.value?_eq_some_iff.1 hvalue).1
  rw [Numeral.written_eq_ok_iff]
  refine ⟨?_, rfl⟩
  rw [Numeral.decimal, toList_toString_of_nonneg (Int.natCast_nonneg _)]
  exact hshort

end Limits

/-! ## The canonical syntax tree -/

namespace Chain

/-- The syntax tree without the chains that are discarded, and without superfluous zeros. -/
def canonical : Chain → Chain
  | root index => root index
  | image _ index => root index
  | frame how before width height =>
    frame how before.canonical (.ofNat width.value) (.ofNat height.value)
  | blur before strength => blur before.canonical (.ofNat strength.value)
  | overlay before argument => overlay before.canonical argument.canonical

/-- The numbers of an expression, those of discarded chains included. -/
def numbers : Chain → List Digits
  | root _ => []
  | image before _ => before.numbers
  | frame _ before width height => before.numbers ++ [width, height]
  | blur before strength => before.numbers ++ [strength]
  | overlay before argument => before.numbers ++ argument.numbers

/-- An expression with nothing superfluous in it. -/
structure Tidy (c : Chain) : Prop where
  /-- No image reference stands among the steps of a chain. -/
  plain : c.Plain
  /-- No number has a superfluous zero. -/
  unpadded : ∀ d ∈ c.numbers, ¬ d.Padded

/-- The canonical tree stands for the same operations. -/
@[simp]
theorem prune_canonical (c : Chain) : c.canonical.prune = c.prune := by
  induction c with
  | root index => rfl
  | image before index ih => rfl
  | frame how before width height ih => simp [canonical, prune, ih]
  | blur before strength ih => simp [canonical, prune, ih]
  | overlay before argument ih ih' => simp [canonical, prune, ih, ih']

theorem plain_canonical (c : Chain) : c.canonical.Plain := by
  induction c with
  | root index => trivial
  | image before index ih => trivial
  | frame how before width height ih => exact ih
  | blur before strength ih => exact ih
  | overlay before argument ih ih' => exact ⟨ih, ih'⟩

/-- The canonical tree is within the limits that the tree is within. -/
theorem within_canonical {limits : Limits} {opened : Nat} {c : Chain} (h : c.Within limits opened) :
    c.canonical.Within limits opened := by
  induction c generalizing opened with
  | root index => exact h
  | image before index ih => exact h.2
  | frame how before width height ih =>
    obtain ⟨hbefore, hwidth, hheight⟩ := h
    exact ⟨ih hbefore, hwidth.ofNat_value, hheight.ofNat_value⟩
  | blur before strength ih => exact ⟨ih h.1, h.2.ofNat_value⟩
  | overlay before argument ih ih' =>
    obtain ⟨hbefore, hdepth, hargument⟩ := h
    exact ⟨ih hbefore, hdepth, ih' hargument⟩

/-- The canonical tree needs no more room. -/
theorem peak_canonical_le (c : Chain) : c.canonical.peak ≤ c.peak := by
  rw [peak_eq_of_plain c.plain_canonical, prune_canonical]
  exact c.length_encode_prune_le_peak

/-- The operations of an expression are written as the canonical text. -/
theorem text_canonical (c : Chain) : c.canonical.text = c.prune.text.toList := by
  have hindex (index : Fin 10) : indexText index = (toString (index.val : Int)).toList := by
    rw [toList_toString_of_nonneg (Int.natCast_nonneg _)]
    exact (Nat.toDigits_of_lt_base index.isLt).symm
  have hnumber (d : Digits) : (Digits.ofNat d.value).run = (toString (d.value : Int)).toList := by
    rw [toList_toString_of_nonneg (Int.natCast_nonneg _)]
    rfl
  induction c with
  | root index => exact hindex index
  | image before index ih => exact hindex index
  | frame how before width height ih =>
    rw [prune, Node.toList_text_frame, ← ih, ← hnumber, ← hnumber]
    rfl
  | blur before strength ih =>
    rw [prune, Node.toList_text_blur, ← ih, ← hnumber]
    rfl
  | overlay before argument ih ih' =>
    rw [prune, Node.toList_text_overlay, ← ih, ← ih']
    rfl

/-- A tree with nothing superfluous in it is canonical. -/
theorem canonical_eq_self {c : Chain} (h : c.Tidy) : c.canonical = c := by
  obtain ⟨hplain, hunpadded⟩ := h
  induction c with
  | root index => rfl
  | image before index ih => exact hplain.elim
  | frame how before width height ih =>
    have hbefore : before.canonical = before :=
      ih hplain fun d hd => hunpadded d (by simp [numbers, hd])
    have hwidth := Digits.ofNat_value_of_not_padded (hunpadded width (by simp [numbers]))
    have hheight := Digits.ofNat_value_of_not_padded (hunpadded height (by simp [numbers]))
    rw [canonical, hbefore, hwidth, hheight]
  | blur before strength ih =>
    have hbefore : before.canonical = before :=
      ih hplain fun d hd => hunpadded d (by simp [numbers, hd])
    have hstrength := Digits.ofNat_value_of_not_padded (hunpadded strength (by simp [numbers]))
    rw [canonical, hbefore, hstrength]
  | overlay before argument ih ih' =>
    have hbefore : before.canonical = before :=
      ih hplain.1 fun d hd => hunpadded d (by simp [numbers, hd])
    have hargument : argument.canonical = argument :=
      ih' hplain.2 fun d hd => hunpadded d (by simp [numbers, hd])
    rw [canonical, hbefore, hargument]

/-- The canonical text is not longer. -/
theorem length_text_canonical_le (c : Chain) : c.canonical.text.length ≤ c.text.length := by
  induction c with
  | root index => exact Nat.le_refl _
  | image before index ih => simp [canonical, text, indexText]
  | frame how before width height ih =>
    have hwidth := width.length_ofNat_value_le
    have hheight := height.length_ofNat_value_le
    simp only [canonical, text, callText, List.length_append, List.length_cons, List.length_nil]
    omega
  | blur before strength ih =>
    have hstrength := strength.length_ofNat_value_le
    simp only [canonical, text, callText, List.length_append, List.length_cons, List.length_nil]
    omega
  | overlay before argument ih ih' =>
    simp only [canonical, text, callText, List.length_append, List.length_cons, List.length_nil]
    omega

/-- Only where nothing is superfluous is the canonical text not shorter. -/
theorem tidy_of_length_le {c : Chain} (h : c.text.length ≤ c.canonical.text.length) : c.Tidy := by
  -- Along the tree. No part of the canonical text is longer than the part that it stands for, so
  -- none is shorter either.
  induction c with
  | root index => exact ⟨trivial, nofun⟩
  | image before index ih =>
    have hpos : 0 < before.text.length := List.length_pos_iff.2 before.text_ne_nil
    simp only [canonical, text, indexText, List.length_append, List.length_cons,
      List.length_nil] at h
    omega
  | frame how before width height ih =>
    have hbefore := before.length_text_canonical_le
    have hwidth := width.length_ofNat_value_le
    have hheight := height.length_ofNat_value_le
    simp only [canonical, text, callText, List.length_append, List.length_cons,
      List.length_nil] at h
    obtain ⟨hplain, hunpadded⟩ := ih (by omega)
    have hwidth' := Digits.not_padded_of_length_le (d := width) (by omega)
    have hheight' := Digits.not_padded_of_length_le (d := height) (by omega)
    refine ⟨hplain, ?_⟩
    simpa [numbers, or_imp, forall_and, hwidth', hheight'] using hunpadded
  | blur before strength ih =>
    have hbefore := before.length_text_canonical_le
    have hstrength := strength.length_ofNat_value_le
    simp only [canonical, text, callText, List.length_append, List.length_cons,
      List.length_nil] at h
    obtain ⟨hplain, hunpadded⟩ := ih (by omega)
    have hstrength' := Digits.not_padded_of_length_le (d := strength) (by omega)
    refine ⟨hplain, ?_⟩
    simpa [numbers, or_imp, forall_and, hstrength'] using hunpadded
  | overlay before argument ih ih' =>
    have hbefore := before.length_text_canonical_le
    have hargument := argument.length_text_canonical_le
    simp only [canonical, text, callText, List.length_append, List.length_cons,
      List.length_nil] at h
    obtain ⟨hplain, hunpadded⟩ := ih (by omega)
    obtain ⟨hplain', hunpadded'⟩ := ih' (by omega)
    refine ⟨⟨hplain, hplain'⟩, fun d hd => ?_⟩
    rcases List.mem_append.1 hd with hd | hd
    · exact hunpadded d hd
    · exact hunpadded' d hd

/-- An expression is written as itself exactly where nothing in it is superfluous. -/
theorem text_canonical_eq_iff {c : Chain} : c.canonical.text = c.text ↔ c.Tidy := by
  constructor
  · intro h
    exact tidy_of_length_le (Nat.le_of_eq (congrArg List.length h.symm))
  · intro h
    rw [canonical_eq_self h]

/-- The operands of an expression within the limits are not too long to be written. -/
theorem written_of_mem_operands {limits : Limits} {opened : Nat} {c : Chain}
    (h : c.Within limits opened) {k : Int} (hk : k ∈ c.prune.operands) :
    Numeral.written k = .ok (toString k) :=
  h.forall_operands (P := fun k => Numeral.written k = .ok (toString k))
    (fun _ hnumber => hnumber.written) k hk

/-- Images are referred to by one digit. -/
theorem digit_of_mem_images (c : Chain) : ∀ i ∈ c.prune.images, 0 ≤ i ∧ i < 10 := by
  have hdigit (index : Fin 10) : ∀ i ∈ (Node.image index.val).images, 0 ≤ i ∧ i < 10 := by
    simp only [Node.images, List.mem_singleton, forall_eq]
    omega
  induction c with
  | root index => exact hdigit index
  | image before index ih => exact hdigit index
  | frame how before width height ih => exact ih
  | blur before strength ih => exact ih
  | overlay before argument ih ih' => exact List.forall_mem_append.2 ⟨ih, ih'⟩

end Chain

/-! ## Compiling and writing out -/

variable {t : Task} {capacity : Int} {e : Encoded} {c : Chain}

/-- Numbers of which none is too long can all be written. -/
theorem Numeral.mapM_written {numbers : List Int}
    (h : ∀ k ∈ numbers, Numeral.written k = .ok (toString k)) :
    numbers.mapM Numeral.written = .ok (numbers.map toString) := by
  induction numbers with
  | nil => rfl
  | cons k rest ih =>
    rw [List.mapM_cons, h k List.mem_cons_self, ih fun k hk => h k (List.mem_cons_of_mem _ hk)]
    rfl

/-- The words of a syntax tree of which no number is too long are written as its canonical text. -/
theorem text_encode_prune (c : Chain)
    (h : ∀ k ∈ c.prune.operands, Numeral.written k = .ok (toString k)) :
    Words.text c.prune.encode = .ok (String.ofList c.canonical.text) := by
  have hdecode : Node.decode c.prune.encode = .ok c.prune := Node.decode_eq_ok_iff.2 rfl
  have hnumbers : ∀ k ∈ c.prune.images ++ c.prune.operands,
      Numeral.written k = .ok (toString k) := by
    refine List.forall_mem_append.2 ⟨fun k hk => ?_, h⟩
    obtain ⟨hpos, hlt⟩ := c.digit_of_mem_images k hk
    have hdigit : k.natAbs < 10 ^ 1 := by omega
    exact (Numeral.writable_of_lt (by decide) (by decide) hdigit).written_eq
  unfold Words.text Words.view
  rw [hdecode, Chain.text_canonical, String.ofList_toList]
  dsimp only [bind, Except.bind]
  rw [Numeral.mapM_written hnumbers]
  rfl

/-- What can be compiled can also be compiled in its canonical form, to the same words. -/
theorem compile_canonical (htext : c.text = t.expression.toList)
    (h : (compile t capacity).result = .ok e) :
    (compile ⟨String.ofList c.canonical.text, t.limits⟩ capacity).result =
      .ok ⟨c.prune.encode.toArray, String.ofList c.canonical.text⟩ := by
  let t' : Task := ⟨String.ofList c.canonical.text, t.limits⟩
  have htext' : c.canonical.text = t'.expression.toList := String.toList_ofList.symm
  obtain ⟨hwithin, hroom⟩ := Chain.check_eq_ok_iff_within.1 (check_of_compile htext h)
  have hless := c.peak_canonical_le
  have hcheck : c.canonical.check t' capacity.toNat 0 0 0 = .ok () :=
    Chain.check_eq_ok_iff_within.2 ⟨Chain.within_canonical hwithin, by omega⟩
  rw [result_compile_eq_map c.canonical htext' (one_le_of_compile h), hcheck, c.prune_canonical]
  rfl

/-- Let a text be compiled. The text of its words, whose numbers are none too long to be written, is
compiled within the same limits and to the same words, and these are written as that text again.
It is the text that was compiled exactly where no number has a superfluous zero and no image
reference stands among the steps of a chain. -/
theorem compile_rewritten (h : (compile t capacity).result = .ok e) :
    ∃ n, Node.decode e.words.toList = .ok n ∧
      (∀ k ∈ n.operands, Numeral.written k = .ok (toString k)) ∧
      ∃ u, Words.text e.words.toList = .ok u ∧
        (∃ e', (compile ⟨u, t.limits⟩ capacity).result = .ok e' ∧ e'.words = e.words ∧
          Words.text e'.words.toList = .ok u) ∧
        (∃ c : Chain, c.text = t.expression.toList) ∧
        ∀ c : Chain, c.text = t.expression.toList → (u = t.expression ↔ c.Tidy) := by
  obtain ⟨c, htext, rfl⟩ := exists_of_compile_eq_ok h
  have hwritten : ∀ k ∈ c.prune.operands, Numeral.written k = .ok (toString k) :=
    fun k => Chain.written_of_mem_operands (within_of_compile htext h)
  refine ⟨c.prune, Node.decode_eq_ok_iff.2 rfl, hwritten, String.ofList c.canonical.text,
    text_encode_prune c hwritten, ?_, ⟨c, htext⟩, fun c' htext' => ?_⟩
  · exact ⟨_, compile_canonical htext h, rfl, text_encode_prune c hwritten⟩
  · -- Whatever other syntax tree the text has, it stands for the same operations.
    have hwords : c.prune.encode = c'.prune.encode := by
      simpa using congrArg Encoded.words (eq_of_compile_eq_ok h c' htext')
    have hcanonical : String.ofList c.canonical.text = String.ofList c'.canonical.text := by
      have hwritten' : ∀ k ∈ c'.prune.operands, Numeral.written k = .ok (toString k) :=
        fun k => Chain.written_of_mem_operands (within_of_compile htext' h)
      have hu := text_encode_prune c hwritten
      rw [hwords, text_encode_prune c' hwritten'] at hu
      exact (Except.ok.inj hu).symm
    rw [hcanonical, ← Chain.text_canonical_eq_iff, htext', ← String.toList_inj,
      String.toList_ofList]

/-- An argument of which only the last image reference is left, and a number with a superfluous
zero: the canonical text has neither. -/
theorem compile_rewritten_padded :
    let t : Task := ⟨"0.pi(1.gb(7).2).gb(01)", ⟨some 3, 1, 7⟩⟩
    (compile t 8).result = .ok ⟨#[0, 4, 2, 4, 2, 1, 3], t.expression⟩ ∧
      Words.text [0, 4, 2, 4, 2, 1, 3] = .ok "0.pi(2).gb(1)" ∧
      ∃ e', (compile ⟨"0.pi(2).gb(1)", t.limits⟩ 8).result = .ok e' ∧
        e'.words = #[0, 4, 2, 4, 2, 1, 3] := by
  intro t
  let one : Digits := ⟨['0', '1'], List.cons_ne_nil _ _, List.all_eq_true.1 rfl⟩
  let c := Chain.blur (.overlay (.root 0) (.image (.blur (.root 1) (.single 7)) 2)) one
  have htext : c.text = t.expression.toList := by decide
  have hwithin : c.Within t.limits 0 := by decide
  have hcheck : c.check t 8 0 0 0 = .ok () :=
    Chain.check_eq_ok_iff_within.2 ⟨hwithin, by decide⟩
  have hcompile : (compile t 8).result = .ok ⟨#[0, 4, 2, 4, 2, 1, 3], t.expression⟩ := by
    rw [result_compile_eq_map c htext (by decide)]
    exact congrArg (Except.map _) hcheck
  obtain ⟨-, -, -, u, hu, ⟨e', he', hwords, -⟩, -, -⟩ := compile_rewritten hcompile
  have hshown : Words.text [0, 4, 2, 4, 2, 1, 3] = .ok "0.pi(2).gb(1)" := by
    have hcanonical : String.ofList c.canonical.text = "0.pi(2).gb(1)" := by decide
    rw [← hcanonical]
    exact text_encode_prune c fun k => Chain.written_of_mem_operands hwithin
  obtain rfl : u = "0.pi(2).gb(1)" := Except.ok.inj (hu.symm.trans hshown)
  exact ⟨hcompile, hshown, e', he', hwords⟩

end Montage
