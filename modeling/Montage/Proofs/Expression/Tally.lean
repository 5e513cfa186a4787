import Montage.Proofs.Expression.Refusal
import Mathlib.Algebra.Group.Nat.Defs

/-!
# The first violation of a limit

A tally goes through the text of an expression from left to right, piece by piece, and counts the
overlays that are open and the words that are live. It stops at the first piece that breaks a limit:
a number above the maximum, a digit that names no image, an overlay too many, or a word for which
there is no room. The main statement, `compile_eq_tally`, says that a compilation returns exactly
where the tally comes to the end of the text, and that it fails with the violation of the tally
otherwise, in words and with its place.

A maximum of more than 4300 digits has no numeral, and a compilation that meets a number then fails
before it compares anything (`compile_eq_written`). Nor are there words for a violation of a depth
below zero or of a number of images below zero that has as many digits (`compile_long_limits`).
-/

namespace Montage

/-- A piece of the text of an expression. -/
inductive Token where
  /-- A digit that refers to an image, at the start of a chain or as a step of it. -/
  | image (chained : Bool) (index : Fin 10)
  /-- A run of digits inside the brackets of a step. -/
  | number (digits : Digits)
  /-- The name of a step with its opening bracket. -/
  | opening (tag : Tag)
  /-- The closing bracket of a step. -/
  | closing (tag : Tag)
  /-- The dot before a step, or the letter between two numbers. -/
  | separator (c : Char)

/-- The characters of a piece. -/
def Token.text : Token → List Char
  | image _ index => Chain.indexText index
  | number digits => digits.run
  | opening tag => tag.mnemonic.toList ++ ['(']
  | closing _ => [')']
  | separator c => [c]

namespace Chain

/-- The pieces of an expression, in the order of its text. -/
def tokens : Chain → List Token
  | root index => [.image false index]
  | image before index => before.tokens ++ [.separator '.', .image true index]
  | frame how before width height => before.tokens ++ [.separator '.', .opening how.tag,
      .number width, .separator 'x', .number height, .closing how.tag]
  | blur before strength =>
    before.tokens ++ [.separator '.', .opening .blur, .number strength, .closing .blur]
  | overlay before argument =>
    before.tokens ++ .separator '.' :: .opening .overlay ::
      (argument.tokens ++ [.closing .overlay])

/-- The pieces of an expression make up its text. -/
theorem flatMap_text_tokens (c : Chain) : c.tokens.flatMap Token.text = c.text := by
  induction c with
  | root index => simp [tokens, text, Token.text]
  | image before index ih => simp [tokens, text, Token.text, ih]
  | frame how before width height ih => simp [tokens, text, callText, Token.text, ih]
  | blur before strength ih => simp [tokens, text, callText, Token.text, ih]
  | overlay before argument ih ih' => simp [tokens, text, callText, Token.text, ih, ih']

end Chain

/-- Whether the value of a number that starts at an offset is within the maximum. -/
def Task.checkValue (t : Task) (number : Digits) (position : Nat) : Except Fault Unit :=
  if t.limits.maxNumber < number.value then
    .error (.rejected (.numberTooLarge t.expression position t.limits.maxNumber))
  else .ok ()

/-- What was counted in the text up to a place. -/
structure Tally where
  /-- The number of characters up to the place. -/
  position : Nat
  /-- The number of live words. -/
  live : Nat
  /-- The number of live words at the start of the chain at hand. -/
  start : Nat
  /-- The same for the chains around it, one for each open overlay, the innermost first. -/
  outer : List Nat

namespace Tally

/-- Nothing was counted yet. -/
def zero : Tally :=
  ⟨0, 0, 0, []⟩

variable (t : Task) (capacity : Nat)

/-- Counts a piece. An image reference has two words, and as a step it leaves of its chain only
these; a number and a closing bracket have one word each. A violation ends the count. -/
def count (s : Tally) : Token → Except Fault Tally
  | .image chained index => do
    t.checkIndex index s.position
    t.room capacity (s.position + 1) s.live
    t.room capacity (s.position + 1) (s.live + 1)
    return { s with
      position := s.position + 1
      live := if chained then s.start + 2 else s.live + 2 }
  | .number digits => do
    t.checkValue digits s.position
    t.room capacity (s.position + digits.run.length) s.live
    return { s with position := s.position + digits.run.length, live := s.live + 1 }
  | .opening .overlay => do
    t.checkDepth s.outer.length (s.position + 3)
    return { s with position := s.position + 3, start := s.live, outer := s.start :: s.outer }
  | .opening _ => return { s with position := s.position + 3 }
  | .closing .overlay => do
    t.room capacity (s.position + 1) s.live
    return ⟨s.position + 1, s.live + 1, s.outer.headD 0, s.outer.tail⟩
  | .closing _ => do
    t.room capacity (s.position + 1) s.live
    return { s with position := s.position + 1, live := s.live + 1 }
  | .separator _ => return { s with position := s.position + 1 }

/-- Counts the pieces of a text, up to the first violation. -/
def run (tokens : List Token) (s : Tally) : Except Fault Tally :=
  tokens.foldlM (count t capacity) s

variable {t capacity}

/-- A legible maximum is compared with the value of a number. -/
theorem checkMaximum_eq (hlegible : t.limits.Legible) (number : Digits) (position : Nat) :
    t.checkMaximum number position = t.checkValue number position := by
  rw [Task.checkMaximum, Grammar.exceeds_eq_decide hlegible, Task.checkValue]
  by_cases habove : t.limits.maxNumber < number.value
  · rw [decide_eq_true habove, if_pos habove]
  · rw [decide_eq_false habove, if_neg habove]

theorem run_nil (s : Tally) : run t capacity [] s = pure s := rfl

theorem run_cons (token : Token) (tokens : List Token) (s : Tally) :
    run t capacity (token :: tokens) s = count t capacity s token >>= run t capacity tokens :=
  List.foldlM_cons

theorem run_append (tokens tokens' : List Token) (s : Tally) :
    run t capacity (tokens ++ tokens') s = run t capacity tokens s >>= run t capacity tokens' :=
  List.foldlM_append

/-- The length of a step with brackets: its name, the brackets and what stands between them. -/
theorem length_callText (tag : Tag) (argument : List Char) :
    (Chain.callText tag argument).length = 3 + argument.length + 1 := by
  cases tag <;> simp [Chain.callText, Tag.mnemonic] <;> omega

/-- The tally of the pieces of a chain passes where the checks of the chain do. It has then gone
over the text of the chain, and the words that are left of the chain are live. -/
theorem run_tokens (hlegible : t.limits.Legible) (c : Chain) (s : Tally)
    (hstart : s.start = s.live) : run t capacity c.tokens s = (do
      c.check t capacity s.outer.length s.position s.live
      return { s with
        position := s.position + c.text.length
        live := s.live + c.prune.encode.length }) := by
  -- Along the tree; the chain around an argument is put on the stack while that is counted.
  induction c generalizing s with
  | root index =>
    simp [Chain.tokens, run_cons, run_nil, count, Chain.check, Task.checkImage, Chain.text,
      Chain.prune, Node.encode, Chain.indexText, -bind_pure_comp]
  | image before index ih =>
    rw [Chain.tokens, run_append, ih s hstart]
    simp [run_cons, run_nil, count, Chain.check, Task.checkImage, hstart, Chain.text, Chain.prune,
      Node.encode, Chain.indexText, Nat.add_assoc, -bind_pure_comp]
  | frame how before width height ih =>
    have hlength : (Chain.frame how before width height).text.length =
        before.text.length + 4 + width.run.length + 1 + height.run.length + 1 := by
      rw [Chain.text, List.length_append, List.length_cons, length_callText]
      simp
      omega
    rw [Chain.tokens, run_append, ih s hstart, hlength]
    -- Both framings open and close without an overlay.
    cases how <;> simp [run_cons, run_nil, count, Chain.check, Task.checkNumber,
      checkMaximum_eq hlegible, Chain.prune, Node.encode, Framing.tag, Nat.add_assoc,
      -bind_pure_comp]
  | blur before strength ih =>
    have hlength : (Chain.blur before strength).text.length =
        before.text.length + 4 + strength.run.length + 1 := by
      rw [Chain.text, List.length_append, List.length_cons, length_callText]
      omega
    rw [Chain.tokens, run_append, ih s hstart, hlength]
    simp [run_cons, run_nil, count, Chain.check, Task.checkNumber, checkMaximum_eq hlegible,
      Chain.prune, Node.encode, Nat.add_assoc, -bind_pure_comp]
  | overlay before argument ih ih' =>
    have hlength : (Chain.overlay before argument).text.length =
        before.text.length + 4 + argument.text.length + 1 := by
      rw [Chain.text, List.length_append, List.length_cons, length_callText]
      omega
    rw [Chain.tokens, run_append, ih s hstart, hlength]
    simp [run_cons, run_nil, run_append, count, Chain.check, ih', Chain.prune, Node.encode,
      Nat.add_assoc, -bind_pure_comp]

end Tally

/-- For the text of a syntax tree and a legible maximum, a compilation returns exactly where the
tally meets no violation on its way through the text. Otherwise it fails with the first violation:
its kind, its place and what it says are those of the tally. Where the other limits can be shown
too, the violation is a refusal in words, with its place in the text. -/
theorem compile_eq_tally {t : Task} {capacity : Int} {c : Chain}
    (htext : c.text = t.expression.toList) (hcapacity : 1 ≤ capacity)
    (hlegible : t.limits.Legible) :
    c.tokens.flatMap Token.text = t.expression.toList ∧
      ((∃ e, (compile t capacity).result = .ok e) ↔
        ∃ s, Tally.run t capacity.toNat c.tokens .zero = .ok s) ∧
      ∀ violation, Tally.run t capacity.toNat c.tokens .zero = .error violation →
        (compile t capacity).result = .error violation ∧
        (t.limits.Sayable → t.expression.length < Index.wordBound →
          ∃ r, violation = .rejected r ∧ r.Stated t.expression) := by
  refine ⟨c.flatMap_text_tokens.trans htext, ?_⟩
  have hresult := result_compile_eq_map c htext hcapacity
  rw [Tally.run_tokens hlegible c .zero rfl, hresult]
  -- Both are the checks of the tree, followed by something that does not fail.
  simp only [Tally.zero, List.length_nil]
  cases hcheck : c.check t capacity.toNat 0 0 0 with
  | ok _ => exact ⟨⟨fun _ => ⟨_, rfl⟩, fun _ => ⟨_, rfl⟩⟩, nofun⟩
  | error fault =>
    refine ⟨⟨nofun, nofun⟩, fun violation hviolation => ?_⟩
    obtain rfl := Except.error.inj hviolation
    refine ⟨rfl, fun hsayable hlength => ?_⟩
    rw [hcheck] at hresult
    obtain ⟨e, he⟩ | ⟨r, hr, hstated⟩ := compile_stated hcapacity hlegible hsayable hlength
    · exact absurd (he.symm.trans hresult) nofun
    · exact ⟨r, Except.error.inj (hresult.symm.trans hr), hstated⟩

/-- The words of an expression may fit while those of a part that is dropped later do not: the tag
of the blur is the sixth word. -/
theorem compile_eq_tally_dropped :
    let t : Task := ⟨"0.pi(1.gb(7).2)", ⟨some 3, 1, 7⟩⟩
    let c := Chain.overlay (.root 0) (.image (.blur (.root 1) (.single 7)) 2)
    c.text = t.expression.toList ∧ t.limits.Legible ∧ c.prune.encode.length = 5 ∧
      (compile t 5).result = .error (.rejected (.tooLong "0.pi(1.gb(7).2)" 12
        "encode buffer capacity of 5 words exceeded")) ∧
      ∃ r, (compile t 5).result = .error (.rejected r) ∧ r.Stated t.expression := by
  intro t c
  have htext : c.text = t.expression.toList := by decide
  have hlegible : t.limits.Legible := by decide
  have hsayable : t.limits.Sayable := ⟨by decide, by decide⟩
  have hcapacity : (1 : Int) ≤ 5 := by decide
  obtain ⟨hresult, hstated⟩ := (compile_eq_tally htext hcapacity hlegible).2.2 _ rfl
  obtain ⟨r, hr, hwords⟩ := hstated hsayable (by decide)
  exact ⟨htext, hlegible, rfl, hresult, r, hresult.trans (congrArg _ hr), hwords⟩

namespace Grammar

/-- A maximum of too many digits has no numeral that a number could be held to. -/
theorem exceeds_eq_written {digits : List Char} {maximum : Int}
    (h : Numeral.longest < (Numeral.decimal maximum.natAbs).length) :
    exceeds digits maximum = .error (.numeral .written) := by
  have hwritten : Numeral.written maximum = .error .written := by
    rw [Numeral.written, if_neg (Nat.not_le.2 h)]
  rw [exceeds, NumeralBlocks.exceeds, hwritten]
  rfl

end Grammar

/-- A maximum without a numeral does not stop the tally of a small number, but the compilation of
the number fails all the same. -/
theorem compile_eq_written {maximum : Int} (hvalue : 1 ≤ maximum)
    (hlong : Numeral.longest < (Numeral.decimal maximum.natAbs).length) :
    (∃ s, Tally.run ⟨"0.gb(1)", ⟨none, 64, maximum⟩⟩ 1024
        (Chain.blur (.root 0) (.single 1)).tokens .zero = .ok s) ∧
      (compile ⟨"0.gb(1)", ⟨none, 64, maximum⟩⟩ 1024).result = .error (.numeral .written) := by
  have htext : (Chain.blur (.root 0) (.single 1)).text = "0.gb(1)".toList := by decide
  have hwithin : ¬ maximum < (Digits.single 1).value := Int.not_lt.2 hvalue
  have hexceeds (digits : List Char) :
      Grammar.exceeds digits maximum = .error (.numeral .written) :=
    Grammar.exceeds_eq_written hlong
  constructor
  · refine ⟨⟨7, 4, 0, []⟩, ?_⟩
    simp only [Chain.tokens, List.cons_append, List.nil_append, Tally.run_cons, Tally.run_nil,
      Tally.count, bind_assoc, pure_bind, Task.checkValue, if_neg hwithin]
    rfl
  · rw [result_compile_eq_map _ htext (by decide)]
    simp only [Chain.check, Task.checkNumber, Task.checkMaximum, hexceeds]
    rfl

/-- A depth below zero without a numeral ends the tally at the first overlay, and there are no words
for that. -/
theorem run_long_depth {depth : Int} (hneg : depth < 0) (hlong : ¬ Numeral.Writable depth) :
    ∃ r, Tally.run ⟨"0.pi(1)", ⟨none, depth, 7⟩⟩ 8 (Chain.overlay (.root 0) (.root 1)).tokens
        .zero = .error (.rejected r) ∧
      r.kind = .tooDeep ∧ r.describe = .error (.column .written) := by
  refine ⟨.tooDeep "0.pi(1)" 5 depth, ?_, rfl, ?_⟩
  · have hdeep : depth ≤ ([] : List Nat).length := Int.le_of_lt hneg
    simp only [Chain.tokens, List.cons_append, List.nil_append, Tally.run_cons, Tally.count,
      bind_assoc, pure_bind, Task.checkDepth, Tally.zero, if_pos hdeep]
    rfl
  · exact Rejection.describe_eq_error (n := depth) (by simp [Rejection.tooDeep]) hlong

/-- A number of images below zero without a numeral ends the tally at the first image, and there are
no words for that. -/
theorem run_long_count {count : Int} (hneg : count < 0) (hlong : ¬ Numeral.Writable count) :
    ∃ r, Tally.run ⟨"0", ⟨some count, 1, 7⟩⟩ 8 (Chain.root 0).tokens .zero =
        .error (.rejected r) ∧
      r.kind = .indexOutOfRange 0 count ∧ r.describe = .error (.column .written) := by
  refine ⟨.indexOutOfRange "0" 0 0 count, ?_, rfl, ?_⟩
  · have hmissing : count ≤ (0 : Fin 10).val := Int.le_of_lt hneg
    simp only [Chain.tokens, Tally.run_cons, Tally.count, Task.checkIndex, Tally.zero,
      if_pos hmissing]
    rfl
  · exact Rejection.describe_eq_error (n := count) (by simp [Rejection.indexOutOfRange]) hlong

/-- The tally meets no violation where the maximum is a number of 4301 digits, but the compilation
does not return. Where the depth or the number of images is the opposite of such a number, the tally
meets a violation that there are no words for. -/
theorem compile_long_limits :
    ((Chain.blur (.root 0) (.single 1)).text = "0.gb(1)".toList ∧
      (∃ s, Tally.run ⟨"0.gb(1)", ⟨none, 64, (10 ^ Numeral.longest : Nat)⟩⟩ 1024
        (Chain.blur (.root 0) (.single 1)).tokens .zero = .ok s) ∧
      (compile ⟨"0.gb(1)", ⟨none, 64, (10 ^ Numeral.longest : Nat)⟩⟩ 1024).result =
        .error (.numeral .written)) ∧
    (∃ r, Tally.run ⟨"0.pi(1)", ⟨none, -(10 ^ Numeral.longest : Nat), 7⟩⟩ 8
        (Chain.overlay (.root 0) (.root 1)).tokens .zero = .error (.rejected r) ∧
      r.kind = .tooDeep ∧ r.describe = .error (.column .written)) ∧
    ∃ r, Tally.run ⟨"0", ⟨some (-(10 ^ Numeral.longest : Nat)), 1, 7⟩⟩ 8
        (Chain.root 0).tokens .zero = .error (.rejected r) ∧
      r.kind = .indexOutOfRange 0 (-(10 ^ Numeral.longest : Nat)) ∧
      r.describe = .error (.column .written) := by
  have hone : 1 ≤ 10 ^ Numeral.longest := Nat.one_le_pow _ _ (by decide)
  have hneg : -((10 ^ Numeral.longest : Nat) : Int) < 0 := by omega
  have hlong : ¬ Numeral.Writable (-((10 ^ Numeral.longest : Nat) : Int)) :=
    Numeral.not_writable_pow (by rw [Int.natAbs_neg, Int.natAbs_natCast])
  exact ⟨⟨by decide, compile_eq_written (Int.ofNat_le.2 hone) Numeral.longest_lt_length_decimal⟩,
    run_long_depth hneg hlong, run_long_count hneg hlong⟩

end Montage
