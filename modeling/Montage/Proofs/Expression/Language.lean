import Montage.Proofs.Expression.Compilation

/-!
# The language of expressions

`Derives` is the context-free grammar of expressions, production by production, and
`derives_expression_iff` says that its texts are those of the syntax trees. A compilation whose
limits do not restrict it recognises this language and answers the words of the pruned tree
(`compile_recognises`).
-/

namespace Montage

/-- The nonterminals of the grammar. -/
inductive Nonterminal where
  | digit
  | number
  | size
  | imageRef
  | fit
  | fill
  | blur
  | overlay
  | step
  | expression

/-- The texts that are derivable from a nonterminal. The repetition of digits recurses on the right,
that of steps on the left. -/
inductive Derives : Nonterminal → List Char → Prop where
  | digit {c : Char} (low : '0' ≤ c) (high : c ≤ '9') : Derives .digit [c]
  | number_one {d : List Char} (digit : Derives .digit d) : Derives .number d
  | number_more {d n : List Char} (digit : Derives .digit d) (number : Derives .number n) :
    Derives .number (d ++ n)
  | size {w h : List Char} (width : Derives .number w) (height : Derives .number h) :
    Derives .size (w ++ "x".toList ++ h)
  | imageRef {d : List Char} (digit : Derives .digit d) : Derives .imageRef d
  | fit {b : List Char} (box : Derives .size b) : Derives .fit ("ft(".toList ++ b ++ ")".toList)
  | fill {b : List Char} (box : Derives .size b) : Derives .fill ("fl(".toList ++ b ++ ")".toList)
  | blur {n : List Char} (strength : Derives .number n) :
    Derives .blur ("gb(".toList ++ n ++ ")".toList)
  | overlay {e : List Char} (argument : Derives .expression e) :
    Derives .overlay ("pi(".toList ++ e ++ ")".toList)
  | step_fit {u : List Char} (fit : Derives .fit u) : Derives .step u
  | step_fill {u : List Char} (fill : Derives .fill u) : Derives .step u
  | step_overlay {u : List Char} (overlay : Derives .overlay u) : Derives .step u
  | step_blur {u : List Char} (blur : Derives .blur u) : Derives .step u
  | step_imageRef {u : List Char} (image : Derives .imageRef u) : Derives .step u
  | expression_root {u : List Char} (root : Derives .imageRef u) : Derives .expression u
  | expression_step {e u : List Char} (before : Derives .expression e) (step : Derives .step u) :
    Derives .expression (e ++ ".".toList ++ u)

/-- The texts that the syntax trees have for a nonterminal. -/
def Nonterminal.Covers : Nonterminal → List Char → Prop
  | digit, text | imageRef, text => ∃ index : Fin 10, text = Chain.indexText index
  | number, text => ∃ number : Digits, text = number.run
  | size, text => ∃ width height : Digits, text = width.run ++ 'x' :: height.run
  | fit, text => ∃ width height : Digits, text = (Link.frame .fit width height).text
  | fill, text => ∃ width height : Digits, text = (Link.frame .fill width height).text
  | blur, text => ∃ strength : Digits, text = (Link.blur strength).text
  | overlay, text => ∃ argument : Chain, text = (Link.overlay argument).text
  | step, text => ∃ link : Link, text = link.text
  | expression, text => ∃ c : Chain, text = c.text

/-- A digit is a character between zero and nine. -/
theorem isDigit_iff_le {c : Char} : c.isDigit = true ↔ '0' ≤ c ∧ c ≤ '9' := by
  simp [Char.isDigit, Char.le_def]

/-- The text that is derivable from a nonterminal is that of a syntax tree. -/
theorem covers_of_derives {n : Nonterminal} {text : List Char} (h : Derives n text) :
    n.Covers text := by
  -- Along the derivation, one case for each production.
  induction h with
  | digit low high =>
    obtain ⟨index, rfl, -⟩ := Grammar.exists_of_isDigit (isDigit_iff_le.2 ⟨low, high⟩)
    exact ⟨index, rfl⟩
  | number_one _ ih =>
    obtain ⟨index, rfl⟩ := ih
    exact ⟨⟨Chain.indexText index, by simp [Chain.indexText],
      by simp [Chain.indexText]⟩, rfl⟩
  | number_more _ _ ih ih' =>
    obtain ⟨index, rfl⟩ := ih
    obtain ⟨number, rfl⟩ := ih'
    refine ⟨⟨Chain.indexText index ++ number.run, by simp [Chain.indexText], ?_⟩, rfl⟩
    simpa [Chain.indexText, Grammar.isDigit_digitChar] using number.isDigit_of_mem
  | size _ _ ih ih' =>
    obtain ⟨width, rfl⟩ := ih
    obtain ⟨height, rfl⟩ := ih'
    exact ⟨width, height, by simp⟩
  | imageRef _ ih => exact ih
  | fit _ ih | fill _ ih =>
    obtain ⟨width, height, rfl⟩ := ih
    exact ⟨width, height, rfl⟩
  | blur _ ih =>
    obtain ⟨strength, rfl⟩ := ih
    exact ⟨strength, rfl⟩
  | overlay _ ih =>
    obtain ⟨argument, rfl⟩ := ih
    exact ⟨argument, rfl⟩
  | step_fit _ ih =>
    obtain ⟨width, height, rfl⟩ := ih
    exact ⟨.frame .fit width height, rfl⟩
  | step_fill _ ih =>
    obtain ⟨width, height, rfl⟩ := ih
    exact ⟨.frame .fill width height, rfl⟩
  | step_overlay _ ih =>
    obtain ⟨argument, rfl⟩ := ih
    exact ⟨.overlay argument, rfl⟩
  | step_blur _ ih =>
    obtain ⟨strength, rfl⟩ := ih
    exact ⟨.blur strength, rfl⟩
  | step_imageRef _ ih =>
    obtain ⟨index, rfl⟩ := ih
    exact ⟨.image index, rfl⟩
  | expression_root _ ih =>
    obtain ⟨index, rfl⟩ := ih
    exact ⟨.root index, rfl⟩
  | expression_step _ _ ih ih' =>
    obtain ⟨before, rfl⟩ := ih
    obtain ⟨link, rfl⟩ := ih'
    exact ⟨before.extend link, by simp [Chain.text_extend]⟩

/-- A digit is derivable. -/
theorem derives_digit {c : Char} (h : c.isDigit = true) : Derives .digit [c] := by
  obtain ⟨low, high⟩ := isDigit_iff_le.1 h
  exact .digit low high

/-- A run of digits is derivable. -/
theorem derives_number (number : Digits) : Derives .number number.run := by
  obtain ⟨run, hne, hdigits⟩ := number
  induction run with
  | nil => exact absurd rfl hne
  | cons c run ih =>
    have hdigit := derives_digit (hdigits c List.mem_cons_self)
    by_cases hrun : run = []
    · subst hrun
      exact .number_one hdigit
    · exact .number_more hdigit (ih hrun fun d hd => hdigits d (List.mem_cons_of_mem c hd))

/-- The digit of an index is derivable. -/
theorem derives_imageRef (index : Fin 10) : Derives .imageRef (Chain.indexText index) :=
  .imageRef (derives_digit (Grammar.isDigit_digitChar index))

/-- A width and a height are derivable. -/
theorem derives_size (width height : Digits) :
    Derives .size (width.run ++ 'x' :: height.run) := by
  simpa using Derives.size (derives_number width) (derives_number height)

/-- The text of a syntax tree is derivable. -/
theorem derives_text (c : Chain) : Derives .expression c.text := by
  -- A chain with one more step is derivable by the last production.
  have hstep {before : Chain} {u : List Char} (hbefore : Derives .expression before.text)
      (h : Derives .step u) : Derives .expression (before.text ++ '.' :: u) := by
    simpa using Derives.expression_step hbefore h
  induction c with
  | root index => exact .expression_root (derives_imageRef index)
  | image before index ih => exact hstep ih (.step_imageRef (derives_imageRef index))
  | frame how before width height ih =>
    have hsize := derives_size width height
    cases how with
    | fit => exact hstep ih (.step_fit (.fit hsize))
    | fill => exact hstep ih (.step_fill (.fill hsize))
  | blur before strength ih => exact hstep ih (.step_blur (.blur (derives_number strength)))
  | overlay before argument ih ih' => exact hstep ih (.step_overlay (.overlay ih'))

/-- The language of expressions consists of the texts of the syntax trees. -/
theorem derives_expression_iff {text : List Char} :
    Derives .expression text ↔ ∃ c : Chain, text = c.text := by
  constructor
  · exact covers_of_derives
  · rintro ⟨c, rfl⟩
    exact derives_text c

/-! ## Compiling texts of the language -/

/-- Limits that do not restrict what a reading goes on with: every digit names an image, two words
may be written for each character and an overlay opened for each opening bracket, and no run of
digits is above the maximum, which can be read. -/
structure Reading.Unrestricted (t : Task) (s : Reading) : Prop where
  /-- All image references are allowed. -/
  imageCount : ∀ count, t.limits.imageCount = some count → 10 ≤ count
  /-- There is room for all words. -/
  room : s.buffer.size + 2 * s.rest.length < s.buffer.capacity
  /-- All overlays may be opened. -/
  maxDepth : (s.depth + s.rest.count '(' : Nat) ≤ t.limits.maxDepth
  /-- No number is too large. -/
  maxNumber : ∀ number : Digits, number.run <:+: s.rest → number.value ≤ t.limits.maxNumber
  /-- The maximum can be read. -/
  legible : t.limits.Legible

/-- No fault concerns limits that do not restrict a reading. -/
theorem Reading.Unrestricted.not_concerns {t : Task} {s : Reading} (h : s.Unrestricted t)
    (fault : Fault) : ¬ fault.Concerns t 0 s := by
  intro hconcerns
  cases fault with
  | buffer | missingWord => exact hconcerns
  | numeral => exact hconcerns h.legible
  | rejected rejection =>
    have hkind := hconcerns.kind
    generalize rejection.kind = kind at hkind
    cases kind with
    | ungrammatical => exact hkind
    | tooLong => exact absurd h.room (Nat.not_lt.2 hkind)
    | tooDeep =>
      have hdeep : t.limits.maxDepth < s.depth + s.rest.count '(' + (0 : Nat) := hkind
      have hroom := h.maxDepth
      omega
    | numberTooLarge =>
      obtain ⟨number, hwithin, habove⟩ := hkind
      exact absurd (h.maxNumber number hwithin) (Int.not_le.2 habove)
    | indexOutOfRange index imageCount =>
      obtain ⟨hcount, habove, -, hindex⟩ := hkind
      have hten := h.imageCount imageCount hcount
      omega

/-- Limits that do not restrict the compilation of a text: the number of images is not known, two
words may be written for each character and an overlay opened for each opening bracket, and no run
of digits in the text is above the maximum, which can be read. -/
structure Task.Unrestricted (t : Task) (capacity : Int) : Prop where
  /-- All image references are allowed. -/
  imageCount : t.limits.imageCount = none
  /-- There is room for all words. -/
  capacity : 2 * t.expression.toList.length < capacity
  /-- All overlays may be opened. -/
  maxDepth : t.expression.toList.count '(' ≤ t.limits.maxDepth
  /-- No number is too large. -/
  maxNumber : ∀ number : Digits, number.run <:+: t.expression.toList →
    number.value ≤ t.limits.maxNumber
  /-- The maximum can be read, as that of all settings can (`Settings.legible_limits_load`). -/
  legible : t.limits.Legible

/-- No fault concerns limits that do not restrict the compilation. -/
theorem Task.Unrestricted.not_concerns {t : Task} {capacity : Int} (h : t.Unrestricted capacity)
    (fault : Fault) : ¬ fault.Concerns t 0 (Reading.fresh t capacity) := by
  have hunrestricted : (Reading.fresh t capacity).Unrestricted t := by
    refine ⟨?_, ?_, ?_, h.maxNumber, h.legible⟩
    · intro count hcount
      rw [h.imageCount] at hcount
      cases hcount
    · have hroom := h.capacity
      show 0 + 2 * t.expression.toList.length < capacity.toNat
      omega
    · have hlevels := h.maxDepth
      show ((0 + t.expression.toList.count '(' : Nat) : Int) ≤ t.limits.maxDepth
      omega
  exact hunrestricted.not_concerns fault

/-- Where the limits do not restrict it, a compilation returns exactly for the texts of the language
and refuses all others as ungrammatical. Whatever syntax tree a text has, its words are those of the
tree without the steps that an image reference discards. -/
theorem compile_recognises {t : Task} {capacity : Int} (h : t.Unrestricted capacity) :
    ((∃ e, (compile t capacity).result = .ok e) ↔ Derives .expression t.expression.toList) ∧
      (¬ Derives .expression t.expression.toList → ∃ place,
        (compile t capacity).result = .error (.rejected (.ungrammatical t.expression place))) ∧
      ∀ c : Chain, c.text = t.expression.toList →
        (compile t capacity).result = .ok ⟨c.prune.encode.toArray, t.expression⟩ := by
  have hcapacity : 1 ≤ capacity := by
    have := h.capacity
    omega
  -- No limit is met, so the answer is the words of a syntax tree or that there is none.
  have hcases : (∃ c : Chain, c.text = t.expression.toList ∧
      (compile t capacity).result = .ok ⟨c.prune.encode.toArray, t.expression⟩) ∨
      (¬ Chain.Grammatical t.expression ∧ ∃ place, (compile t capacity).result =
        .error (.rejected (.ungrammatical t.expression place))) := by
    obtain hok | ⟨fault, -, hconcerns⟩ | ⟨hnone, s, -, hresult⟩ :=
      compile_cases (t := t) hcapacity
    · exact .inl hok
    · exact absurd hconcerns (h.not_concerns fault)
    · exact .inr ⟨hnone, _, hresult⟩
  have hlanguage : Derives .expression t.expression.toList ↔ Chain.Grammatical t.expression := by
    rw [derives_expression_iff, Chain.Grammatical]
    simp only [eq_comm]
  rw [hlanguage]
  refine ⟨⟨?_, fun hgrammatical => ?_⟩, fun hnot => ?_, fun c htext => ?_⟩
  · rintro ⟨e, he⟩
    obtain ⟨c, htext, -⟩ := exists_of_compile_eq_ok he
    exact ⟨c, htext⟩
  · obtain ⟨c, -, hok⟩ | ⟨hnot, -⟩ := hcases
    · exact ⟨_, hok⟩
    · exact absurd hgrammatical hnot
  · obtain ⟨c, htext, -⟩ | ⟨-, hplace⟩ := hcases
    · exact absurd ⟨c, htext⟩ hnot
    · exact hplace
  · obtain ⟨c', -, hok⟩ | ⟨hnot, -⟩ := hcases
    · rw [hok, eq_of_compile_eq_ok hok c htext]
    · exact absurd ⟨c, htext⟩ hnot

/-- The argument of an overlay is its last image reference. -/
theorem compile_recognises_overlay :
    Task.Unrestricted ⟨"0.pi(1.2)", ⟨none, 64, 2147483647⟩⟩ 1024 ∧
      (compile ⟨"0.pi(1.2)", ⟨none, 64, 2147483647⟩⟩ 1024).result =
        .ok ⟨#[0, 4, 2, 4, 2], "0.pi(1.2)"⟩ := by
  have h : Task.Unrestricted ⟨"0.pi(1.2)", ⟨none, 64, 2147483647⟩⟩ 1024 := by
    refine ⟨rfl, by decide, by decide, fun number hwithin => ?_, by decide⟩
    have hlength : number.run.length ≤ 9 := hwithin.length_le
    have hlt : number.value < _ := Numeral.ofDigitChars_lt number.isDigit_of_mem 0
    have hle : Nat.pow 10 number.run.length ≤ 1000000000 :=
      Nat.pow_le_pow_right (by omega) hlength
    show (number.value : Int) ≤ 2147483647
    omega
  exact ⟨h, (compile_recognises h).2.2 (.overlay (.root 0) (.image (.root 1) 2)) rfl⟩

end Montage
