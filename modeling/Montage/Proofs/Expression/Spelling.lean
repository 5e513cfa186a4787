import Montage.Expression.Render
import Montage.Proofs.Expression.Walk

/-!
# The text of an operation tree

A tree of operations is written as the text of a syntax tree that has no image references among its
steps, as long as each index is a digit and no operand is negative (`exists_of_writable`). All other
trees have texts that are no expressions: `scan` is a finite automaton that comes through the text
of every syntax tree, and dies at a minus sign and at the second digit of an index
(`grammatical_text_iff`).
-/

namespace Montage

namespace Node

/-- The numbers of a tree can be written in the language. -/
structure Writable (n : Node) : Prop where
  /-- An index is written as one digit. -/
  index : ∀ i ∈ n.images, 0 ≤ i ∧ i ≤ 9
  /-- An operand has no sign. -/
  operand : ∀ k ∈ n.operands, 0 ≤ k

end Node

/-! ## Numbers -/

/-- The digits of a number, without superfluous zeros. -/
def Digits.ofNat (k : Nat) : Digits where
  run := Nat.toDigits 10 k
  run_ne_nil := Nat.toDigits_ne_nil
  isDigit_of_mem _ h := Nat.isDigit_of_mem_toDigits (by decide) (by decide) h

@[simp]
theorem Digits.value_ofNat (k : Nat) : (Digits.ofNat k).value = k :=
  Nat.ofDigitChars_ten_toDigits

/-- A number that is not negative is written with its digits. -/
theorem toList_toString_of_nonneg {k : Int} (h : 0 ≤ k) :
    (toString k).toList = (Digits.ofNat k.toNat).run := by
  obtain ⟨m, rfl⟩ := Int.eq_ofNat_of_zero_le h
  exact Nat.toList_repr

/-- A negative number is written with a minus sign. -/
theorem exists_of_neg {k : Int} (h : k < 0) : ∃ digits, (toString k).toList = '-' :: digits := by
  cases k with
  | ofNat m =>
    have : (0 : Int) ≤ Int.ofNat m := Int.natCast_nonneg m
    omega
  | negSucc m =>
    refine ⟨(m + 1).repr.toList, ?_⟩
    show ("-" ++ (m + 1).repr).toList = _
    rw [String.toList_append]
    rfl

/-! ## Trees that can be written -/

namespace Node

theorem toString_string (s : String) : toString s = s := rfl

/-- The text of a step with a box. -/
theorem toList_text_frame (how : Framing) (source : Node) (width height : Int) :
    (frame how source width height).text.toList = source.text.toList ++ '.' ::
      Chain.callText how.tag ((toString width).toList ++ 'x' :: (toString height).toList) := by
  simp [text, Chain.callText, toString_string]

/-- The text of a blurring step. -/
theorem toList_text_blur (source : Node) (strength : Int) :
    (blur source strength).text.toList = source.text.toList ++
      '.' :: Chain.callText .blur (toString strength).toList := by
  simp [text, Chain.callText, toString_string]

/-- The text of an overlay. -/
theorem toList_text_overlay (source argument : Node) :
    (overlay source argument).text.toList = source.text.toList ++
      '.' :: Chain.callText .overlay argument.text.toList := by
  simp [text, Chain.callText]

end Node

namespace Chain

/-- A syntax tree with no image references among its steps. -/
def Plain : Chain → Prop
  | root _ => True
  | image _ _ => False
  | frame _ before _ _ => before.Plain
  | blur before _ => before.Plain
  | overlay before argument => before.Plain ∧ argument.Plain

end Chain

/-- A tree whose numbers can be written is written as the text of a plain syntax tree. -/
theorem Node.exists_of_writable {n : Node} (h : n.Writable) :
    ∃ c : Chain, c.text = n.text.toList ∧ c.prune = n ∧ c.Plain := by
  -- Along the tree; every number is written with the fewest digits.
  induction n with
  | image index =>
    obtain ⟨hlow, hhigh⟩ := h.index index (by simp [images])
    have hlt : index.toNat < 10 := by omega
    refine ⟨.root ⟨index.toNat, hlt⟩, ?_, ?_, trivial⟩
    · show [Nat.digitChar index.toNat] = (toString index).toList
      rw [toList_toString_of_nonneg hlow]
      exact (Nat.toDigits_of_lt_base hlt).symm
    · simp [Chain.prune, Int.toNat_of_nonneg hlow]
  | frame how source width height ih =>
    have hwidth : 0 ≤ width := h.operand width (by simp [operands])
    have hheight : 0 ≤ height := h.operand height (by simp [operands])
    obtain ⟨c, htext, hprune, hplain⟩ :=
      ih ⟨h.index, fun k hk => h.operand k (by simp [operands, hk])⟩
    refine ⟨.frame how c (.ofNat width.toNat) (.ofNat height.toNat), ?_, ?_, hplain⟩
    · rw [toList_text_frame, ← htext, toList_toString_of_nonneg hwidth,
        toList_toString_of_nonneg hheight]
      rfl
    · simp [Chain.prune, hprune, Int.toNat_of_nonneg hwidth, Int.toNat_of_nonneg hheight]
  | blur source strength ih =>
    have hstrength : 0 ≤ strength := h.operand strength (by simp [operands])
    obtain ⟨c, htext, hprune, hplain⟩ :=
      ih ⟨h.index, fun k hk => h.operand k (by simp [operands, hk])⟩
    refine ⟨.blur c (.ofNat strength.toNat), ?_, ?_, hplain⟩
    · rw [toList_text_blur, ← htext, toList_toString_of_nonneg hstrength]
      rfl
    · simp [Chain.prune, hprune, Int.toNat_of_nonneg hstrength]
  | overlay source argument ih ih' =>
    obtain ⟨c, htext, hprune, hplain⟩ :=
      ih ⟨fun i hi => h.index i (by simp [images, hi]),
        fun k hk => h.operand k (by simp [operands, hk])⟩
    obtain ⟨c', htext', hprune', hplain'⟩ :=
      ih' ⟨fun i hi => h.index i (by simp [images, hi]),
        fun k hk => h.operand k (by simp [operands, hk])⟩
    refine ⟨.overlay c c', ?_, ?_, hplain, hplain'⟩
    · rw [toList_text_overlay, ← htext, ← htext']
      rfl
    · simp [Chain.prune, hprune, hprune']

/-! ## The automaton -/

/-- Where an automaton stands in the text of an expression. -/
inductive Phase where
  /-- An index stands next. -/
  | opening
  /-- An index was read. -/
  | index
  /-- The letter before the bracket of an overlay was read. -/
  | letter
  /-- Anything else was read. -/
  | inside
  /-- The text is no expression. -/
  | dead
  deriving DecidableEq, Repr

namespace Phase

/-- The phase after a character that does not belong to an index. -/
def later (c : Char) : Phase :=
  if c = '-' then dead else if c = 'i' then letter else inside

/-- The phase after one more character. -/
def next : Phase → Char → Phase
  | opening, c => if c.isDigit then index else dead
  | index, c => if c.isDigit then dead else later c
  | letter, c => if c = '(' then opening else later c
  | inside, c => later c
  | dead, _ => dead

/-- The phase after a text. -/
def scan (p : Phase) (text : List Char) : Phase :=
  text.foldl next p

@[simp]
theorem scan_nil (p : Phase) : p.scan [] = p := rfl

@[simp]
theorem scan_cons (p : Phase) (c : Char) (text : List Char) :
    p.scan (c :: text) = (p.next c).scan text := rfl

@[simp]
theorem scan_append (p : Phase) (text text' : List Char) :
    p.scan (text ++ text') = (p.scan text).scan text' :=
  List.foldl_append

/-- Nothing is read any more. -/
@[simp]
theorem scan_dead (text : List Char) : dead.scan text = dead := by
  induction text with
  | nil => rfl
  | cons c text ih => exact ih

/-- The end of an expression. -/
def Done (p : Phase) : Prop :=
  p = index ∨ p = inside

/-- After an expression a step may follow, or the end of an overlay. -/
theorem Done.next {p : Phase} (h : p.Done) {c : Char} (hc : c = '.' ∨ c = ')') :
    p.next c = inside := by
  obtain rfl | rfl := h <;> obtain rfl | rfl := hc <;> rfl

/-- Digits are read. -/
theorem scan_inside_of_isDigit {run : List Char} (h : ∀ c ∈ run, c.isDigit = true) :
    inside.scan run = inside := by
  induction run with
  | nil => rfl
  | cons c run ih =>
    have hc := h c List.mem_cons_self
    have hnext : inside.next c = inside := by
      have hminus : c ≠ '-' := by
        rintro rfl
        cases hc
      have hletter : c ≠ 'i' := by
        rintro rfl
        cases hc
      rw [Phase.next, later, if_neg hminus, if_neg hletter]
    rw [scan_cons, hnext]
    exact ih fun d hd => h d (List.mem_cons_of_mem c hd)

/-- The name of a step other than an overlay is read, with its bracket. -/
theorem scan_mnemonic {tag : Tag} (h : tag = .fit ∨ tag = .fill ∨ tag = .blur) :
    (inside.scan tag.mnemonic.toList).next '(' = inside := by
  obtain rfl | rfl | rfl := h <;> rfl

/-- The automaton comes through the text of every syntax tree. -/
theorem done_scan_text (c : Chain) : (opening.scan c.text).Done := by
  -- Along the tree; after each step the automaton is at the end of an expression.
  induction c with
  | root index =>
    refine .inl ?_
    show (if (Nat.digitChar index).isDigit then Phase.index else dead) = Phase.index
    rw [if_pos (Grammar.isDigit_digitChar index)]
  | image before index ih =>
    refine .inr ?_
    have hindex : inside.scan (Chain.indexText index) = inside :=
      scan_inside_of_isDigit (by simp [Chain.indexText])
    simp [Chain.text, ih.next, hindex]
  | frame how before width height ih =>
    refine .inr ?_
    have hname : how.tag = .fit ∨ how.tag = .fill ∨ how.tag = .blur := by
      cases how <;> simp [Framing.tag]
    have hx : inside.next 'x' = inside := rfl
    have hclose : inside.next ')' = inside := rfl
    simp [Chain.text, Chain.callText, ih.next, scan_mnemonic hname, hx, hclose,
      scan_inside_of_isDigit width.isDigit_of_mem, scan_inside_of_isDigit height.isDigit_of_mem]
  | blur before strength ih =>
    refine .inr ?_
    have hclose : inside.next ')' = inside := rfl
    simp [Chain.text, Chain.callText, ih.next, scan_mnemonic, hclose,
      scan_inside_of_isDigit strength.isDigit_of_mem]
  | overlay before argument ih ih' =>
    refine .inr ?_
    have hname : (inside.scan Tag.overlay.mnemonic.toList).next '(' = opening := rfl
    simp [Chain.text, Chain.callText, ih.next, hname, ih'.next]

/-- What is dead stays so. -/
theorem ne_dead_of_scan {p : Phase} {text : List Char} (h : p.scan text ≠ dead) : p ≠ dead := by
  rintro rfl
  exact h (scan_dead text)

theorem ne_dead_of_next {p : Phase} {c : Char} (h : p.next c ≠ dead) : p ≠ dead := by
  rintro rfl
  exact h rfl

/-- A number that is come through has no sign where a minus sign is no part of the text. -/
theorem nonneg_of_scan {p : Phase} {k : Int} (hminus : p.next '-' = dead)
    (h : p.scan (toString k).toList ≠ dead) : 0 ≤ k := by
  refine Int.not_lt.1 fun hneg => ?_
  obtain ⟨digits, htext⟩ := exists_of_neg hneg
  rw [htext, scan_cons, hminus] at h
  exact h (scan_dead digits)

/-- An operand that is come through has no sign. -/
theorem operand_of_scan {k : Int} (h : inside.scan (toString k).toList ≠ dead) :
    0 ≤ k ∧ inside.scan (toString k).toList = inside := by
  have hnonneg : 0 ≤ k := nonneg_of_scan rfl h
  refine ⟨hnonneg, ?_⟩
  rw [toList_toString_of_nonneg hnonneg]
  exact scan_inside_of_isDigit (Digits.ofNat k.toNat).isDigit_of_mem

/-- An index that is come through is a digit. -/
theorem index_of_scan {i : Int} (h : opening.scan (toString i).toList ≠ dead) :
    (0 ≤ i ∧ i ≤ 9) ∧ opening.scan (toString i).toList = index := by
  have hnonneg : 0 ≤ i := nonneg_of_scan rfl h
  have htext : (toString i).toList = Nat.toDigits 10 i.toNat := toList_toString_of_nonneg hnonneg
  have hdigits : ∀ c ∈ Nat.toDigits 10 i.toNat, c.isDigit = true :=
    (Digits.ofNat i.toNat).isDigit_of_mem
  rw [htext] at h ⊢
  -- One digit is an index below ten; the second digit of any other is where the automaton dies.
  match hrun : Nat.toDigits 10 i.toNat with
  | [] => exact absurd hrun Nat.toDigits_ne_nil
  | [c] =>
    have hlt : i.toNat < 10 ^ 1 := by
      rw [← Nat.length_toDigits_le_iff (by decide) (by decide), hrun]
      exact Nat.le_refl 1
    have hc : c.isDigit = true := hdigits c (by simp [hrun])
    refine ⟨by omega, ?_⟩
    show (if c.isDigit then index else dead) = index
    rw [if_pos hc]
  | c :: d :: run =>
    have hc : c.isDigit = true := hdigits c (by simp [hrun])
    have hd : d.isDigit = true := hdigits d (by simp [hrun])
    have hsecond : (opening.next c).next d = dead := by
      simp [Phase.next, hc, hd]
    rw [hrun, scan_cons, scan_cons, hsecond] at h
    exact absurd (scan_dead run) h

/-- A tree whose text is come through can be written. -/
theorem writable_of_scan {n : Node} (h : opening.scan n.text.toList ≠ dead) :
    n.Writable ∧ (opening.scan n.text.toList).Done := by
  -- Along the tree; what is not dead at the end was dead at no place before.
  induction n with
  | image i =>
    obtain ⟨hi, hscan⟩ := index_of_scan h
    exact ⟨⟨by simpa [Node.images] using hi, by simp [Node.operands]⟩, .inl hscan⟩
  | frame how source width height ih =>
    have hname : how.tag = .fit ∨ how.tag = .fill ∨ how.tag = .blur := by
      cases how <;> simp [Framing.tag]
    rw [Node.toList_text_frame, scan_append] at h ⊢
    obtain ⟨hwritable, hdone⟩ := ih (ne_dead_of_scan h)
    simp only [Chain.callText, scan_cons, scan_append, scan_nil, hdone.next (.inl rfl),
      scan_mnemonic hname] at h ⊢
    have hheight := ne_dead_of_next h
    obtain ⟨hw, hwidth⟩ := operand_of_scan (ne_dead_of_next (ne_dead_of_scan hheight))
    rw [hwidth] at hheight ⊢
    obtain ⟨hh, hheight⟩ := operand_of_scan hheight
    have hx : inside.next 'x' = inside := rfl
    rw [hx, hheight]
    refine ⟨⟨hwritable.index, ?_⟩, .inr rfl⟩
    simpa [Node.operands, or_imp, forall_and, hw, hh] using hwritable.operand
  | blur source strength ih =>
    rw [Node.toList_text_blur, scan_append] at h ⊢
    obtain ⟨hwritable, hdone⟩ := ih (ne_dead_of_scan h)
    simp only [Chain.callText, scan_cons, scan_append, scan_nil, hdone.next (.inl rfl),
      scan_mnemonic (.inr (.inr rfl))] at h ⊢
    obtain ⟨hs, hstrength⟩ := operand_of_scan (ne_dead_of_next h)
    rw [hstrength]
    refine ⟨⟨hwritable.index, ?_⟩, .inr rfl⟩
    simpa [Node.operands, or_imp, forall_and, hs] using hwritable.operand
  | overlay source argument ih ih' =>
    have hname : (inside.scan Tag.overlay.mnemonic.toList).next '(' = opening := rfl
    rw [Node.toList_text_overlay, scan_append] at h ⊢
    obtain ⟨hwritable, hdone⟩ := ih (ne_dead_of_scan h)
    simp only [Chain.callText, scan_cons, scan_append, scan_nil, hdone.next (.inl rfl), hname]
      at h ⊢
    obtain ⟨hwritable', hdone'⟩ := ih' (ne_dead_of_next h)
    rw [hdone'.next (.inr rfl)]
    refine ⟨⟨?_, ?_⟩, .inr rfl⟩
    · intro i hi
      rcases List.mem_append.1 hi with hi | hi
      · exact hwritable.index i hi
      · exact hwritable'.index i hi
    · intro k hk
      rcases List.mem_append.1 hk with hk | hk
      · exact hwritable.operand k hk
      · exact hwritable'.operand k hk

end Phase

/-- The text of a tree is an expression exactly when its numbers can be written. -/
theorem Node.grammatical_text_iff {n : Node} : Chain.Grammatical n.text ↔ n.Writable := by
  constructor
  · rintro ⟨c, htext⟩
    have hdone := Phase.done_scan_text c
    rw [htext] at hdone
    have hne : Phase.opening.scan n.text.toList ≠ .dead := by
      obtain heq | heq := hdone <;> rw [heq] <;> decide
    exact (Phase.writable_of_scan hne).1
  · intro h
    obtain ⟨c, htext, -⟩ := exists_of_writable h
    exact ⟨c, htext⟩

end Montage
