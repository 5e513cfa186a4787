import Montage.Expression.Compile
import Montage.Proofs.Expression.Soundness

/-!
# What a compilation answers

A compilation runs the grammar over the whole text. For the text of a syntax tree the answer is that
of `Chain.check`, with the words of the pruned tree (`result_compile_eq_map`). For a text of any
kind there are three answers (`compile_cases`): the words of a syntax tree of the text, a fault that
concerns one of the limits, or that the text is no expression.
-/

namespace Montage

open Grammar Rule

variable {t : Task} {buffer back : Buffer} {s : Reading} {outcome : Outcome} {fault : Fault}

/-! ## Appending -/

/-- Where the grammar stops, so does appending. -/
theorem append_eq_error (h : expression t (.start t.expression buffer) = (.stopped fault, s)) :
    append t buffer = (.error fault, s.buffer) := by
  simp only [append, h]

/-- Where the grammar matches the whole text, its words are appended. -/
theorem append_eq_ok (h : expression t (.start t.expression buffer) = (.matched, s))
    (hend : s.rest = []) : append t buffer = (.ok (), s.buffer) := by
  simp [append, h, Reading.atEnd, hend]

/-- Where the grammar does not match the whole text, the words are taken back. -/
theorem append_eq_ungrammatical
    (h : expression t (.start t.expression buffer) = (outcome, s))
    (hpart : outcome = .failed ∨ outcome = .matched ∧ s.rest ≠ [])
    (hback : s.buffer.rollback buffer.mark = .ok back) :
    append t buffer =
      (.error (.rejected (.ungrammatical t.expression (max s.farthest s.position))), back) := by
  obtain rfl | ⟨rfl, hend⟩ := hpart
  · simp [append, h, hback]
  · simp [append, h, hback, Reading.atEnd, hend]

/-! ## Compiling -/

variable {capacity : Int}

/-- The buffer that a compilation starts with. -/
def freshBuffer (capacity : Int) : Buffer :=
  ⟨capacity.toNat, #[], false, #[]⟩

/-- The reading that a compilation starts with. -/
def Reading.fresh (t : Task) (capacity : Int) : Reading :=
  .start t.expression (freshBuffer capacity)

theorem Reading.fresh_open (t : Task) (capacity : Int) : (fresh t capacity).Open :=
  ⟨rfl, Nat.zero_le _⟩

/-- The buffer holds what was written since the start. -/
theorem words_of_reads_fresh {text : List Char} {words : List Int}
    (hreads : (Reading.fresh t capacity).Reads text words s) : s.buffer.words = words.toArray := by
  rw [← Array.toList_inj, hreads.words]
  rfl

/-- A buffer has room for at least one word. -/
theorem create_eq_ok_iff : Buffer.create capacity = .ok buffer ↔
    1 ≤ capacity ∧ buffer = freshBuffer capacity := by
  unfold Buffer.create
  split
  · constructor
    · intro h
      cases h
    · rintro ⟨hcapacity, -⟩
      omega
  · constructor
    · intro h
      exact ⟨by omega, (Except.ok.inj h).symm⟩
    · rintro ⟨-, rfl⟩
      rfl

/-- A compilation appends to a fresh buffer. -/
theorem result_compile_eq (hcapacity : 1 ≤ capacity) : (compile t capacity).result =
    (append t (freshBuffer capacity)).1.map fun _ =>
      ⟨(append t (freshBuffer capacity)).2.words, t.expression⟩ := by
  have hcreate := create_eq_ok_iff.2 ⟨hcapacity, rfl⟩
  simp only [compile, hcreate]
  split
  · rename_i happend
    rw [happend]
    rfl
  · rename_i happend
    rw [happend]
    rfl

/-- A compilation that returns had room for at least one word. -/
theorem one_le_of_compile {e : Encoded} (h : (compile t capacity).result = .ok e) :
    1 ≤ capacity := by
  unfold compile at h
  split at h
  · cases h
  · rename_i buffer hcreate
    exact (create_eq_ok_iff.1 hcreate).1

/-- The text of a syntax tree stands at the start. -/
theorem at_fresh (c : Chain) (htext : c.text = t.expression.toList) (capacity : Int) :
    (Reading.fresh t capacity).At capacity.toNat 0 0 0 (c.text ++ []) :=
  (Reading.fresh_open t capacity).at_self (by rw [List.append_nil, htext]; rfl)

/-- The text of a syntax tree is compiled to the words of the pruned tree, unless a check of the
tree does not pass. -/
theorem result_compile_eq_map (c : Chain) (htext : c.text = t.expression.toList)
    (hcapacity : 1 ≤ capacity) : (compile t capacity).result =
      (c.check t capacity.toNat 0 0 0).map fun _ => ⟨c.prune.encode.toArray, t.expression⟩ := by
  have hat := at_fresh c htext capacity
  have hsettles := settles_expression (t := t) c hat (by simp)
  rw [result_compile_eq hcapacity]
  cases hcheck : c.check t capacity.toNat 0 0 0 with
  | error fault =>
    rw [hcheck] at hsettles
    obtain ⟨s, hs, -⟩ := hsettles
    rw [append_eq_error hs]
    rfl
  | ok _ =>
    rw [hcheck] at hsettles
    obtain ⟨s, hs, hreads⟩ := hsettles
    have hwords : s.buffer.words = c.prune.encode.toArray := words_of_reads_fresh hreads
    rw [append_eq_ok hs (hat.of_reads hreads).rest]
    simp [Except.map, hwords]

/-- The grammar does not fail where the text of a syntax tree stands to the end, nor does it match
only a part of it. -/
theorem not_part_of_at {s' : Reading} {capacity depth position live : Nat} (c : Chain)
    (hat : s.At capacity depth position live (c.text ++ [])) (hs : expression t s = (outcome, s')) :
    ¬ (outcome = .failed ∨ outcome = .matched ∧ s'.rest ≠ []) := by
  have hsettles := settles_expression (t := t) c hat (by simp)
  unfold Settles at hsettles
  split at hsettles
  · obtain ⟨s'', hs'', hreads⟩ := hsettles
    obtain ⟨rfl, rfl⟩ := Prod.mk.inj (hs.symm.trans hs'')
    have hend := (hat.of_reads hreads).rest
    simp [hend]
  · obtain ⟨s'', hs'', -⟩ := hsettles
    obtain ⟨rfl, -⟩ := Prod.mk.inj (hs.symm.trans hs'')
    simp

/-- The grammar does not fail at the text of a syntax tree, nor does it match only a part of it. -/
theorem not_part_of_text (c : Chain) (htext : c.text = t.expression.toList)
    (hs : expression t (Reading.fresh t capacity) = (outcome, s)) :
    ¬ (outcome = .failed ∨ outcome = .matched ∧ s.rest ≠ []) :=
  not_part_of_at c (at_fresh c htext capacity) hs

/-- The grammar comes to an end at the reading `s`, without a fault, before it has read the whole
text. -/
def Task.EndsEarly (t : Task) (capacity : Int) (s : Reading) : Prop :=
  ∃ outcome text words, Grammar.expression t (Reading.fresh t capacity) = (outcome, s) ∧
    (Reading.fresh t capacity).Reads text words s ∧
    (outcome = .failed ∨ outcome = .matched ∧ s.rest ≠ [])

/-- Where the grammar does not match the whole text, and no fault stops it, it ends early. -/
theorem Task.endsEarly_of_part
    (hs : Grammar.expression t (Reading.fresh t capacity) = (outcome, s))
    (hpart : outcome = .failed ∨ outcome = .matched ∧ s.rest ≠ []) : t.EndsEarly capacity s := by
  obtain ⟨outcome', text, words, ⟨s', hs', hreads⟩, -, -⟩ :=
    neat_expression (t := t) (k := 0) (Reading.fresh_open t capacity)
  obtain ⟨rfl, rfl⟩ := Prod.mk.inj (hs.symm.trans hs')
  exact ⟨outcome, text, words, hs, hreads, hpart⟩

/-- The grammar does not end early on the text of a syntax tree. -/
theorem Task.EndsEarly.not_grammatical (h : t.EndsEarly capacity s) :
    ¬ Chain.Grammatical t.expression := by
  obtain ⟨outcome, text, words, hs, -, hpart⟩ := h
  rintro ⟨c, htext⟩
  exact not_part_of_text c htext hs hpart

/-- Where the grammar ends early, the words are taken back and its farthest place is answered. -/
theorem Task.EndsEarly.result_eq (h : t.EndsEarly capacity s) (hcapacity : 1 ≤ capacity) :
    (compile t capacity).result =
      .error (.rejected (.ungrammatical t.expression (max s.farthest s.position))) := by
  obtain ⟨outcome, text, words, hs, hreads, hpart⟩ := h
  obtain ⟨back, hback, -⟩ := exists_rollback (Reading.fresh_open t capacity).frozen hreads
  rw [result_compile_eq hcapacity, append_eq_ungrammatical hs hpart hback]
  rfl

/-- The farthest place of a compilation that ends early lies in the text. -/
theorem Task.EndsEarly.place_le (h : t.EndsEarly capacity s) :
    max s.farthest s.position ≤ t.expression.length := by
  obtain ⟨outcome, text, words, -, hreads, -⟩ := h
  have hposition : s.position = 0 + text.length := hreads.position
  have hrest : t.expression.toList = text ++ s.rest := hreads.rest
  have hlength := congrArg List.length hrest
  rw [String.length_toList, List.length_append] at hlength
  have hfarthest := hreads.farthest_within (Nat.zero_le _)
  omega

/-- A compilation answers the words of a syntax tree of the text, or a fault that concerns one of
the limits, or that the text is no expression, with the farthest place of the grammar. -/
theorem compile_cases (hcapacity : 1 ≤ capacity) :
    (∃ c : Chain, c.text = t.expression.toList ∧
      (compile t capacity).result = .ok ⟨c.prune.encode.toArray, t.expression⟩) ∨
    (∃ fault, (compile t capacity).result = .error fault ∧
      fault.Concerns t 0 (Reading.fresh t capacity)) ∨
    (¬ Chain.Grammatical t.expression ∧ ∃ s, t.EndsEarly capacity s ∧
      (compile t capacity).result =
        .error (.rejected (.ungrammatical t.expression (max s.farthest s.position)))) := by
  have hopen := Reading.fresh_open t capacity
  obtain ⟨outcome, text, words, ⟨s, hs, hreads⟩, htells, -⟩ :=
    neat_expression (t := t) (k := 0) hopen
  cases outcome with
  | stopped fault =>
    rw [result_compile_eq hcapacity, append_eq_error hs]
    exact .inr (.inl ⟨fault, rfl, htells⟩)
  | failed =>
    have hearly := Task.endsEarly_of_part hs (.inl rfl)
    exact .inr (.inr ⟨hearly.not_grammatical, s, hearly, hearly.result_eq hcapacity⟩)
  | matched =>
    by_cases hend : s.rest = []
    · obtain ⟨c, rfl, rfl⟩ := htells
      have htext : c.text = t.expression.toList := by
        have hrest : t.expression.toList = c.text ++ s.rest := hreads.rest
        rw [hrest, hend, List.append_nil]
      have hwords : s.buffer.words = c.prune.encode.toArray := words_of_reads_fresh hreads
      refine .inl ⟨c, htext, ?_⟩
      rw [result_compile_eq hcapacity, append_eq_ok hs hend]
      simp [Except.map, hwords]
    · have hearly := Task.endsEarly_of_part hs (.inr ⟨rfl, hend⟩)
      exact .inr (.inr ⟨hearly.not_grammatical, s, hearly, hearly.result_eq hcapacity⟩)

/-- A compilation that fails with a legible maximum refuses the text for some kind of reason, at a
place. -/
theorem exists_kind_of_compile (hcapacity : 1 ≤ capacity) (hlegible : t.limits.Legible)
    (h : (compile t capacity).result = .error fault) :
    ∃ kind place, fault = .rejected (t.rejection capacity.toNat place kind) := by
  obtain ⟨c, -, hresult⟩ | ⟨fault', hresult, hconcerns⟩ | ⟨-, s, -, hresult⟩ :=
    compile_cases (t := t) hcapacity
  · cases hresult.symm.trans h
  · obtain rfl := Except.error.inj (hresult.symm.trans h)
    -- The faults inside the buffer concern nothing, and the maximum has a numeral.
    cases fault' with
    | buffer | missingWord => exact hconcerns.elim
    | numeral => exact absurd hlegible hconcerns
    | rejected r =>
      obtain ⟨-, place, -, -, hr⟩ := hconcerns
      exact ⟨r.kind, place, congrArg Fault.rejected hr⟩
  · exact ⟨.ungrammatical, _, Except.error.inj (h.symm.trans hresult)⟩

/-- A compilation that returns has read the text of a syntax tree, and answers its words. -/
theorem exists_of_compile_eq_ok {e : Encoded} (h : (compile t capacity).result = .ok e) :
    ∃ c : Chain, c.text = t.expression.toList ∧ e = ⟨c.prune.encode.toArray, t.expression⟩ := by
  obtain ⟨c, htext, hresult⟩ | ⟨fault, hresult, -⟩ | ⟨-, s, -, hresult⟩ :=
    compile_cases (t := t) (one_le_of_compile h)
  · rw [hresult] at h
    exact ⟨c, htext, (Except.ok.inj h).symm⟩
  · rw [hresult] at h
    cases h
  · rw [hresult] at h
    cases h

/-- Whatever syntax tree a compiled text has, its checks have passed. -/
theorem check_of_compile {c : Chain} {e : Encoded} (htext : c.text = t.expression.toList)
    (h : (compile t capacity).result = .ok e) : c.check t capacity.toNat 0 0 0 = .ok () := by
  rw [result_compile_eq_map c htext (one_le_of_compile h)] at h
  cases hcheck : c.check t capacity.toNat 0 0 0 with
  | ok _ => rfl
  | error fault =>
    rw [hcheck] at h
    cases h

/-- Whatever syntax tree a compiled text has, the words are those of the pruned tree. -/
theorem eq_of_compile_eq_ok {e : Encoded} (h : (compile t capacity).result = .ok e) (c : Chain)
    (htext : c.text = t.expression.toList) : e = ⟨c.prune.encode.toArray, t.expression⟩ := by
  have hcheck := check_of_compile htext h
  rw [result_compile_eq_map c htext (one_le_of_compile h), hcheck] at h
  exact (Except.ok.inj h).symm

end Montage
