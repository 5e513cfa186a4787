import Montage.Proofs.Expression.Compilation
import Montage.Proofs.Expression.Encoding
import Montage.Proofs.Expression.Spelling

/-!
# Compiling what was written out

The text of an operation tree has no image references among its steps, so all words that are written
while it is read stay, and `Chain.check` passes exactly within the limits (`check_eq_ok_iff`). So a
compilation undoes the writing of an encoded tree exactly where the numbers of the tree can be
written and all limits hold, and refuses the text otherwise (`compile_text_of_decode`).
-/

namespace Montage

namespace Task

variable {t : Task} {capacity : Nat}

/-- Two checks pass when both do. -/
theorem bind_eq_ok_iff {check check' : Except Fault Unit} :
    (do check; check') = .ok () ↔ check = .ok () ∧ check' = .ok () := by
  cases check with
  | error fault => exact ⟨nofun, fun h => nomatch h.1⟩
  | ok _ => exact ⟨fun h => ⟨rfl, h⟩, fun h => h.2⟩

theorem room_eq_ok_iff {position live : Nat} :
    t.room capacity position live = .ok () ↔ live < capacity := by
  unfold room
  split
  · rename_i hfull
    exact ⟨nofun, fun h => absurd h (Nat.not_lt.2 hfull)⟩
  · rename_i hroom
    exact ⟨fun _ => Nat.lt_of_not_le hroom, fun _ => rfl⟩

theorem checkDepth_eq_ok_iff {opened position : Nat} :
    t.checkDepth opened position = .ok () ↔ (opened : Int) < t.limits.maxDepth := by
  unfold checkDepth
  split
  · rename_i hdeep
    exact ⟨nofun, fun h => absurd h (Int.not_lt.2 hdeep)⟩
  · rename_i hroom
    exact ⟨fun _ => Int.not_le.1 hroom, fun _ => rfl⟩

/-- A legible maximum is compared with the value of a number. -/
theorem checkMaximum_eq_ok_iff (hlegible : t.limits.Legible) {number : Digits} {position : Nat} :
    t.checkMaximum number position = .ok () ↔ (number.value : Int) ≤ t.limits.maxNumber := by
  rw [checkMaximum, Grammar.exceeds_eq_decide hlegible]
  by_cases habove : t.limits.maxNumber < number.value
  · rw [decide_eq_true habove]
    exact ⟨nofun, fun h => absurd h (Int.not_le.2 habove)⟩
  · rw [decide_eq_false habove]
    exact ⟨fun _ => Int.not_lt.1 habove, fun _ => rfl⟩

theorem checkNumber_eq_ok_iff (hlegible : t.limits.Legible) {number : Digits}
    {position live : Nat} : t.checkNumber capacity number position live = .ok () ↔
      (number.value : Int) ≤ t.limits.maxNumber ∧ live < capacity := by
  rw [checkNumber, bind_eq_ok_iff, checkMaximum_eq_ok_iff hlegible, room_eq_ok_iff]

/-- Where all indexes are allowed, an image reference needs room for its two words. -/
theorem checkImage_eq_ok_iff (hcount : t.limits.imageCount = none) {index : Fin 10}
    {position live : Nat} :
    t.checkImage capacity index position live = .ok () ↔ live + 2 ≤ capacity := by
  have hindex : t.checkIndex index position = .ok () := by
    rw [checkIndex, hcount]
  rw [checkImage, bind_eq_ok_iff, bind_eq_ok_iff, room_eq_ok_iff, room_eq_ok_iff]
  simp only [hindex, true_and]
  omega

end Task

variable {t : Task} {capacity : Nat}

/-- The checks of a plain syntax tree pass when its numbers, its depth and its words are within the
limits. -/
theorem Chain.check_eq_ok_iff {c : Chain} (hplain : c.Plain) (hlegible : t.limits.Legible)
    (hcount : t.limits.imageCount = none) {opened position live : Nat}
    (hopened : opened ≤ t.limits.maxDepth) :
    c.check t capacity opened position live = .ok () ↔
      (∀ k ∈ c.prune.operands, k ≤ t.limits.maxNumber) ∧
        (opened + c.prune.depth : Nat) ≤ t.limits.maxDepth ∧
        live + c.prune.encode.length ≤ capacity := by
  -- Along the tree. Nothing is dropped, so the live words are all that were written so far.
  induction c generalizing opened position live with
  | root index =>
    rw [check, Task.checkImage_eq_ok_iff hcount]
    simp [prune, Node.operands, Node.depth, Node.encode, hopened]
  | image before index => exact hplain.elim
  | frame how before width height ih =>
    simp only [check, Task.bind_eq_ok_iff, Task.checkNumber_eq_ok_iff hlegible, Task.room_eq_ok_iff,
      ih hplain hopened]
    simp only [prune, Node.operands, Node.depth, Node.encode, List.length_append, List.length_cons,
      List.length_nil, List.mem_append, List.mem_cons, List.not_mem_nil, or_false, or_imp,
      forall_and, forall_eq]
    constructor
    · rintro ⟨⟨hoperands, hdepth, -⟩, ⟨hwidth, -⟩, ⟨hheight, -⟩, hroom⟩
      exact ⟨⟨hoperands, hwidth, hheight⟩, hdepth, by omega⟩
    · rintro ⟨⟨hoperands, hwidth, hheight⟩, hdepth, hroom⟩
      exact ⟨⟨hoperands, hdepth, by omega⟩, ⟨hwidth, by omega⟩, ⟨hheight, by omega⟩, by omega⟩
  | blur before strength ih =>
    simp only [check, Task.bind_eq_ok_iff, Task.checkNumber_eq_ok_iff hlegible, Task.room_eq_ok_iff,
      ih hplain hopened]
    simp only [prune, Node.operands, Node.depth, Node.encode, List.length_append, List.length_cons,
      List.length_nil, List.mem_append, List.mem_cons, List.not_mem_nil, or_false, or_imp,
      forall_and, forall_eq]
    constructor
    · rintro ⟨⟨hoperands, hdepth, -⟩, ⟨hstrength, -⟩, hroom⟩
      exact ⟨⟨hoperands, hstrength⟩, hdepth, by omega⟩
    · rintro ⟨⟨hoperands, hstrength⟩, hdepth, hroom⟩
      exact ⟨⟨hoperands, hdepth, by omega⟩, ⟨hstrength, by omega⟩, by omega⟩
  | overlay before argument ih ih' =>
    simp only [check, Task.bind_eq_ok_iff, Task.checkDepth_eq_ok_iff, Task.room_eq_ok_iff,
      ih hplain.1 hopened]
    simp only [prune, Node.operands, Node.depth, Node.encode, List.length_append, List.length_cons,
      List.length_nil, List.mem_append, or_imp, forall_and]
    constructor
    · rintro ⟨⟨hoperands, hdepth, -⟩, hroom, hargument, hroom'⟩
      obtain ⟨hoperands', hdepth', -⟩ := (ih' hplain.2 (by omega)).1 hargument
      exact ⟨⟨hoperands, hoperands'⟩, by omega, by omega⟩
    · rintro ⟨⟨hoperands, hoperands'⟩, hdepth, hroom⟩
      exact ⟨⟨hoperands, by omega, by omega⟩, by omega,
        (ih' hplain.2 (by omega)).2 ⟨hoperands', by omega, by omega⟩, by omega⟩

/-- A fault of a compilation with a legible maximum is a rejection of the text. -/
theorem exists_rejection_of_compile {capacity : Int} (hcapacity : 1 ≤ capacity)
    (hlegible : t.limits.Legible) {fault : Fault} (h : (compile t capacity).result = .error fault) :
    ∃ rejection, fault = .rejected rejection := by
  obtain ⟨kind, place, rfl⟩ := exists_kind_of_compile hcapacity hlegible h
  exact ⟨_, rfl⟩

/-- The text of a tree whose numbers can be written is compiled within the limits, and then to the
words of the tree. -/
theorem exists_compile_text_iff {n : Node} {capacity : Int} (htext : t.expression = n.text)
    (hwritable : n.Writable) (hcount : t.limits.imageCount = none) (hdepth : 0 ≤ t.limits.maxDepth)
    (hcapacity : 1 ≤ capacity) (hlegible : t.limits.Legible) :
    (∃ e, (compile t capacity).result = .ok e) ↔
      (∀ k ∈ n.operands, k ≤ t.limits.maxNumber) ∧ n.depth ≤ t.limits.maxDepth ∧
        n.encode.length ≤ capacity := by
  obtain ⟨c, hctext, rfl, hplain⟩ := Node.exists_of_writable hwritable
  have hcheck : c.check t capacity.toNat 0 0 0 = .ok () ↔
      (∀ k ∈ c.prune.operands, k ≤ t.limits.maxNumber) ∧
        (0 + c.prune.depth : Nat) ≤ t.limits.maxDepth ∧
        0 + c.prune.encode.length ≤ capacity.toNat :=
    Chain.check_eq_ok_iff hplain hlegible hcount hdepth
  rw [Nat.zero_add, Nat.zero_add] at hcheck
  -- The capacity is positive, so it is the same as a natural number.
  have hroom : c.prune.encode.length ≤ capacity.toNat ↔
      (c.prune.encode.length : Int) ≤ capacity := by
    omega
  rw [result_compile_eq_map c (hctext.trans (congrArg String.toList htext.symm)) hcapacity,
    ← hroom, ← hcheck]
  cases c.check t capacity.toNat 0 0 0 with
  | error fault => exact ⟨nofun, nofun⟩
  | ok _ => exact ⟨fun _ => rfl, fun _ => ⟨_, rfl⟩⟩

/-- Compiling undoes the writing of encoded words. The text of decoded words is compiled exactly
when each index is a digit, no operand has a sign or is above the maximum, and the overlays and the
words are within their limits. The answer is then the words themselves, and otherwise the text is
refused. -/
theorem compile_text_of_decode {words : List Int} {n : Node} {capacity : Int}
    (hdecode : Node.decode words = .ok n) (htext : t.expression = n.text)
    (hcount : t.limits.imageCount = none) (hdepth : 0 ≤ t.limits.maxDepth)
    (hcapacity : 1 ≤ capacity) (hlegible : t.limits.Legible) :
    ((∃ e, (compile t capacity).result = .ok e) ↔
      (∀ i ∈ n.images, 0 ≤ i ∧ i ≤ 9) ∧
        (∀ k ∈ n.operands, 0 ≤ k ∧ k ≤ t.limits.maxNumber) ∧
        n.depth ≤ t.limits.maxDepth ∧ words.length ≤ capacity) ∧
      (∀ e, (compile t capacity).result = .ok e → e.words.toList = words) ∧
      ∀ fault, (compile t capacity).result = .error fault →
        ∃ rejection, fault = .rejected rejection := by
  obtain rfl := Node.decode_eq_ok_iff.1 hdecode
  -- A text that is compiled is that of a syntax tree, and then the numbers can be written.
  have hwritable {e : Encoded} (h : (compile t capacity).result = .ok e) : n.Writable := by
    obtain ⟨c, hctext, -⟩ := exists_of_compile_eq_ok h
    exact Node.grammatical_text_iff.1 ⟨c, hctext.trans (congrArg String.toList htext)⟩
  refine ⟨⟨?_, ?_⟩, fun e he => ?_, fun fault => exists_rejection_of_compile hcapacity hlegible⟩
  · rintro ⟨e, he⟩
    have hw := hwritable he
    obtain ⟨hmaximum, hlevels, hroom⟩ :=
      (exists_compile_text_iff htext hw hcount hdepth hcapacity hlegible).1 ⟨e, he⟩
    exact ⟨hw.index, fun k hk => ⟨hw.operand k hk, hmaximum k hk⟩, hlevels, hroom⟩
  · rintro ⟨hindex, hoperand, hlevels, hroom⟩
    have hw : n.Writable := ⟨hindex, fun k hk => (hoperand k hk).1⟩
    exact (exists_compile_text_iff htext hw hcount hdepth hcapacity hlegible).2
      ⟨fun k hk => (hoperand k hk).2, hlevels, hroom⟩
  · obtain ⟨c, hctext, hprune, -⟩ := Node.exists_of_writable (hwritable he)
    have heq := eq_of_compile_eq_ok he c (hctext.trans (congrArg String.toList htext.symm))
    rw [heq, hprune]

/-- Words that are within the limits, with an overlay and a number that is the largest one. -/
theorem compile_text_of_decode_overlay :
    Node.decode [0, 4, 1, 4, 7, 100, 1, 2] =
        .ok (.overlay (.image 0) (.frame .fill (.image 1) 7 100)) ∧
      ∃ e, (compile ⟨"0.pi(1.fl(7x100))", ⟨none, 1, 100⟩⟩ 8).result = .ok e ∧
        e.words.toList = [0, 4, 1, 4, 7, 100, 1, 2] := by
  have hdecode : Node.decode [0, 4, 1, 4, 7, 100, 1, 2] =
      .ok (.overlay (.image 0) (.frame .fill (.image 1) 7 100)) :=
    Node.decode_eq_ok_iff.2 rfl
  have htext : "0.pi(1.fl(7x100))" =
      (Node.overlay (.image 0) (.frame .fill (.image 1) 7 100)).text := by decide
  obtain ⟨hiff, hwords, -⟩ := compile_text_of_decode
    (t := ⟨"0.pi(1.fl(7x100))", ⟨none, 1, 100⟩⟩) hdecode htext rfl (by decide)
    (show (1 : Int) ≤ 8 by decide) (by decide)
  obtain ⟨e, he⟩ := hiff.2 (by decide)
  exact ⟨hdecode, e, he, hwords e he⟩

end Montage
