import Montage.Proofs.Expression.RoundTrip
import Montage.Proofs.Expression.Tally

/-!
# The room that an expression takes

The words of a chain stay in the buffer until an image reference among its steps has been read, and
the words of the reference are written behind them before they are dropped. So an expression may
take more room while it is read than its words take in the end: `Chain.peak` is the number of its
words that are live at a time at most. The checks of a syntax tree that breaks no other limit
(`Chain.Within`) need room for these and for nothing else (`needs_check`).

The main statement, `compile_tooLong_iff`, says of an expression that is within all other limits
that a buffer refuses it as too long exactly if it has less room than the peak. What can be compiled
at all is within them (`within_of_compile`). The peak is the number of words in the end where
nothing is dropped (`peak_eq_of_plain`), but not in general (`compile_tooLong_fitting`).
-/

namespace Montage

/-! ## The other limits -/

/-- An index names one of the images, if their number is known. -/
def Limits.NamesImage (limits : Limits) (index : Fin 10) : Prop :=
  ∀ count, limits.imageCount = some count → index.val < count

/-- A number is found not to be above the maximum. -/
def Limits.AllowsNumber (limits : Limits) (number : Digits) : Prop :=
  Grammar.exceeds (Numeral.stripZeros number.run) limits.maxNumber = .ok false

/-- A legible maximum allows the numbers up to it. -/
theorem Limits.allowsNumber_iff {limits : Limits} (hlegible : limits.Legible) {number : Digits} :
    limits.AllowsNumber number ↔ (number.value : Int) ≤ limits.maxNumber :=
  Grammar.exceeds_eq_false_iff hlegible

instance (limits : Limits) (index : Fin 10) : Decidable (limits.NamesImage index) :=
  inferInstanceAs (Decidable (∀ count ∈ limits.imageCount, (index.val : Int) < count))

instance (limits : Limits) (number : Digits) : Decidable (limits.AllowsNumber number) :=
  match h : Grammar.exceeds (Numeral.stripZeros number.run) limits.maxNumber with
  | .ok false => .isTrue h
  | .ok true => .isFalse fun hallows => nomatch h.symm.trans hallows
  | .error _ => .isFalse fun hallows => nomatch h.symm.trans hallows

/-- An expression that starts with `opened` overlays open is within all limits, except perhaps for
the room that it takes. -/
def Chain.Within (limits : Limits) : (opened : Nat) → Chain → Prop
  | _, root index => limits.NamesImage index
  | opened, image before index => before.Within limits opened ∧ limits.NamesImage index
  | opened, frame _ before width height =>
    before.Within limits opened ∧ limits.AllowsNumber width ∧ limits.AllowsNumber height
  | opened, blur before strength => before.Within limits opened ∧ limits.AllowsNumber strength
  | opened, overlay before argument =>
    before.Within limits opened ∧ opened < limits.maxDepth ∧ argument.Within limits (opened + 1)

instance Chain.decidableWithin (limits : Limits) :
    (opened : Nat) → (c : Chain) → Decidable (c.Within limits opened)
  | _, root index => inferInstanceAs (Decidable (limits.NamesImage index))
  | opened, image before _ =>
    have := decidableWithin limits opened before
    inferInstanceAs (Decidable (_ ∧ _))
  | opened, frame _ before _ _ =>
    have := decidableWithin limits opened before
    inferInstanceAs (Decidable (_ ∧ _ ∧ _))
  | opened, blur before _ =>
    have := decidableWithin limits opened before
    inferInstanceAs (Decidable (_ ∧ _))
  | opened, overlay before argument =>
    have := decidableWithin limits opened before
    have := decidableWithin limits (opened + 1) argument
    inferInstanceAs (Decidable (_ ∧ _ ∧ _))

namespace Task

variable {t : Task} {capacity : Nat}

theorem checkIndex_eq_ok_iff {index : Fin 10} {position : Nat} :
    t.checkIndex index position = .ok () ↔ t.limits.NamesImage index := by
  unfold checkIndex Limits.NamesImage
  cases t.limits.imageCount with
  | none => exact ⟨fun _ => nofun, fun _ => rfl⟩
  | some count =>
    simp only [Option.some.injEq, forall_eq']
    split
    · rename_i habove
      exact ⟨nofun, fun h => absurd habove (Int.not_le.2 h)⟩
    · rename_i hbelow
      exact ⟨fun _ => Int.not_le.1 hbelow, fun _ => rfl⟩

theorem checkMaximum_eq_ok_iff_allowsNumber {number : Digits} {position : Nat} :
    t.checkMaximum number position = .ok () ↔ t.limits.AllowsNumber number := by
  unfold checkMaximum Limits.AllowsNumber
  split
  · rename_i hexceeds
    rw [hexceeds]
    exact ⟨nofun, nofun⟩
  · rename_i hexceeds
    rw [hexceeds]
    exact ⟨nofun, nofun⟩
  · rename_i hexceeds
    exact ⟨fun _ => hexceeds, fun _ => rfl⟩

theorem allowsNumber_of_checkNumber {number : Digits} {position live : Nat}
    (h : t.checkNumber capacity number position live = .ok ()) : t.limits.AllowsNumber number := by
  rw [checkNumber, bind_eq_ok_iff] at h
  exact checkMaximum_eq_ok_iff_allowsNumber.1 h.1

theorem namesImage_of_checkImage {index : Fin 10} {position live : Nat}
    (h : t.checkImage capacity index position live = .ok ()) : t.limits.NamesImage index := by
  rw [checkImage, bind_eq_ok_iff] at h
  exact checkIndex_eq_ok_iff.1 h.1

end Task

/-- What holds of every number that is not above the maximum holds of the operands of an expression
within the limits. -/
theorem Chain.Within.forall_operands {limits : Limits} {P : Int → Prop}
    (hP : ∀ number : Digits, limits.AllowsNumber number → P number.value) {c : Chain} {opened : Nat}
    (h : c.Within limits opened) : ∀ k ∈ c.prune.operands, P k := by
  induction c generalizing opened with
  | root index => exact List.forall_mem_nil _
  | image before index ih => exact List.forall_mem_nil _
  | frame how before width height ih =>
    obtain ⟨hbefore, hwidth, hheight⟩ := h
    simp only [prune, Node.operands, List.mem_append, List.mem_cons, List.not_mem_nil, or_false]
    rintro k (hk | rfl | rfl)
    · exact ih hbefore k hk
    · exact hP width hwidth
    · exact hP height hheight
  | blur before strength ih =>
    obtain ⟨hbefore, hstrength⟩ := h
    simp only [prune, Node.operands, List.mem_append, List.mem_cons, List.not_mem_nil, or_false]
    rintro k (hk | rfl)
    · exact ih hbefore k hk
    · exact hP strength hstrength
  | overlay before argument ih ih' =>
    obtain ⟨hbefore, -, hargument⟩ := h
    simp only [prune, Node.operands, List.mem_append]
    rintro k (hk | hk)
    · exact ih hbefore k hk
    · exact ih' hargument k hk

/-- An expression whose checks pass is within all limits. -/
theorem Chain.within_of_check {t : Task} {capacity opened position live : Nat} {c : Chain}
    (h : c.check t capacity opened position live = .ok ()) : c.Within t.limits opened := by
  induction c generalizing opened position live with
  | root index => exact Task.namesImage_of_checkImage h
  | image before index ih =>
    rw [check, Task.bind_eq_ok_iff] at h
    exact ⟨ih h.1, Task.namesImage_of_checkImage h.2⟩
  | frame how before width height ih =>
    simp only [check, Task.bind_eq_ok_iff] at h
    obtain ⟨hbefore, hwidth, hheight, -⟩ := h
    exact ⟨ih hbefore, Task.allowsNumber_of_checkNumber hwidth,
      Task.allowsNumber_of_checkNumber hheight⟩
  | blur before strength ih =>
    simp only [check, Task.bind_eq_ok_iff] at h
    obtain ⟨hbefore, hstrength, -⟩ := h
    exact ⟨ih hbefore, Task.allowsNumber_of_checkNumber hstrength⟩
  | overlay before argument ih ih' =>
    simp only [check, Task.bind_eq_ok_iff] at h
    obtain ⟨hbefore, hdepth, hargument, -⟩ := h
    exact ⟨ih hbefore, Task.checkDepth_eq_ok_iff.1 hdepth, ih' hargument⟩

/-! ## Checks that need room -/

/-- A check that needs room for a number of words in the buffer, and for nothing else: it passes
with that much room, and with less it refuses the expression as too long. -/
structure Task.Needs (t : Task) (capacity need : Nat) (check : Except Fault Unit) : Prop where
  /-- There is room enough. -/
  pass : need ≤ capacity → check = .ok ()
  /-- There is too little room. -/
  refuse : capacity < need →
    ∃ place, check = .error (.rejected (t.rejection capacity place .tooLong))

namespace Task

variable {t : Task} {capacity need need' : Nat} {check check' : Except Fault Unit}

/-- The need of a word is that of all words before it, and one more. -/
theorem needs_room (position live : Nat) :
    t.Needs capacity (live + 1) (t.room capacity position live) := by
  unfold room
  constructor
  · intro hroom
    rw [if_neg (Nat.not_le.2 hroom)]
  · intro hfull
    rw [if_pos (Nat.le_of_lt_succ hfull)]
    exact ⟨position, rfl⟩

/-- A check passes exactly where there is room for its need. -/
theorem Needs.eq_ok_iff (h : t.Needs capacity need check) : check = .ok () ↔ need ≤ capacity := by
  constructor
  · intro hok
    refine Nat.not_lt.1 fun hfull => ?_
    obtain ⟨place, hcheck⟩ := h.refuse hfull
    rw [hok] at hcheck
    cases hcheck
  · exact h.pass

/-- A check that passes needs nothing. -/
theorem Needs.of_ok (h : check = .ok ()) : t.Needs capacity 0 check :=
  ⟨fun _ => h, fun hfull => absurd hfull (Nat.not_lt_zero capacity)⟩

/-- Two checks need room for the one of them that needs more. -/
theorem Needs.bind (h : t.Needs capacity need check) (h' : t.Needs capacity need' check') :
    t.Needs capacity (max need need') (do check; check') := by
  constructor
  · intro hroom
    rw [bind_eq_ok_iff]
    exact ⟨h.pass (Nat.le_trans (Nat.le_max_left _ _) hroom),
      h'.pass (Nat.le_trans (Nat.le_max_right _ _) hroom)⟩
  · intro hfull
    -- The second check is made only where there is room enough for the first one.
    rcases Nat.lt_or_ge capacity need with hless | hroom
    · obtain ⟨place, hcheck⟩ := h.refuse hless
      exact ⟨place, by rw [hcheck]; rfl⟩
    · have hless : capacity < need' := by omega
      obtain ⟨place, hcheck'⟩ := h'.refuse hless
      exact ⟨place, by rw [h.pass hroom, hcheck']; rfl⟩

theorem Needs.congr (h : t.Needs capacity need check) (heq : need = need') :
    t.Needs capacity need' check :=
  heq ▸ h

theorem needs_number {number : Digits} (h : t.limits.AllowsNumber number) (position live : Nat) :
    t.Needs capacity (live + 1) (t.checkNumber capacity number position live) := by
  have hmaximum : t.Needs capacity 0 (t.checkMaximum number position) :=
    .of_ok (checkMaximum_eq_ok_iff_allowsNumber.2 h)
  exact (hmaximum.bind (needs_room _ live)).congr (Nat.zero_max _)

theorem needs_image {index : Fin 10} (h : t.limits.NamesImage index) (position live : Nat) :
    t.Needs capacity (live + 2) (t.checkImage capacity index position live) := by
  have hindex : t.Needs capacity 0 (t.checkIndex index position) :=
    .of_ok (checkIndex_eq_ok_iff.2 h)
  have hfirst : t.Needs capacity (live + 1) (t.room capacity (position + 1) live) :=
    needs_room (position + 1) live
  have hwords := hfirst.bind (needs_room (position + 1) (live + 1))
  exact (hindex.bind hwords).congr (by omega)

theorem needs_depth {opened : Nat} (h : opened < t.limits.maxDepth) (position : Nat) :
    t.Needs capacity 0 (t.checkDepth opened position) :=
  .of_ok (checkDepth_eq_ok_iff.2 h)

end Task

/-! ## The peak -/

namespace Chain

/-- The most words of an expression that are live at a time while it is read. An image reference
among the steps is written behind the words of its chain before these are dropped. -/
def peak : Chain → Nat
  | root _ => 2
  | image before _ => max before.peak (before.prune.encode.length + 2)
  | frame _ before _ _ => max before.peak (before.prune.encode.length + 3)
  | blur before _ => max before.peak (before.prune.encode.length + 2)
  | overlay before argument => max before.peak
    (before.prune.encode.length + max argument.peak (argument.prune.encode.length + 1))

/-- The words that are left in the end are live at that time. -/
theorem length_encode_prune_le_peak (c : Chain) : c.prune.encode.length ≤ c.peak := by
  cases c with
  | root index => exact Nat.le_refl 2
  | image before index =>
    have htwo := before.prune.two_le_length_encode
    simp only [prune, peak, Node.encode, List.length_cons, List.length_nil]
    omega
  | frame how before width height =>
    simp only [prune, peak, Node.encode, List.length_append, List.length_cons, List.length_nil]
    omega
  | blur before strength =>
    simp only [prune, peak, Node.encode, List.length_append, List.length_cons, List.length_nil]
    omega
  | overlay before argument =>
    simp only [prune, peak, Node.encode, List.length_append, List.length_cons, List.length_nil]
    omega

/-- Where nothing is dropped, all words are left in the end. -/
theorem peak_eq_of_plain {c : Chain} (h : c.Plain) : c.peak = c.prune.encode.length := by
  induction c with
  | root index => rfl
  | image before index => exact h.elim
  | frame how before width height ih =>
    simp only [prune, peak, Node.encode, List.length_append, List.length_cons, List.length_nil,
      ih h]
    omega
  | blur before strength ih =>
    simp only [prune, peak, Node.encode, List.length_append, List.length_cons, List.length_nil,
      ih h]
    omega
  | overlay before argument ih ih' =>
    simp only [prune, peak, Node.encode, List.length_append, List.length_cons, List.length_nil,
      ih h.1, ih' h.2]
    omega

variable {t : Task} {capacity : Nat}

/-- The checks of an expression that is within all other limits need room for its peak. -/
theorem needs_check {c : Chain} {opened : Nat} (h : c.Within t.limits opened)
    (position live : Nat) :
    t.Needs capacity (live + c.peak) (c.check t capacity opened position live) := by
  -- Along the tree. The words before a step are live while the step is read.
  induction c generalizing opened position live with
  | root index => exact Task.needs_image h position live
  | image before index ih =>
    have hbefore := ih h.1 position live
    rw [check, peak]
    exact Task.Needs.congr (hbefore.bind (Task.needs_image h.2 _ _)) (by omega)
  | frame how before width height ih =>
    obtain ⟨hwithin, hwidth, hheight⟩ := h
    have hbefore := ih hwithin position live
    rw [check, peak]
    exact Task.Needs.congr (hbefore.bind ((Task.needs_number hwidth _ _).bind
      ((Task.needs_number hheight _ _).bind (Task.needs_room _ _)))) (by omega)
  | blur before strength ih =>
    obtain ⟨hwithin, hstrength⟩ := h
    have hbefore := ih hwithin position live
    rw [check, peak]
    exact Task.Needs.congr (hbefore.bind ((Task.needs_number hstrength _ _).bind
      (Task.needs_room _ _))) (by omega)
  | overlay before argument ih ih' =>
    obtain ⟨hwithin, hdepth, hargument⟩ := h
    have hbefore := ih hwithin position live
    rw [check, peak]
    exact Task.Needs.congr (hbefore.bind ((Task.needs_depth hdepth _).bind
      ((ih' hargument _ _).bind (Task.needs_room _ _)))) (by omega)

/-- The checks of an expression pass exactly where it is within all other limits and there is room
for its peak. -/
theorem check_eq_ok_iff_within {c : Chain} {opened position live : Nat} :
    c.check t capacity opened position live = .ok () ↔
      c.Within t.limits opened ∧ live + c.peak ≤ capacity := by
  constructor
  · intro h
    have hwithin := within_of_check h
    exact ⟨hwithin, (needs_check hwithin position live).eq_ok_iff.1 h⟩
  · rintro ⟨hwithin, hroom⟩
    exact (needs_check hwithin position live).pass hroom

end Chain

/-! ## Compiling with little room -/

variable {t : Task} {capacity : Int} {c : Chain}

/-- What is compiled with any capacity is within all other limits. -/
theorem within_of_compile {e : Encoded} (htext : c.text = t.expression.toList)
    (h : (compile t capacity).result = .ok e) : c.Within t.limits 0 :=
  Chain.within_of_check (check_of_compile htext h)

/-- A grammatical text that is within the limits for indexes, numbers and depths is refused as too
long exactly if its peak is above the capacity, and otherwise it is compiled to its words. The peak
is at least the number of these words, and the same where no image reference stands among the steps
of a chain. -/
theorem compile_tooLong_iff (htext : c.text = t.expression.toList) (hwithin : c.Within t.limits 0)
    (hcapacity : 1 ≤ capacity) :
    ((∃ r, (compile t capacity).result = .error (.rejected r) ∧ r.kind = .tooLong) ↔
        capacity < c.peak) ∧
      (c.peak ≤ capacity →
        (compile t capacity).result = .ok ⟨c.prune.encode.toArray, t.expression⟩) ∧
      c.prune.encode.length ≤ c.peak ∧ (c.Plain → c.prune.encode.length = c.peak) := by
  have hneeds : t.Needs capacity.toNat (0 + c.peak) (c.check t capacity.toNat 0 0 0) :=
    Chain.needs_check hwithin 0 0
  rw [Nat.zero_add] at hneeds
  have hresult := result_compile_eq_map c htext hcapacity
  have hpass : c.peak ≤ capacity →
      (compile t capacity).result = .ok ⟨c.prune.encode.toArray, t.expression⟩ := by
    intro hroom
    rw [hresult, hneeds.pass (by omega)]
    rfl
  refine ⟨⟨?_, ?_⟩, hpass, c.length_encode_prune_le_peak, ?_⟩
  · rintro ⟨r, hrefused, -⟩
    apply Int.not_le.1
    intro hroom
    rw [hpass hroom] at hrefused
    cases hrefused
  · intro hfull
    obtain ⟨place, hcheck⟩ := hneeds.refuse (by omega)
    refine ⟨t.rejection capacity.toNat place .tooLong, ?_, rfl⟩
    rw [hresult, hcheck]
    rfl
  · intro hplain
    exact (Chain.peak_eq_of_plain hplain).symm

/-- An argument of four words that are dropped for two others: eight words are live at a time, of
five in the end. -/
theorem compile_tooLong_iff_overlay :
    let t : Task := ⟨"0.pi(1.gb(7).2)", ⟨some 3, 1, 7⟩⟩
    (compile t 8).result = .ok ⟨#[0, 4, 2, 4, 2], t.expression⟩ ∧
      ∃ r, (compile t 7).result = .error (.rejected r) ∧ r.kind = .tooLong := by
  intro t
  let c := Chain.overlay (.root 0) (.image (.blur (.root 1) (.single 7)) 2)
  have htext : c.text = t.expression.toList := by decide
  have hwithin : c.Within t.limits 0 := by decide
  have hpeak : c.peak = 8 := rfl
  constructor
  · apply (compile_tooLong_iff htext hwithin (by decide)).2.1
    rw [hpeak]
    exact Int.le_refl 8
  · apply (compile_tooLong_iff htext hwithin (by decide)).1.2
    rw [hpeak]
    decide

/-- The words of an expression may fit into a buffer that refuses the expression as too long: the
first reference is dropped only when the second one has been written. -/
theorem compile_tooLong_fitting :
    let t : Task := ⟨"0.1", ⟨none, 64, 255⟩⟩
    (compile t 1024).result = .ok ⟨#[1, 4], t.expression⟩ ∧
      ∃ r, (compile t 2).result = .error (.rejected r) ∧ r.kind = .tooLong := by
  intro t
  let c := Chain.image (.root 0) 1
  have htext : c.text = t.expression.toList := by decide
  constructor
  · rw [result_compile_eq_map c htext (by decide)]
    rfl
  · refine ⟨t.rejection 2 3 .tooLong, ?_, rfl⟩
    rw [result_compile_eq_map c htext (by decide)]
    rfl

end Montage
