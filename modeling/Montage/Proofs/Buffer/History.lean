import Montage.Buffer.Request
import Montage.Proofs.Expression.Number

/-!
# Everything that can be asked of a buffer

A buffer is used through requests, in any order, and goes on after those that it refuses. What one
request makes of the buffer is one of four moves (`move_serve`). Each of them keeps the capacity,
stays within it, leaves a frozen buffer alone, and touches no word below a length that is kept
(`Move.take_eq`); so do any number of them, by induction on the requests. `create_orderly` collects
what holds after every history: when a request is refused and what that leaves behind, that freezing
is final, and that going back to a mark brings the words back that were there when it was taken.

A refusal changes nothing but for one case: a number whose numeral is too long is appended before
its record fails, and then stays (`serve_push_long`).
-/

namespace Montage.Buffer

variable {b b' : Buffer}

/-! ## One request -/

/-- What one request can make of a buffer. The journal is left open here. -/
inductive Move (b : Buffer) : Buffer → Prop where
  /-- Nothing changes. -/
  | stay : Move b b
  /-- An open buffer with room gets one word more. -/
  | append (value : Int) (journal : Array Change) (hopen : b.frozen = false)
      (hroom : b.size < b.capacity) :
      Move b { b with words := b.words.push value, journal }
  /-- An open buffer loses its last words. -/
  | truncate (target : Nat) (journal : Array Change) (hopen : b.frozen = false)
      (htarget : target < b.size) :
      Move b { b with words := b.words.take target, journal }
  /-- Writing ends. -/
  | close : Move b { b with frozen := true }

namespace Move

/-- The capacity is kept. -/
theorem capacity_eq (h : Move b b') : b'.capacity = b.capacity := by
  cases h with
  | stay | append _ _ _ _ | truncate _ _ _ _ | close => rfl

/-- A buffer within its capacity stays within it. -/
theorem size_le (h : Move b b') (hb : b.size ≤ b.capacity) : b'.size ≤ b'.capacity := by
  cases h with
  | stay | close => exact hb
  | append value _ _ hroom =>
    have hsize : (b.words.push value).size = b.size + 1 := Array.size_push ..
    simp only [size] at *
    omega
  | truncate target _ _ htarget =>
    have hsize : (b.words.take target).size = min target b.size := by simp [size]
    simp only [size] at *
    omega

/-- A frozen buffer does not change. -/
theorem eq_of_frozen (h : Move b b') (hb : b.frozen = true) : b' = b := by
  cases h with
  | stay => rfl
  | append _ _ hopen _ => simp [hb] at hopen
  | truncate _ _ hopen _ => simp [hb] at hopen
  | close => rw [← hb]

/-- The words up to a length that the buffer has before and after are not touched. -/
theorem take_eq (h : Move b b') {m : Nat} (hm : m ≤ b.size) (hm' : m ≤ b'.size) :
    b'.words.take m = b.words.take m := by
  cases h with
  | stay | close => rfl
  | append value _ _ _ =>
    rw [size] at hm
    simp [hm]
  | truncate target _ _ _ =>
    have htarget : m ≤ target := by
      rw [size, Array.take_eq_extract, Array.size_extract] at hm'
      omega
    simp [htarget]

end Move

/-- Going back drops the last words, if any. -/
theorem move_rollback {target : Int} (h : b.rollback target = .ok b') : Move b b' := by
  unfold rollback at h
  split at h
  · cases h
  · rename_i hopen
    split at h
    · cases h
    · split at h
      · rename_i htarget
        cases h
        exact .truncate _ _ (by simpa using hopen) htarget
      · cases h
        exact .stay

/-- Every request makes one of the four moves. -/
theorem move_serve (b : Buffer) (r : Request) : Move b (b.serve r).2 := by
  cases r with
  | push w =>
    rw [serve_push]
    cases hpush : b.push w with
    | error fault => exact .stay
    | ok b' =>
      obtain ⟨hopen, hroom, rfl⟩ := push_eq_ok_iff.1 hpush
      cases w.shown with
      | error fault => exact .append _ _ hopen hroom
      | ok text => exact .append _ _ hopen hroom
  | rollback target =>
    rw [serve_rollback]
    cases hrollback : b.rollback target with
    | error fault => exact .stay
    | ok b' => exact move_rollback hrollback
  | freeze source => exact .close
  | mark | get _ | words | size | frozen | summary => exact .stay

/-- A word is refused exactly by a frozen and by a full buffer, and when it has no numeral. -/
theorem push_refused_iff (hb : b.size ≤ b.capacity) (w : Word) :
    (∃ fault, (b.serve (.push w)).1 = .error fault) ↔
      b.frozen = true ∨ b.size = b.capacity ∨ w.IsLong := by
  rw [serve_push, push]
  by_cases hfrozen : b.frozen = true
  · simp [hfrozen]
  · rw [if_neg hfrozen]
    -- Within the capacity, a buffer without room is as long as the capacity.
    by_cases hfull : b.capacity ≤ b.size
    · have heq : b.size = b.capacity := by omega
      simp [heq]
    · have hne : b.size ≠ b.capacity := by omega
      rw [if_neg hfull]
      by_cases hlong : w.IsLong
      · simp [shown_eq_error hlong, hlong]
      · obtain ⟨text, htext⟩ := exists_shown hlong
        simp [htext, hfrozen, hne, hlong]

/-- Going back is refused exactly by a frozen buffer, and to where no word ends. -/
theorem rollback_refused_iff (b : Buffer) (target : Int) :
    (∃ fault, (b.serve (.rollback target)).1 = .error fault) ↔
      b.frozen = true ∨ ¬ (0 ≤ target ∧ target ≤ b.size) := by
  rw [serve_rollback, rollback]
  by_cases hfrozen : b.frozen = true
  · simp [hfrozen]
  · rw [if_neg hfrozen]
    by_cases htarget : target < 0 ∨ (b.size : Int) < target
    · have houtside : ¬ (0 ≤ target ∧ target ≤ b.size) := by omega
      simp [htarget, houtside]
    · have hinside : 0 ≤ target ∧ target ≤ b.size := by omega
      rw [if_neg htarget]
      by_cases hshorter : target.toNat < b.size <;> simp [hfrozen, hinside, hshorter]

/-- Going back, where it is not refused, leaves the words up to the target. -/
theorem words_serve_rollback {target : Int} {answer : Answer}
    (h : (b.serve (.rollback target)).1 = .ok answer) :
    (b.serve (.rollback target)).2.words = b.words.take target.toNat := by
  rw [serve_rollback] at h ⊢
  cases hrollback : b.rollback target with
  | error fault => simp [hrollback] at h
  | ok b' => exact (words_rollback hrollback).2.2

/-- A word that is not refused stands behind the others. -/
theorem words_serve_push {w : Word} {answer : Answer} (h : (b.serve (.push w)).1 = .ok answer) :
    (b.serve (.push w)).2.words = b.words.push w.code := by
  rw [serve_push] at h ⊢
  cases hpush : b.push w with
  | error fault => simp [hpush] at h
  | ok b' =>
    obtain ⟨-, -, rfl⟩ := push_eq_ok_iff.1 hpush
    cases w.shown with
    | error fault => rfl
    | ok text => rfl

/-- An open buffer with room refuses a number without numeral only when it has appended it. -/
theorem serve_push_long {w : Word} (hopen : b.frozen = false) (hroom : b.size < b.capacity)
    (hlong : w.IsLong) :
    b.serve (.push w) =
      (.error (.numeral .written), { b with words := b.words.push w.code }) := by
  rw [serve_push, push_eq_ok_iff.2 ⟨hopen, hroom, rfl⟩, shown_eq_error hlong]

/-- A refused request leaves the buffer as it was, unless it was to append a number without numeral
where there was room. -/
theorem serve_refused {r : Request} {fault : Request.Fault} (h : (b.serve r).1 = .error fault) :
    (b.serve r).2 = b ∨
      ∃ w : Word, r = .push w ∧ w.IsLong ∧ b.frozen = false ∧ b.size < b.capacity := by
  cases r with
  | push w =>
    rw [serve_push] at h ⊢
    cases hpush : b.push w with
    | error fault => exact .inl rfl
    | ok b' =>
      obtain ⟨hopen, hroom, -⟩ := push_eq_ok_iff.1 hpush
      refine .inr ⟨w, rfl, ?_, hopen, hroom⟩
      refine Classical.byContradiction fun hshort => ?_
      obtain ⟨text, htext⟩ := exists_shown hshort
      simp [hpush, htext] at h
  | rollback target =>
    rw [serve_rollback] at h ⊢
    cases hrollback : b.rollback target with
    | error fault => exact .inl rfl
    | ok b' => simp [hrollback] at h
  | freeze source => cases h
  | mark | get _ | words | size | frozen | summary => exact .inl rfl

/-! ## Any number of requests -/

/-- No request: nothing happens. -/
@[simp]
theorem after_nil (b : Buffer) : b.after [] = b :=
  rfl

/-- The first request, then the others. -/
@[simp]
theorem after_cons (b : Buffer) (r : Request) (later : List Request) :
    b.after (r :: later) = (b.serve r).2.after later :=
  rfl

/-- What every move keeps is kept by all requests. -/
theorem after_induction (Holds : Buffer → Prop)
    (hmove : ∀ {b b'}, Move b b' → Holds b → Holds b') (requests : List Request) (hb : Holds b) :
    Holds (b.after requests) := by
  induction requests generalizing b with
  | nil => exact hb
  | cons r later ih => exact ih (hmove (move_serve b r) hb)

/-- A frozen buffer stays as it is, whatever is asked of it. -/
theorem after_of_frozen (hb : b.frozen = true) (requests : List Request) :
    b.after requests = b := by
  induction requests with
  | nil => rfl
  | cons r later ih => rw [after_cons, (move_serve b r).eq_of_frozen hb, ih]

/-- As long as the buffer never gets shorter than a length, the words up to there are not
touched. -/
theorem take_after {m : Nat} {later : List Request} (hm : m ≤ b.size)
    (hfloor : ∀ done, done <+: later → m ≤ (b.after done).size) :
    (b.after later).words.take m = b.words.take m := by
  -- On the requests; the lengths on the way from the second buffer are among those from the first.
  induction later generalizing b with
  | nil => rfl
  | cons r later ih =>
    have hstep : m ≤ (b.serve r).2.size :=
      hfloor [r] (List.cons_prefix_cons.2 ⟨rfl, List.nil_prefix⟩)
    rw [after_cons, ih hstep fun done hdone =>
      hfloor (r :: done) (List.cons_prefix_cons.2 ⟨rfl, hdone⟩)]
    exact (move_serve b r).take_eq hm hstep

/-! ## All histories -/

/-- Whether a request only asks about the buffer. -/
def Request.IsQuestion : Request → Prop
  | push _ | rollback _ | freeze _ => False
  | mark | get _ | words | size | frozen | summary => True

/-- What can be relied on about a buffer of a capacity. -/
structure Orderly (capacity : Int) (b : Buffer) : Prop where
  /-- The length is within the capacity. -/
  size_le : b.size ≤ capacity
  /-- A word is refused exactly if the buffer is frozen or full, or the word has no numeral. -/
  push_refused : ∀ w : Word, (∃ fault, (b.serve (.push w)).1 = .error fault) ↔
    b.frozen = true ∨ b.size = capacity ∨ w.IsLong
  /-- A word that is not refused is the last one then. -/
  push_accepted : ∀ (w : Word) (answer : Answer), (b.serve (.push w)).1 = .ok answer →
    (b.serve (.push w)).2.words = b.words.push w.code
  /-- Going back is refused exactly if the buffer is frozen or no word ends at the target. -/
  rollback_refused : ∀ target : Int, (∃ fault, (b.serve (.rollback target)).1 = .error fault) ↔
    b.frozen = true ∨ ¬ (0 ≤ target ∧ target ≤ b.size)
  /-- What is refused leaves the buffer as it was. Only a number without numeral that is pushed
  where there is room has been appended, without a record. -/
  refused : ∀ (r : Request) (fault : Request.Fault), (b.serve r).1 = .error fault →
    (b.serve r).2 = b ∨ ∃ w : Word, r = .push w ∧ w.IsLong ∧ b.frozen = false ∧
      b.size < capacity ∧ (b.serve r).2 = { b with words := b.words.push w.code }
  /-- Asking about the buffer does not change it. -/
  asked : ∀ r : Request, r.IsQuestion → (b.serve r).2 = b
  /-- Once frozen it does not change again. -/
  frozen_final : b.frozen = true → ∀ later, b.after later = b
  /-- Freezing hands out the words, and whatever comes later they are the words of the buffer. -/
  handed_out : ∀ source : String,
    (b.serve (.freeze source)).1 = .ok (.expression ⟨b.words, source⟩) ∧
    ∀ later, ((b.serve (.freeze source)).2.after later).words = b.words
  /-- Going back to a mark, however stale, brings back the words that were there when it was taken,
  provided that the buffer was not shorter in between. -/
  restored : ∀ (m : Int) (later : List Request) (answer : Answer),
    (b.serve .mark).1 = .ok (.number m) →
    (∀ done, done <+: later → m ≤ (b.after done).size) →
    ((b.after later).serve (.rollback m)).1 = .ok answer →
    ((b.after later).serve (.rollback m)).2.words = b.words

/-- A buffer within its capacity can be relied on. -/
theorem orderly_of_size_le (hb : b.size ≤ b.capacity) : Orderly b.capacity b where
  size_le := Int.ofNat_le.2 hb
  push_refused w := by
    rw [push_refused_iff hb w, Int.natCast_inj]
  push_accepted _ _ := words_serve_push
  rollback_refused := rollback_refused_iff b
  refused r fault h := by
    obtain hsame | ⟨w, rfl, hlong, hopen, hroom⟩ := serve_refused h
    · exact .inl hsame
    · exact .inr ⟨w, rfl, hlong, hopen, Int.ofNat_lt.2 hroom,
        congrArg Prod.snd (serve_push_long hopen hroom hlong)⟩
  asked r hr := by
    cases r with
    | push _ | rollback _ | freeze _ => exact hr.elim
    | mark | get _ | words | size | frozen | summary => rfl
  frozen_final := after_of_frozen
  handed_out source := by
    refine ⟨rfl, fun later => ?_⟩
    rw [after_of_frozen rfl]
    rfl
  restored m later answer hmark hfloor h := by
    obtain rfl : (b.size : Int) = m := by simpa [serve, Request.work, telling, mark] using hmark
    rw [words_serve_rollback h, Int.toNat_natCast,
      take_after (Nat.le_refl _) fun done hdone => Int.ofNat_le.1 (hfloor done hdone)]
    simp [size]

/-- A buffer of any capacity from one on can be relied on after every history of requests. -/
theorem create_orderly {capacity : Int} (h : 1 ≤ capacity) :
    ∃ start, create capacity = .ok start ∧
      ∀ requests, Orderly capacity (start.after requests) := by
  refine ⟨⟨capacity.toNat, #[], false, #[]⟩, if_neg (by omega), fun requests => ?_⟩
  obtain ⟨hcapacity, hsize⟩ :=
    after_induction (fun b => b.capacity = capacity.toNat ∧ b.size ≤ b.capacity)
      (fun hmove hb => ⟨hmove.capacity_eq.trans hb.1, hmove.size_le hb.2⟩) requests
      (b := ⟨capacity.toNat, #[], false, #[]⟩) ⟨rfl, Nat.zero_le _⟩
  have horderly := orderly_of_size_le hsize
  rwa [hcapacity, Int.toNat_of_nonneg (by omega)] at horderly

/-- Two marks, one in the scope of the other, in a buffer of capacity three. The inner one is gone
back to, words are written over what was there, a request fails, and still the outer mark brings its
one word back. -/
theorem create_orderly_nested :
    let b : Buffer := ⟨3, #[7], false, #[.put (.number 7) 0]⟩
    let later : List Request := [.push (.number 8), .mark, .push (.tag .image), .rollback 2,
      .push (.number 9), .push (.number 10), .rollback 5]
    (1 : Int) ≤ 3 ∧ create 3 = .ok ⟨3, #[], false, #[]⟩ ∧
      (Buffer.after ⟨3, #[], false, #[]⟩ [.push (.number 7)]) = b ∧
      (b.after later).words = #[7, 8, 9] ∧
      ((b.after later).serve (.rollback 1)).2.words = #[7] := by
  refine ⟨by decide, rfl, rfl, rfl, ?_⟩
  obtain ⟨start, hstart, horderly⟩ := create_orderly (show (1 : Int) ≤ 3 by decide)
  obtain rfl : (⟨3, #[], false, #[]⟩ : Buffer) = start := Except.ok.inj hstart
  refine (horderly [.push (.number 7)]).restored 1 _ .done rfl (fun done hdone => ?_) rfl
  simp only [List.prefix_cons_iff, List.prefix_nil] at hdone
  obtain rfl | ⟨_, rfl, rfl | ⟨_, rfl, rfl | ⟨_, rfl, rfl | ⟨_, rfl, rfl | ⟨_, rfl, rfl |
    ⟨_, rfl, rfl | ⟨_, rfl, rfl⟩⟩⟩⟩⟩⟩⟩ := hdone
  all_goals exact Int.ofNat_le.2 (by decide)

/-- A refusal can change the words: a number of more than 4300 digits is refused by an empty buffer
with room for eight words, and is in it all the same. -/
theorem push_long_kept :
    let b : Buffer := ⟨8, #[], false, #[]⟩
    let r : Request := .push (.number (10 ^ Numeral.longest : Nat))
    create 8 = .ok b ∧ (∃ fault, (b.serve r).1 = .error fault) ∧
      ¬ (b.frozen = true ∨ b.size = b.capacity) ∧ (b.serve r).2.words ≠ b.words := by
  have hlong : (Word.number (10 ^ Numeral.longest : Nat)).IsLong :=
    Numeral.longest_lt_length_decimal
  refine ⟨rfl, ?_, by decide, ?_⟩
  · rw [serve_push_long rfl (by decide) hlong]
    exact ⟨_, rfl⟩
  · rw [serve_push_long rfl (by decide) hlong]
    intro hsame
    have hsize := congrArg Array.size hsame
    rw [Array.size_push] at hsize
    exact Nat.succ_ne_zero _ hsize

end Montage.Buffer
