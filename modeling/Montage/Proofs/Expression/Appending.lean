import Montage.Proofs.Expression.Behind
import Montage.Proofs.Expression.Compilation

/-!
# Appending to a buffer that is in use

Appending a text to a buffer does what compiling it into the free places of that buffer does: the
words are added behind those that are there already, or there are no new words and the fault is the
one of the compilation. So texts that are appended one after the other leave the words of those that
fit and are well formed, in order (`append_compiles_into_free`).
-/

namespace Montage

open Grammar Rule

namespace Buffer

/-- The number of words for which there is room. -/
def free (b : Buffer) : Nat :=
  b.capacity - b.size

/-- Appends texts one after the other, whether they are refused or not. -/
def appendAll (b : Buffer) (texts : List Task) : Buffer :=
  texts.foldl (fun b t => (append t b).2) b

end Buffer

/-- The words of a text that compiles into a number of free places; none if it does not. -/
def Task.wordsWithin (t : Task) (free : Nat) : List Int :=
  match (compile t free).result with
  | .ok e => e.words.toList
  | .error _ => []

/-- The words of the texts that compile, each into the places that the earlier ones leave free. -/
def wordsWithin : List Task → Nat → List Int
  | [], _ => []
  | t :: texts, free =>
    t.wordsWithin free ++ wordsWithin texts (free - (t.wordsWithin free).length)

variable {t : Task} {b base buffer : Buffer}

/-- Where a text is not read as a whole, its words are taken back behind earlier ones, too. -/
theorem append_behind_of_part {outcome : Outcome} {s : Reading} {text : List Char}
    {words : List Int} (hopen : b.frozen = false)
    (hs : expression t (.start t.expression b) = (outcome, s))
    (hs' : expression t (.start t.expression (b.behind base)) = (outcome, s.behind base))
    (hpart : outcome = .failed ∨ outcome = .matched ∧ s.rest ≠ [])
    (hreads : (Reading.start t.expression b).Reads text words s) : ∃ fault back,
      append t b = (.error fault, back) ∧
      append t (b.behind base) = (.error fault, back.behind base) ∧
      (Reading.start t.expression b).Reads text [] { s with buffer := back } := by
  obtain ⟨back, hroll, hback⟩ := exists_rollback hopen hreads
  have hroll' : (s.behind base).buffer.rollback (b.behind base).mark = .ok (back.behind base) :=
    rollback_mark_behind (s := .start t.expression b) hroll
  have hpart' : outcome = .failed ∨ outcome = .matched ∧ (s.behind base).rest ≠ [] := hpart
  have hsecond := append_eq_ungrammatical hs' hpart' hroll'
  exact ⟨_, back, append_eq_ungrammatical hs hpart hroll, hsecond, hback⟩

/-- Appending answers the same behind earlier words, and leaves the same words behind them. Without
success there are no new words. -/
theorem append_behind (t : Task) (base : Buffer) (hopen : b.frozen = false)
    (hfits : b.size ≤ b.capacity) : ∃ answer answer' text words s,
      append t b = (answer, s.buffer) ∧
      append t (b.behind base) = (answer', s.buffer.behind base) ∧
      (Reading.start t.expression b).Reads text words s ∧
      ((answer = .ok () ∧ answer' = .ok ()) ∨ ∃ fault fault', answer = .error fault ∧
        answer' = .error fault' ∧ fault.Behind base.size fault' ∧ words = []) := by
  have hstart : (Reading.start t.expression b).Open := ⟨hopen, hfits⟩
  have huniform : (expression t).Uniform base (.start t.expression b) := uniform_expression hstart
  obtain ⟨outcome, text, words, ⟨s, hs, hreads⟩, -, hnothing⟩ :=
    neat_expression (t := t) (k := 0) hstart
  cases outcome with
  | failed =>
    obtain ⟨fault, back, hfirst, hsecond, hback⟩ :=
      append_behind_of_part hopen hs (huniform.eq_failed hs) (.inl rfl) hreads
    exact ⟨_, _, _, _, _, hfirst, hsecond, hback, .inr ⟨_, _, rfl, rfl, .refl fault, rfl⟩⟩
  | stopped fault =>
    obtain ⟨fault', hfault, hs'⟩ := huniform.exists_stopped hs
    exact ⟨_, _, text, words, s, append_eq_error hs, append_eq_error hs', hreads,
      .inr ⟨fault, fault', rfl, rfl, hfault, (hnothing (by simp)).2⟩⟩
  | matched =>
    have hs' := huniform.eq_matched hs
    by_cases hend : s.rest = []
    · exact ⟨_, _, text, words, s, append_eq_ok hs hend, append_eq_ok hs' hend, hreads,
        .inl ⟨rfl, rfl⟩⟩
    · obtain ⟨fault, back, hfirst, hsecond, hback⟩ :=
        append_behind_of_part hopen hs hs' (.inr ⟨rfl, hend⟩) hreads
      exact ⟨_, _, _, _, _, hfirst, hsecond, hback, .inr ⟨_, _, rfl, rfl, .refl fault, rfl⟩⟩

/-! ## Into the free places -/

/-- A buffer is an empty one behind its words. -/
theorem behind_freshBuffer (hopen : buffer.frozen = false) (hfits : buffer.size ≤ buffer.capacity) :
    (freshBuffer buffer.free).behind buffer = buffer := by
  obtain ⟨capacity, words, frozen, journal⟩ := buffer
  obtain rfl : frozen = false := hopen
  have hcapacity : words.size + (capacity - words.size) = capacity := Nat.add_sub_of_le hfits
  simp [freshBuffer, Buffer.behind, Buffer.free, Buffer.size, hcapacity]

/-- Appending to a buffer in use is appending to an empty one with its free places. -/
theorem append_eq_append_fresh (t : Task) (hopen : buffer.frozen = false)
    (hfits : buffer.size ≤ buffer.capacity) : ∃ answer answer' text words s,
      append t (freshBuffer buffer.free) = (answer, s.buffer) ∧
      append t buffer = (answer', s.buffer.behind buffer) ∧
      (Reading.fresh t buffer.free).Reads text words s ∧
      ((answer = .ok () ∧ answer' = .ok ()) ∨ ∃ fault fault', answer = .error fault ∧
        answer' = .error fault' ∧ fault.Behind buffer.size fault' ∧ words = []) := by
  have hbehind := append_behind t buffer (b := freshBuffer buffer.free) rfl (Nat.zero_le _)
  rw [behind_freshBuffer hopen hfits] at hbehind
  exact hbehind

/-- Where appending to an empty buffer adds words only if it succeeds, these are the words that
compile into its places. -/
theorem wordsWithin_eq {free : Nat} {answer : Except Fault Unit} {text : List Char}
    {words : List Int} {s : Reading} (hfresh : append t (freshBuffer free) = (answer, s.buffer))
    (hreads : (Reading.fresh t free).Reads text words s)
    (hanswer : answer = .ok () ∨ (∃ fault, answer = .error fault) ∧ words = []) :
    t.wordsWithin free = words := by
  have hwords : s.buffer.words = words.toArray := words_of_reads_fresh hreads
  unfold Task.wordsWithin
  by_cases hfree : 1 ≤ free
  · rw [result_compile_eq (by omega), hfresh]
    obtain rfl | ⟨⟨fault, rfl⟩, rfl⟩ := hanswer
    · simp [Except.map, hwords]
    · rfl
  · -- Without a place nothing compiles, and there is no room for a word.
    obtain rfl : free = 0 := by omega
    have hnone : words.length = 0 := by
      have hsize : s.buffer.size ≤ s.buffer.capacity := hreads.size_within (Nat.zero_le _)
      have hcapacity : s.buffer.capacity = 0 := hreads.capacity
      simp only [Buffer.size, hwords, List.size_toArray] at hsize
      omega
    rw [List.length_eq_zero_iff.1 hnone]
    rfl

/-- What appending does to a buffer: it adds the words that compile into its free places. -/
theorem buffer_append (t : Task) (hopen : buffer.frozen = false)
    (hfits : buffer.size ≤ buffer.capacity) :
    (append t buffer).2.words.toList = buffer.words.toList ++ t.wordsWithin buffer.free ∧
      (append t buffer).2.capacity = buffer.capacity ∧ (append t buffer).2.frozen = false ∧
      (append t buffer).2.size ≤ (append t buffer).2.capacity := by
  obtain ⟨answer, answer', text, words, s, hfresh, hhere, hreads, hanswers⟩ :=
    append_eq_append_fresh t hopen hfits
  have hcompiled : t.wordsWithin buffer.free = words := by
    refine wordsWithin_eq hfresh hreads ?_
    obtain ⟨hok, -⟩ | ⟨fault, -, herror, -, -, hnone⟩ := hanswers
    · exact .inl hok
    · exact .inr ⟨⟨fault, herror⟩, hnone⟩
  have hwords : s.buffer.words = words.toArray := words_of_reads_fresh hreads
  have hcapacity : s.buffer.capacity = buffer.free := hreads.capacity
  have hroom : s.buffer.size ≤ s.buffer.capacity := hreads.size_within (Nat.zero_le _)
  rw [hhere, hcompiled]
  refine ⟨by simp [Buffer.behind, hwords], ?_, hreads.frozen, ?_⟩
  · simp only [Buffer.behind, hcapacity]
    exact Nat.add_sub_of_le hfits
  · rw [Buffer.size_behind]
    exact Nat.add_le_add_left hroom buffer.size

/-- Appending texts one after the other adds, in order, the words of those that compile. -/
theorem words_appendAll (texts : List Task) (hopen : buffer.frozen = false)
    (hfits : buffer.size ≤ buffer.capacity) : (buffer.appendAll texts).words.toList =
      buffer.words.toList ++ wordsWithin texts buffer.free := by
  -- On the texts; each one leaves an open buffer with fewer free places.
  induction texts generalizing buffer with
  | nil => simp [Buffer.appendAll, wordsWithin]
  | cons t texts ih =>
    obtain ⟨hwords, hcapacity, hopen', hfits'⟩ := buffer_append t hopen hfits
    have hsize : (append t buffer).2.size = buffer.size + (t.wordsWithin buffer.free).length := by
      simpa [Buffer.size] using congrArg List.length hwords
    have hfree : (append t buffer).2.free = buffer.free - (t.wordsWithin buffer.free).length := by
      simp only [Buffer.free, hcapacity, hsize]
      omega
    have hrest := ih hopen' hfits'
    rw [hwords, hfree, List.append_assoc] at hrest
    exact hrest

/-- A text that is appended behaves as if it were compiled into the free places of the buffer: both
succeed, and the words of the compilation are added at the end, or both fail with the same fault,
and the words are what they were. Texts that are appended one after the other therefore leave the
words of those that compile, in order. -/
theorem append_compiles_into_free (t : Task) (hopen : buffer.frozen = false)
    (hfits : buffer.size ≤ buffer.capacity) :
    (buffer.size < buffer.capacity →
      (∃ e b, (compile t buffer.free).result = .ok e ∧ append t buffer = (.ok (), b) ∧
        b.words = buffer.words ++ e.words) ∨
      (∃ fault fault' b, (compile t buffer.free).result = .error fault ∧
        append t buffer = (.error fault', b) ∧ fault.Behind buffer.size fault' ∧
        b.words = buffer.words)) ∧
    ∀ texts : List Task, (buffer.appendAll texts).words.toList =
      buffer.words.toList ++ wordsWithin texts buffer.free := by
  refine ⟨fun hroom => ?_, fun texts => words_appendAll texts hopen hfits⟩
  have hfree : 1 ≤ (buffer.free : Int) := by
    unfold Buffer.free
    omega
  obtain ⟨answer, answer', text, words, s, hfresh, hhere, hreads, hanswers⟩ :=
    append_eq_append_fresh t hopen hfits
  have hwords : s.buffer.words = words.toArray := words_of_reads_fresh hreads
  have hresult := result_compile_eq (t := t) hfree
  rw [hfresh] at hresult
  obtain ⟨rfl, rfl⟩ | ⟨fault, fault', rfl, rfl, hfault, rfl⟩ := hanswers
  · exact .inl ⟨_, _, hresult, hhere, rfl⟩
  · exact .inr ⟨fault, fault', _, hresult, hhere, hfault, by simp [Buffer.behind, hwords]⟩

/-- Behind the words of an image reference, which the chain inside the brackets does not take for
its own. The second text is no expression, and the third one comes when a place is missing. -/
theorem append_compiles_into_free_overlay :
    let buffer : Buffer := ⟨9, #[0, 4], false, #[]⟩
    let limits : Limits := ⟨some 4, 64, 2147483647⟩
    let t : Task := ⟨"1.pi(2.3)", limits⟩
    buffer.frozen = false ∧ buffer.size < buffer.capacity ∧
      (append t buffer).2.words = #[0, 4] ++ #[1, 4, 3, 4, 2] ∧
      (buffer.appendAll [t, ⟨"1.gb(", limits⟩, ⟨"1.gb(7)", limits⟩, ⟨"2", limits⟩]).words.toList =
        [0, 4] ++ [1, 4, 3, 4, 2, 2, 4] := by
  intro buffer limits t
  have hopen : buffer.frozen = false := rfl
  obtain ⟨hone, hall⟩ := append_compiles_into_free t hopen (by decide)
  have hcompile : (compile t buffer.free).result.toOption =
      some ⟨#[1, 4, 3, 4, 2], "1.pi(2.3)"⟩ := by
    decide +kernel
  refine ⟨rfl, by decide, ?_, ?_⟩
  · obtain ⟨e, b, he, hb, hwords⟩ | ⟨fault, -, -, hfault, -⟩ := hone (by decide)
    · rw [he] at hcompile
      rw [hb, hwords, Option.some.inj hcompile]
    · rw [hfault] at hcompile
      cases hcompile
  · rw [hall]
    congr 1
    decide +kernel

end Montage
