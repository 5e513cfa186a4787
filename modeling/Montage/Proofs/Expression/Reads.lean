import Montage.Expression.Grammar

/-!
# What a rule does to a reading

`Reading.Reads s text words s'` says that the reading `s'` comes from `s` by reading a text and
writing words, with the depth, the capacity and all earlier words left alone. Every rule of the
grammar relates the reading before it to the one after it in this way, whatever it answers, and a
transaction that does not match reads and writes nothing (`reads_transact`). The lemmas here
establish the relation for the pieces that rules are made of.
-/

namespace Montage

namespace Buffer

/-- A rollback of an open buffer to a length that it has had is accepted. -/
theorem exists_rollback {b : Buffer} {mark : Nat} (hopen : b.frozen = false)
    (hmark : mark ≤ b.size) :
    ∃ b', b.rollback mark = .ok b' ∧ b'.words = b.words.take mark ∧ b'.capacity = b.capacity ∧
      b'.frozen = false := by
  -- At the current length the buffer stays as it is, its journal included.
  by_cases hless : mark < b.size
  · refine ⟨{ b with
      words := b.words.take mark
      journal := b.journal.push (.undo (b.size - mark) mark) }, ?_, rfl, rfl, hopen⟩
    simp [rollback, hopen, hless, hmark]
  · have heq : b.rollback mark = .ok b := by simp [rollback, hopen, hless, hmark]
    exact ⟨b, heq, (words_rollback heq).2.2, rfl, hopen⟩

/-- Where a word stands at a distance from the end, it is found there. -/
theorem get_of_append {b : Buffer} {front back : List Int} {word : Int} {index : Int}
    (hwords : b.words.toList = front ++ word :: back) (hindex : index = -(back.length + 1 : Nat))
    (hbound : -Index.wordBound ≤ index) : b.get index = .ok word := by
  have hsize : b.words.size = front.length + (back.length + 1) := by
    rw [← Array.length_toList, hwords, List.length_append, List.length_cons]
  have hlt : front.length < b.words.size := by omega
  -- Counted from the end, the index is the place behind the words in front.
  have hplace : Index.place b.words.size index = .ok ⟨front.length, hlt⟩ := by
    rw [Index.place_eq_ok_iff]
    refine ⟨⟨hbound, ?_⟩, .inr ?_⟩
    · simp only [Index.wordBound]
      omega
    · simp only [hsize]
      omega
  rw [get, hplace]
  simp [Except.map, ← Array.getElem_toList, hwords]

end Buffer

/-- The reading `s'` comes from `s` by reading a text and writing words. -/
structure Reading.Reads (s : Reading) (text : List Char) (words : List Int) (s' : Reading) :
    Prop where
  /-- The text stood next. -/
  rest : s.rest = text ++ s'.rest
  /-- The place moves over the text. -/
  position : s'.position = s.position + text.length
  /-- As many overlays are open. -/
  depth : s'.depth = s.depth
  /-- The words are added at the end. -/
  words : s'.buffer.words.toList = s.buffer.words.toList ++ words
  /-- The buffer has the same capacity. -/
  capacity : s'.buffer.capacity = s.buffer.capacity
  /-- The buffer is open or frozen as before. -/
  frozen : s'.buffer.frozen = s.buffer.frozen
  /-- The farthest place does not move back. -/
  farthest : s.farthest ≤ s'.farthest
  /-- The farthest place stays within the text. -/
  farthest_within : s.farthest ≤ s.position + s.rest.length →
    s'.farthest ≤ s'.position + s'.rest.length
  /-- The words stay within the capacity. -/
  size_within : s.buffer.size ≤ s.buffer.capacity → s'.buffer.size ≤ s'.buffer.capacity

namespace Reading

variable {s s' s'' : Reading} {text text' : List Char} {words words' : List Int}

/-- Nothing happens. -/
theorem Reads.refl (s : Reading) : s.Reads [] [] s :=
  ⟨rfl, rfl, rfl, by simp, rfl, rfl, Nat.le_refl _, id, id⟩

/-- One text after the other. -/
theorem Reads.trans (h : s.Reads text words s') (h' : s'.Reads text' words' s'') :
    s.Reads (text ++ text') (words ++ words') s'' where
  rest := by rw [h.rest, h'.rest, List.append_assoc]
  position := by rw [h'.position, h.position, List.length_append, Nat.add_assoc]
  depth := h'.depth.trans h.depth
  words := by rw [h'.words, h.words, List.append_assoc]
  capacity := h'.capacity.trans h.capacity
  frozen := h'.frozen.trans h.frozen
  farthest := Nat.le_trans h.farthest h'.farthest
  farthest_within := h'.farthest_within ∘ h.farthest_within
  size_within := h'.size_within ∘ h.size_within

/-- The number of words after a reading. -/
theorem Reads.size (h : s.Reads text words s') :
    s'.buffer.size = s.buffer.size + words.length := by
  have := congrArg List.length h.words
  simpa [Buffer.size] using this

/-- A text that stands next is read. -/
theorem reads_advance {rest : List Char} (h : s.rest = text ++ rest) :
    s.Reads text [] (s.advance text.length) where
  rest := by simp [advance, h]
  position := rfl
  depth := rfl
  words := by simp [advance]
  capacity := rfl
  frozen := rfl
  farthest := Nat.le_refl _
  farthest_within := by
    intro hwithin
    simp [advance, h] at hwithin ⊢
    omega
  size_within := id

/-- A failure within the text is noted. -/
theorem reads_noteFailure {offset : Nat} (h : offset ≤ s.position + s.rest.length) :
    s.Reads [] [] (s.noteFailure offset) where
  rest := rfl
  position := rfl
  depth := rfl
  words := by simp [noteFailure]
  capacity := rfl
  frozen := rfl
  farthest := Nat.le_max_left ..
  farthest_within := fun hwithin => Nat.max_le.2 ⟨hwithin, h⟩
  size_within := id

/-- A word is written. -/
theorem reads_push {b : Buffer} {w : Word} (h : s.buffer.push w = .ok b) :
    s.Reads [] [w.code] { s with buffer := b } := by
  obtain ⟨-, hroom, rfl⟩ := Buffer.push_eq_ok_iff.1 h
  refine ⟨rfl, rfl, rfl, by simp, rfl, rfl, Nat.le_refl _, id, fun _ => ?_⟩
  simp only [Buffer.size, Array.size_push] at hroom ⊢
  exact hroom

/-- What is read with one more overlay open is read when that overlay is closed again. -/
theorem Reads.nested (h : Reads { s with depth := s.depth + 1 } text words s') :
    s.Reads text words { s' with depth := s'.depth - 1 } := by
  have hdepth : s'.depth - 1 = s.depth := by
    rw [h.depth, Nat.add_sub_cancel]
  exact ⟨h.rest, h.position, hdepth, h.words, h.capacity, h.frozen, h.farthest, h.farthest_within,
    h.size_within⟩

end Reading

namespace Rule

variable {s s' : Reading} {text : List Char} {words : List Int}

/-- The words that were written since an earlier reading can be dropped. -/
theorem exists_rollback (hopen : s.buffer.frozen = false) (h : s.Reads text words s') :
    ∃ b, s'.buffer.rollback s.buffer.mark = .ok b ∧ s.Reads text [] { s' with buffer := b } := by
  have hmark : s.buffer.size ≤ s'.buffer.size := by
    rw [h.size]
    omega
  obtain ⟨b, hroll, hwords, hcapacity, hfrozen⟩ :=
    Buffer.exists_rollback (h.frozen.trans hopen) hmark
  -- The mark is the length at the earlier reading, so exactly the words since then go.
  have htake : b.words.toList = s.buffer.words.toList := by
    rw [hwords, Array.take_eq_extract, Array.toList_extract, h.words]
    simp [Buffer.size]
  have hsize : b.size = s.buffer.size := by
    simpa [Buffer.size] using congrArg List.length htake
  refine ⟨b, hroll, h.rest, h.position, h.depth, by simp [htake], hcapacity.trans h.capacity,
    hfrozen.trans hopen.symm, h.farthest, h.farthest_within, fun hwithin => ?_⟩
  simp only [hsize, hcapacity, h.capacity]
  exact hwithin

/-- Going back to an earlier reading undoes what was read and written since. -/
theorem exists_rewind (hopen : s.buffer.frozen = false) (h : s.Reads text words s')
    (outcome : Outcome) : ∃ s'', rewind s outcome s' = (outcome, s'') ∧ s.Reads [] [] s'' := by
  obtain ⟨b, hroll, hback⟩ := exists_rollback hopen h
  refine ⟨{ s' with rest := s.rest, position := s.position, buffer := b },
    by rw [rewind, hroll], ?_⟩
  refine ⟨rfl, rfl, hback.depth, hback.words, hback.capacity, hback.frozen, hback.farthest,
    fun hwithin => ?_, hback.size_within⟩
  -- The farthest place stays where it is, and the text up to it stands next again.
  have hfarthest := h.farthest_within hwithin
  rw [h.position] at hfarthest
  simp only [h.rest, List.length_append]
  omega

/-- A transaction answers what its rule answers. Unless that is a match, it reads and writes
nothing. -/
theorem reads_transact {r : Rule} (hopen : s.buffer.frozen = false)
    (h : s.Reads text words (r s).2) :
    (transact r s).1 = (r s).1 ∧
      ((r s).1 = .matched → transact r s = r s) ∧
      ((r s).1 ≠ .matched → s.Reads [] [] (transact r s).2) := by
  -- Only a match is kept as it is.
  by_cases hmatched : (r s).1 = .matched
  · rw [transact_eq_of_matched hmatched]
    exact ⟨rfl, fun _ => rfl, fun hne => absurd hmatched hne⟩
  · rw [transact_eq_of_not_matched hmatched]
    obtain ⟨s'', hrewind, hreads⟩ := exists_rewind hopen h (r s).1
    rw [hrewind]
    exact ⟨rfl, fun heq => absurd heq hmatched, fun _ => hreads⟩

/-! ## Fixed texts -/

/-- The common start of two texts is a start of both. -/
theorem take_commonLength (l m : List Char) :
    commonLength l m ≤ l.length ∧ commonLength l m ≤ m.length ∧
      l.take (commonLength l m) = m.take (commonLength l m) := by
  fun_induction commonLength l m with
  | case1 c cs ds ih =>
    obtain ⟨hl, hm, htake⟩ := ih
    exact ⟨by simpa using hl, by simpa using hm, by simpa using htake⟩
  | case2 c cs d ds hne => simp
  | case3 l m hshort => simp

/-- The common start of two texts is the first one exactly when that one starts the second. -/
theorem commonLength_eq_length_iff {l m : List Char} :
    commonLength l m = l.length ↔ l <+: m := by
  constructor
  · intro h
    obtain ⟨-, -, htake⟩ := take_commonLength l m
    rw [h, List.take_length] at htake
    exact htake ▸ List.take_prefix _ _
  · rintro ⟨rest, rfl⟩
    induction l with
    | nil => simp [commonLength]
    | cons c l ih => simp [commonLength, ih]

/-- A fixed text matches where it stands. -/
theorem literal_eq_matched {literalText : String} {rest : List Char}
    (h : s.rest = literalText.toList ++ rest) :
    literal literalText s = (.matched, s.advance literalText.toList.length) := by
  have hcommon : commonLength literalText.toList s.rest = literalText.toList.length :=
    commonLength_eq_length_iff.2 ⟨rest, h.symm⟩
  rw [literal, hcommon, if_pos String.length_toList]

/-- A fixed text fails where it does not stand. -/
theorem literal_eq_failed {literalText : String} (h : ¬ literalText.toList <+: s.rest) :
    ∃ s', literal literalText s = (.failed, s') ∧ s.Reads [] [] s' := by
  have hcommon : commonLength literalText.toList s.rest ≠ literalText.length := by
    rw [← String.length_toList, ne_eq, commonLength_eq_length_iff]
    exact h
  obtain ⟨-, hle, -⟩ := take_commonLength literalText.toList s.rest
  refine ⟨s.noteFailure (s.position + commonLength literalText.toList s.rest), ?_,
    Reading.reads_noteFailure (by omega)⟩
  rw [literal, if_neg hcommon]

/-! ## Writing a word -/

/-- A word is written where there is room. -/
theorem emit_eq_matched {expression : String} {w : Word} (hopen : s.buffer.frozen = false)
    (hroom : s.buffer.size < s.buffer.capacity) :
    ∃ s', emit expression w s = (.matched, s') ∧ s.Reads [] [w.code] s' := by
  have hpush := (Buffer.push_eq_ok_iff (w := w)).2 ⟨hopen, hroom, rfl⟩
  exact ⟨_, by rw [emit, hpush], Reading.reads_push hpush⟩

/-- A full buffer refuses the expression. -/
theorem emit_eq_stopped {expression : String} {w : Word} (hopen : s.buffer.frozen = false)
    (hfull : s.buffer.capacity ≤ s.buffer.size) :
    emit expression w s = (.stopped (.rejected (.tooLong expression s.position
      (Buffer.Fault.full s.buffer.capacity).message)), s) := by
  simp [emit, Buffer.push, hopen, hfull]

end Rule

end Montage
