import Mathlib.Data.List.Basic
import Montage.Proofs.Buffer.History
import Montage.Proofs.Text.Numerals

/-!
# Reading the words off the journal

A change in the journal says what was done to the words, and `Change.redo` does it again to words
that it can have been done to: the index of a new word is the number of words before it, and what is
dropped reaches from the mark to the end. `Journaled` follows requests one by one and says that each
of them has made one entry if it has changed the words, and none otherwise. Requests that push no
number without numeral are journaled (`exists_journaled`), and then making the changes again brings
the words that the requests have left (`Journaled.replay`).

Two different changes have different texts (`Change.message_injective`), so whoever reads the log
can do the same with the texts of the entries.
-/

namespace Montage.Buffer

/-- Makes a change again, to words that it can have been made to. -/
def Change.redo (words : Array Int) : Change → Option (Array Int)
  | put w index => if index = words.size then some (words.push w.code) else none
  | undo count mark =>
    if words.size = mark + count ∧ 1 ≤ count then some (words.take (words.size - count)) else none

/-- Makes changes again, the first one first. -/
def replay (words : Array Int) (changes : List Change) : Option (Array Int) :=
  changes.foldlM Change.redo words

/-- Requests to a buffer have made the changes: one for each request that has changed the words, and
none for the others. -/
inductive Journaled : Buffer → List Request → List Change → Prop where
  /-- No request, no change. -/
  | nil {b : Buffer} : Journaled b [] []
  /-- A request that leaves the words alone makes no entry. -/
  | silent {b : Buffer} {r : Request} {later : List Request} {changes : List Change}
    (hwords : (b.serve r).2.words = b.words) (hjournal : (b.serve r).2.journal = b.journal)
    (hlater : Journaled (b.serve r).2 later changes) :
    Journaled b (r :: later) changes
  /-- A request that changes the words makes one entry, which says what it has done. -/
  | noted {b : Buffer} {r : Request} {later : List Request} {c : Change} {changes : List Change}
    (hwords : (b.serve r).2.words ≠ b.words) (hredo : c.redo b.words = some (b.serve r).2.words)
    (hjournal : (b.serve r).2.journal = b.journal.push c)
    (hlater : Journaled (b.serve r).2 later changes) :
    Journaled b (r :: later) (c :: changes)

variable {b b' : Buffer} {requests : List Request} {changes : List Change}

/-! ## The texts of changes -/

/-- Different words are shown differently. -/
theorem label_injective : Function.Injective Word.label := by
  -- A number has no bracket.
  have hother (n : Int) (t : Tag) : Word.label (.number n) ≠ Word.label (.tag t) := by
    intro h
    refine Numeral.not_mem_toString (c := '<') (by decide) (by decide) n ?_
    rw [show toString n = t.label from h]
    cases t <;> decide
  intro w w' h
  cases w with
  | number n =>
    cases w' with
    | number n' => exact congrArg Word.number (Numeral.toString_inj.1 h)
    | tag t => exact absurd h (hother n t)
  | tag t =>
    cases w' with
    | number n => exact absurd h.symm (hother n t)
    | tag t' => cases t <;> cases t' <;> first | rfl | exact absurd h (by decide)

/-- No word is shown with the sign that stands before its index. -/
theorem not_mem_label (w : Word) : '@' ∉ w.label.toList := by
  cases w with
  | number n => exact Numeral.not_mem_toString (by decide) (by decide) n
  | tag t => cases t <;> decide

/-- The characters of the text of a new word. -/
theorem toList_message_put (w : Word) (i : Nat) : (Change.put w i).message.toList =
    ("PUT ".toList ++ w.label.toList ++ [' ']) ++ '@' :: i.repr.toList := by
  have hindex : toString " @" = " @" := rfl
  simp [Change.message, hindex]

/-- The characters of the text of dropped words. -/
theorem toList_message_undo (k m : Nat) : (Change.undo k m).message.toList =
    ("UNDO ".toList ++ k.repr.toList ++ " word(s) back to ".toList) ++ '@' :: m.repr.toList := by
  have hcount : toString "UNDO " = "UNDO " := rfl
  have hmark : toString " word(s) back to @" = " word(s) back to @" := rfl
  simp [Change.message, hcount, hmark]

/-- Different changes have different texts. -/
theorem Change.message_injective : Function.Injective Change.message := by
  have hnumeral (n : Nat) : '@' ∉ n.repr.toList :=
    Numeral.not_mem_toString (by decide) (by decide) n
  intro c c' h
  have hlists := congrArg String.toList h
  cases c with
  | put w i =>
    cases c' with
    | put w' i' =>
      rw [toList_message_put, toList_message_put,
        List.append_cons_inj_of_notMem (by simp [not_mem_label]) (hnumeral i)] at hlists
      obtain ⟨hwords, -, hindexes⟩ := hlists
      simp only [List.append_cancel_left_eq, List.append_cancel_right_eq] at hwords
      rw [label_injective (String.toList_inj.1 hwords),
        Numeral.repr_inj.1 (String.toList_inj.1 hindexes)]
    | undo k m =>
      rw [toList_message_put, toList_message_undo] at hlists
      simp at hlists
  | undo k m =>
    cases c' with
    | put w i =>
      rw [toList_message_put, toList_message_undo] at hlists
      simp at hlists
    | undo k' m' =>
      rw [toList_message_undo, toList_message_undo,
        List.append_cons_inj_of_notMem (by simpa using hnumeral k) (hnumeral m)] at hlists
      obtain ⟨hcounts, -, hmarks⟩ := hlists
      simp only [List.append_cancel_left_eq, List.append_cancel_right_eq] at hcounts
      rw [Numeral.repr_inj.1 (String.toList_inj.1 hcounts),
        Numeral.repr_inj.1 (String.toList_inj.1 hmarks)]

/-! ## One request -/

/-- A word that is accepted makes the entry that it is redone by. -/
theorem redo_of_push {w : Word} (h : b.push w = .ok b') :
    (Change.put w b.size).redo b.words = some b'.words ∧
      b'.journal = b.journal.push (.put w b.size) ∧ b'.words ≠ b.words := by
  obtain ⟨-, -, rfl⟩ := push_eq_ok_iff.1 h
  refine ⟨if_pos rfl, rfl, fun heq => ?_⟩
  have hsize := congrArg Array.size heq
  simp at hsize

/-- Going back to an earlier length makes the entry that it is redone by, and going back to where
the buffer is makes none. -/
theorem redo_of_rollback {target : Int} (h : b.rollback target = .ok b') :
    b' = b ∨ ∃ c : Change, c.redo b.words = some b'.words ∧ b'.journal = b.journal.push c ∧
      b'.words ≠ b.words := by
  unfold rollback at h
  split at h
  · cases h
  · split at h
    · cases h
    · split at h
      · rename_i hless
        obtain rfl := Except.ok.inj h
        have hsize : b.words.size - (b.size - target.toNat) = target.toNat := by
          simp only [size] at *
          omega
        refine .inr ⟨.undo (b.size - target.toNat) target.toNat, ?_, rfl, fun heq => ?_⟩
        · rw [Change.redo, if_pos ⟨by simp only [size] at *; omega, by omega⟩, hsize]
        · have hshorter := congrArg Array.size heq
          rw [Array.take_eq_extract, Array.size_extract] at hshorter
          simp only [size] at hless
          omega
      · exact .inl (Except.ok.inj h).symm

/-- The first request goes with its entry, unless it pushes a number without numeral. -/
theorem Journaled.cons {r : Request} (hshort : ∀ w, r = .push w → ¬ w.IsLong)
    (h : Journaled (b.serve r).2 requests changes) :
    ∃ front, Journaled b (r :: requests) (front ++ changes) := by
  cases r with
  | push w =>
    obtain ⟨text, htext⟩ := exists_shown (hshort w rfl)
    have hserve := serve_push b w
    cases hpush : b.push w with
    | error fault =>
      rw [hpush] at hserve
      exact ⟨[], .silent (by rw [hserve]) (by rw [hserve]) h⟩
    | ok b' =>
      rw [hpush, htext] at hserve
      obtain ⟨hredo, hjournal, hwords⟩ := redo_of_push hpush
      exact ⟨[_], .noted (by rwa [hserve]) (by rwa [hserve]) (by rwa [hserve]) h⟩
  | rollback target =>
    have hserve := serve_rollback b target
    cases hrollback : b.rollback target with
    | error fault =>
      rw [hrollback] at hserve
      exact ⟨[], .silent (by rw [hserve]) (by rw [hserve]) h⟩
    | ok b' =>
      rw [hrollback] at hserve
      -- Going back to where the buffer is changes nothing and makes no entry.
      obtain rfl | ⟨c, hredo, hjournal, hwords⟩ := redo_of_rollback hrollback
      · exact ⟨[], .silent (by rw [hserve]) (by rw [hserve]) h⟩
      · exact ⟨[c], .noted (by rwa [hserve]) (by rwa [hserve]) (by rwa [hserve]) h⟩
  | freeze _ | mark | get _ | words | size | frozen | summary => exact ⟨[], .silent rfl rfl h⟩

/-! ## Any number of requests -/

/-- Requests that push no number without numeral are journaled. -/
theorem exists_journaled (hshort : ∀ w, .push w ∈ requests → ¬ w.IsLong) (b : Buffer) :
    ∃ changes, Journaled b requests changes := by
  induction requests generalizing b with
  | nil => exact ⟨[], .nil⟩
  | cons r later ih =>
    obtain ⟨changes, h⟩ := ih (fun w hw => hshort w (List.mem_cons_of_mem r hw)) (b.serve r).2
    obtain ⟨front, h⟩ := h.cons fun w hw => hshort w (hw ▸ List.mem_cons_self)
    exact ⟨front ++ changes, h⟩

/-- The entries stand in the journal behind the earlier ones. -/
theorem Journaled.journal (h : Journaled b requests changes) :
    (b.after requests).journal.toList = b.journal.toList ++ changes := by
  induction h with
  | nil => exact (List.append_nil _).symm
  | silent _ hjournal _ ih => rw [after_cons, ih, hjournal]
  | noted _ _ hjournal _ ih =>
    rw [after_cons, ih, hjournal, Array.toList_push, List.append_assoc, List.singleton_append]

/-- The entries, redone in their order, bring the words that the requests have left. -/
theorem Journaled.replay (h : Journaled b requests changes) :
    Buffer.replay b.words changes = some (b.after requests).words := by
  induction h with
  | nil => rfl
  | silent hwords _ _ ih => rw [after_cons, ← ih, hwords]
  | noted _ hredo _ _ ih =>
    rw [after_cons, ← ih]
    simp [Buffer.replay, hredo]

end Montage.Buffer
