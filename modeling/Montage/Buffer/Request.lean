import Montage.Buffer

/-!
# Requests to a buffer

Whoever holds a buffer makes requests to it, one after the other, also after one was refused. A
request is carried out step by step, so what was done before a refusal stays done. That matters for
one request only: the record of a word is put into words when the word is in the buffer already, and
that fails for a number whose numeral is too long. Otherwise a request to push or to roll back does
what `Buffer.push` and `Buffer.rollback` say (`serve_push`, `serve_rollback`).
-/

namespace Montage

/-- How a written word is shown in its record, if it can be. -/
def Word.shown : Word → Except Numeral.Fault String
  | .number value => Numeral.written value
  | .tag t => .ok t.label

/-- Whether a word is a number whose numeral is too long. -/
def Word.IsLong : Word → Prop
  | .number value => Numeral.longest < (Numeral.decimal value.natAbs).length
  | .tag _ => False

namespace Buffer

/-- A request to a buffer. -/
inductive Request where
  /-- Append a word. -/
  | push (word : Word)
  /-- Tell the current length, to be able to go back to it. -/
  | mark
  /-- Go back to a length. -/
  | rollback (target : Int)
  /-- End all writing and hand out the words. -/
  | freeze (source : String)
  /-- Tell the word at an index. -/
  | get (index : Int)
  /-- Tell all words. -/
  | words
  /-- Tell the number of words. -/
  | size
  /-- Tell whether writing has ended. -/
  | frozen
  /-- Tell the short description. -/
  | summary
  deriving DecidableEq, Repr

/-- What a buffer answers. -/
inductive Answer where
  /-- The request was carried out. -/
  | done
  /-- A number: a word, or a length. -/
  | number (value : Int)
  /-- The words. -/
  | words (words : Array Int)
  /-- The words, handed out as an expression. -/
  | expression (expression : Encoded)
  /-- Whether something is so. -/
  | flag (flag : Bool)
  /-- A description. -/
  | text (text : String)
  deriving DecidableEq

/-- Why a request is refused. -/
inductive Request.Fault where
  /-- The buffer does not allow it. -/
  | buffer (fault : Buffer.Fault)
  /-- The index names no word. -/
  | index (fault : Index.Fault)
  /-- A number has no numeral. -/
  | numeral (fault : Numeral.Fault)
  deriving DecidableEq, Repr

/-- A piece of work on a buffer, which may break off. -/
abbrev Work (Result : Type) : Type :=
  ExceptT Request.Fault (StateM Buffer) Result

/-- Appends a word. -/
def pushing (w : Word) : Work Unit := do
  let b ← getThe Buffer
  if b.frozen then throw (.buffer .frozenPush)
  else if b.capacity ≤ b.size then throw (.buffer (.full b.capacity))
  else
    modify fun b => { b with words := b.words.push w.code }
    -- The record counts the words with the new one among them.
    match w.shown with
    | .error fault => throw (.numeral fault)
    | .ok _ => modify fun b => { b with journal := b.journal.push (.put w (b.size - 1)) }

/-- Goes back to a length. -/
def rollingBack (target : Int) : Work Unit := do
  let b ← getThe Buffer
  if b.frozen then throw (.buffer .frozenRollback)
  else if target < 0 ∨ (b.size : Int) < target then throw (.buffer (.mark target b.size))
  else if target.toNat < b.size then
    modify fun b => { b with
      journal := b.journal.push (.undo (b.size - target.toNat) target.toNat) }
    modify fun b => { b with words := b.words.take target.toNat }

/-- The answer to a question about a buffer. -/
def telling (question : Buffer → Except Request.Fault Answer) : Work Answer :=
  ExceptT.mk fun b => (question b, b)

/-- The work that a request asks for. -/
def Request.work : Request → Work Answer
  | push w => do pushing w; return .done
  | rollback target => do rollingBack target; return .done
  | freeze source => do
    modify fun b => { b with frozen := true }
    return .expression ⟨(← getThe Buffer).words, source⟩
  | mark => telling fun b => .ok (.number b.mark)
  | get index => telling fun b => ((b.get index).mapError .index).map .number
  | words => telling fun b => .ok (.words b.words)
  | size => telling fun b => .ok (.number b.size)
  | frozen => telling fun b => .ok (.flag b.frozen)
  | summary => telling fun b =>
    ((Numeral.written b.capacity).mapError .numeral).map fun _ => .text b.summary

/-- Carries out a request. -/
def serve (b : Buffer) (r : Request) : Except Request.Fault Answer × Buffer :=
  r.work.run b

/-- The buffer after requests, some of which may have been refused. -/
def after (b : Buffer) (requests : List Request) : Buffer :=
  requests.foldl (fun b r => (b.serve r).2) b

variable {b : Buffer}

/-- A word can be shown unless it is a number whose numeral is too long. -/
theorem shown_eq_error {w : Word} (h : w.IsLong) : w.shown = .error .written := by
  cases w with
  | number value => exact if_neg (Nat.not_le.2 h)
  | tag t => exact h.elim

/-- A word that is no long number can be shown. -/
theorem exists_shown {w : Word} (h : ¬ w.IsLong) : ∃ text, w.shown = .ok text := by
  cases w with
  | number value => exact ⟨_, if_pos (Nat.not_lt.1 h)⟩
  | tag t => exact ⟨_, rfl⟩

/-- A request to append a word appends it with its record. Of a number whose numeral is too long
only the record is refused. -/
theorem serve_push (b : Buffer) (w : Word) :
    b.serve (.push w) = match b.push w with
      | .error fault => (.error (.buffer fault), b)
      | .ok b' => match w.shown with
        | .error fault => (.error (.numeral fault), { b with words := b.words.push w.code })
        | .ok _ => (.ok .done, b') := by
  have hindex : (b.words.push w.code).size - 1 = b.size := by
    rw [Array.size_push, Nat.add_sub_cancel, size]
  unfold push serve Request.work pushing
  show (ite _ _ _ >>= fun _ => _ : Work Answer) b = _
  split
  · rfl
  · split
    · rfl
    · cases w.shown with
      | error fault => rfl
      | ok text =>
        show (Except.ok Answer.done, { b with
          words := b.words.push w.code
          journal := b.journal.push (.put w ((b.words.push w.code).size - 1)) }) = _
        rw [hindex]

/-- A request to go back to a length does so, or is refused before anything is done. -/
theorem serve_rollback (b : Buffer) (target : Int) :
    b.serve (.rollback target) = match b.rollback target with
      | .error fault => (.error (.buffer fault), b)
      | .ok b' => (.ok .done, b') := by
  unfold rollback serve Request.work rollingBack
  show (ite _ _ _ >>= fun _ => _ : Work Answer) b = _
  split
  · rfl
  · split
    · rfl
    · split
      · rfl
      · rfl

end Buffer

end Montage
