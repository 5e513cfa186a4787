import Montage.Buffer
import Montage.Expression.Rejection
import Montage.Number.Numeral
import Montage.Text.Quoted

/-!
# Transactional rules

A grammar rule reads a piece of the text and writes words to a buffer. It matches, or it fails, or
it stops with a fault, and in the last two cases `transact` takes everything back but the record of
the farthest place that was reached. The combinators here build rules from rules, each with lemmas
that say what it answers; `transact_eq_of_not_matched` says what is taken back.
-/

namespace Montage

/-- The limits that an expression is held to. -/
structure Limits where
  /-- The number of images that may be referenced, if it is known. -/
  imageCount : Option Int
  /-- How many overlays may be open at a time. -/
  maxDepth : Int
  /-- The largest number. -/
  maxNumber : Int
  deriving DecidableEq, Repr

/-- Why a rule stops without an answer. -/
inductive Fault where
  /-- The text is refused. -/
  | rejected (rejection : Rejection)
  /-- The buffer refuses a request that is not about its room. -/
  | buffer (fault : Buffer.Fault)
  /-- A word was looked for where the buffer has none. -/
  | missingWord (fault : Index.Fault)
  /-- A numeral cannot be read. -/
  | numeral (fault : Numeral.Fault)
  deriving DecidableEq, Repr

/-- What a rule answers. -/
inductive Outcome where
  /-- A piece of the text was read and its words were written. -/
  | matched
  /-- The text does not start with what the rule stands for. -/
  | failed
  /-- The rule stopped. -/
  | stopped (fault : Fault)
  deriving DecidableEq, Repr

/-- Where the reading of a text stands. -/
structure Reading where
  /-- The text that is still to be read. -/
  rest : List Char
  /-- The number of characters that were read. -/
  position : Nat
  /-- The farthest offset at which some rule failed. -/
  farthest : Nat
  /-- The number of overlays that are open. -/
  depth : Nat
  /-- The words that were written. -/
  buffer : Buffer
  deriving DecidableEq, Repr

namespace Reading

/-- The start of a text, before a buffer. -/
def start (text : String) (buffer : Buffer) : Reading :=
  ⟨text.toList, 0, 0, 0, buffer⟩

/-- Whether the whole text was read. -/
def atEnd (s : Reading) : Bool :=
  s.rest.isEmpty

/-- The reading after `n` more characters. -/
def advance (s : Reading) (n : Nat) : Reading :=
  { s with rest := s.rest.drop n, position := s.position + n }

/-- Notes that a rule failed at an offset. -/
def noteFailure (s : Reading) (offset : Nat) : Reading :=
  { s with farthest := max s.farthest offset }

/-- The short description of a reading. -/
def summary (text : String) (s : Reading) : String :=
  let quoted := Text.quote text
  s!"Parser(text={quoted}, position={s.position})"

end Reading

/-- A rule of the grammar. -/
abbrev Rule := Reading → Outcome × Reading

namespace Rule

/-- Matches what `r` and then `q` match. -/
def andThen (r q : Rule) : Rule := fun s =>
  match r s with
  | (.matched, s') => q s'
  | other => other

/-- Matches what `r` matches, and where `r` fails what `q` matches. -/
def orElse (r q : Rule) : Rule := fun s =>
  match r s with
  | (.failed, s') => q s'
  | other => other

/-- Goes back to the place and the buffer of an earlier reading. -/
def rewind (earlier : Reading) (outcome : Outcome) (s : Reading) : Outcome × Reading :=
  let back := { s with rest := earlier.rest, position := earlier.position }
  match s.buffer.rollback earlier.buffer.mark with
  | .ok buffer => (outcome, { back with buffer })
  | .error fault => (.stopped (.buffer fault), back)

/-- Takes back the place and the buffer where a rule does not match. -/
def transact (r : Rule) : Rule := fun s =>
  match r s with
  | (.matched, s') => (.matched, s')
  | (outcome, s') => rewind s outcome s'

/-- The length of the common start of two texts. -/
def commonLength : List Char → List Char → Nat
  | c :: cs, d :: ds => if c = d then commonLength cs ds + 1 else 0
  | _, _ => 0

/-- Matches a fixed text. -/
def literal (text : String) : Rule := fun s =>
  let common := commonLength text.toList s.rest
  if common = text.length then (.matched, s.advance common)
  else (.failed, s.noteFailure (s.position + common))

/-- Matches without reading. -/
def nothing : Rule := fun s => (.matched, s)

/-- Stops with a fault. -/
def stop (fault : Fault) : Rule := fun s => (.stopped fault, s)

/-- Goes on with the offset that was reached. -/
def place (next : Nat → Rule) : Rule := fun s => next s.position s

/-- Goes on with the number of overlays that are open. -/
def depth (next : Nat → Rule) : Rule := fun s => next s.depth s

/-- Goes on with a mark of the buffer. -/
def mark (next : Nat → Rule) : Rule := fun s => next s.buffer.mark s

/-- Reads digits, as many as there are and at least one, and goes on with them. -/
def digits (next : List Char → Rule) : Rule := fun s =>
  match s.rest.takeWhile Char.isDigit with
  | [] => (.failed, s.noteFailure s.position)
  | run => next run (s.advance run.length)

/-- Reads one digit, and goes on with its value. -/
def digit (next : Int → Rule) : Rule := fun s =>
  match s.rest with
  | c :: _ =>
    if c.isDigit then next (Nat.ofDigitChars 10 [c] 0) (s.advance 1)
    else (.failed, s.noteFailure s.position)
  | [] => (.failed, s.noteFailure s.position)

/-- Looks at a word that was written, and goes on with it. -/
def get (index : Int) (next : Int → Rule) : Rule := fun s =>
  match s.buffer.get index with
  | .ok w => next w s
  | .error fault => (.stopped (.missingWord fault), s)

/-- Drops the words that were written after a mark. -/
def rollback (mark : Nat) : Rule := fun s =>
  match s.buffer.rollback mark with
  | .ok buffer => (.matched, { s with buffer })
  | .error fault => (.stopped (.buffer fault), s)

/-- Writes a word; a full buffer refuses the expression. -/
def emit (expression : String) (w : Word) : Rule := fun s =>
  match s.buffer.push w with
  | .ok buffer => (.matched, { s with buffer })
  | .error (.full capacity) =>
    let reason := (Buffer.Fault.full capacity).message
    (.stopped (.rejected (.tooLong expression s.position reason)), s)
  | .error fault => (.stopped (.buffer fault), s)

/-- Matches `r` over and over until it fails, at most `n` times. -/
def upTo (r : Rule) : Nat → Rule
  | 0 => fun s => (.matched, s)
  | n + 1 => fun s =>
    match r s with
    | (.matched, s') => upTo r n s'
    | (.failed, s') => (.matched, s')
    | (.stopped fault, s') => (.stopped fault, s')

/-- Matches `r` over and over until it fails. A rule that reads something whenever it matches fails
at the latest when no text is left. -/
def many (r : Rule) : Rule := fun s =>
  upTo r (s.rest.length + 1) s

/-- Matches `r` with one more overlay open. -/
def nested (r : Rule) : Rule := fun s =>
  match r { s with depth := s.depth + 1 } with
  | (outcome, s') => (outcome, { s' with depth := s'.depth - 1 })

section Answers

variable {r q : Rule} {s s' : Reading} {n : Nat} {outcome : Outcome} {fault : Fault}

/-- After a match the second rule decides. -/
theorem andThen_of_matched (h : r s = (.matched, s')) : andThen r q s = q s' := by
  unfold andThen
  rw [h]

/-- Two rules fail where the first one fails. -/
theorem andThen_of_failed (h : r s = (.failed, s')) : andThen r q s = (.failed, s') := by
  unfold andThen
  rw [h]

/-- Two rules stop where the first one stops. -/
theorem andThen_of_stopped (h : r s = (.stopped fault, s')) :
    andThen r q s = (.stopped fault, s') := by
  unfold andThen
  rw [h]

/-- After a failure the second alternative decides. -/
theorem orElse_of_failed (h : r s = (.failed, s')) : orElse r q s = q s' := by
  unfold orElse
  rw [h]

/-- A first alternative that matches decides. -/
theorem orElse_of_matched (h : r s = (.matched, s')) : orElse r q s = (.matched, s') := by
  unfold orElse
  rw [h]

/-- A first alternative that stops decides. -/
theorem orElse_of_stopped (h : r s = (.stopped fault, s')) :
    orElse r q s = (.stopped fault, s') := by
  unfold orElse
  rw [h]

/-- Where no digit stands, none is read. -/
theorem digits_of_nil {next : List Char → Rule} (h : s.rest.takeWhile Char.isDigit = []) :
    digits next s = (.failed, s.noteFailure s.position) := by
  unfold digits
  rw [h]

/-- The digits that stand there are read. -/
theorem digits_of_ne_nil {next : List Char → Rule} {run : List Char} (hrun : run ≠ [])
    (h : s.rest.takeWhile Char.isDigit = run) :
    digits next s = next run (s.advance run.length) := by
  unfold digits
  rw [h]
  cases run with
  | nil => exact absurd rfl hrun
  | cons c run => rfl

/-- Where no digit stands, an index is not read. -/
theorem digit_of_not {next : Int → Rule} (h : ∀ c ∈ s.rest.head?, c.isDigit = false) :
    digit next s = (.failed, s.noteFailure s.position) := by
  unfold digit
  split
  · rename_i c rest hs
    rw [if_neg (by simp [h c (by simp [hs])])]
  · rfl

/-- The digit that stands there is read. -/
theorem digit_of_isDigit {next : Int → Rule} {c : Char} {rest : List Char} (h : s.rest = c :: rest)
    (hc : c.isDigit = true) :
    digit next s = next (Nat.ofDigitChars 10 [c] 0) (s.advance 1) := by
  unfold digit
  rw [h]
  exact if_pos hc

/-- A word that is there is gone on with. -/
theorem get_of_ok {index : Int} {next : Int → Rule} {w : Int} (h : s.buffer.get index = .ok w) :
    get index next s = next w s := by
  unfold get
  rw [h]

/-- A word that is not there is a fault. -/
theorem get_of_error {index : Int} {next : Int → Rule} {fault : Index.Fault}
    (h : s.buffer.get index = .error fault) :
    get index next s = (.stopped (.missingWord fault), s) := by
  unfold get
  rw [h]

/-- The words that the buffer drops are dropped. -/
theorem rollback_of_ok {mark : Nat} {b : Buffer} (h : s.buffer.rollback mark = .ok b) :
    rollback mark s = (.matched, { s with buffer := b }) := by
  unfold rollback
  rw [h]

/-- Words that the buffer keeps are a fault. -/
theorem rollback_of_error {mark : Nat} {cause : Buffer.Fault}
    (h : s.buffer.rollback mark = .error cause) :
    rollback mark s = (.stopped (.buffer cause), s) := by
  unfold rollback
  rw [h]

/-- A loop goes on after a match. -/
theorem upTo_of_matched (h : r s = (.matched, s')) : upTo r (n + 1) s = upTo r n s' := by
  simp only [upTo, h]

/-- A loop ends with a match where its rule fails. -/
theorem upTo_of_failed (h : r s = (.failed, s')) : upTo r (n + 1) s = (.matched, s') := by
  simp only [upTo, h]

/-- A loop stops where its rule stops. -/
theorem upTo_of_stopped (h : r s = (.stopped fault, s')) :
    upTo r (n + 1) s = (.stopped fault, s') := by
  simp only [upTo, h]

/-- The overlay that was opened for a rule is closed after it. -/
theorem nested_of_eq (h : r { s with depth := s.depth + 1 } = (outcome, s')) :
    nested r s = (outcome, { s' with depth := s'.depth - 1 }) := by
  unfold nested
  rw [h]

end Answers

/-- Only what a rule does at a reading matters for its transaction there. -/
theorem transact_congr {r q : Rule} {s : Reading} (h : r s = q s) :
    transact r s = transact q s := by
  unfold transact
  rw [h]

/-- Where a rule does not match, its transaction rewinds. -/
theorem transact_eq_of_not_matched {r : Rule} {s : Reading} (h : (r s).1 ≠ .matched) :
    transact r s = rewind s (r s).1 (r s).2 := by
  unfold transact
  split
  · rename_i heq
    rw [heq] at h
    exact absurd rfl h
  · rename_i heq
    rw [heq]

/-- Where a rule matches, its transaction is the rule. -/
theorem transact_eq_of_matched {r : Rule} {s : Reading} (h : (r s).1 = .matched) :
    transact r s = r s := by
  unfold transact
  split
  · rename_i heq
    rw [heq]
  · rename_i hne heq
    rw [heq] at h
    exact (hne h).elim

-- The lemmas above say what the combinators answer. Rules that are composed of them are compared
-- part by part, so the combinators are not opened for that.
attribute [irreducible] andThen orElse transact nested

end Rule

end Montage
