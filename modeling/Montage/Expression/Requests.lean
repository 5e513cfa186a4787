import Montage.Buffer.Request
import Montage.Expression.Compile

/-!
# The requests that a rule makes

The rules of the grammar are clients of the buffer: all that they do to it are requests. `Client`
puts a rule together with the requests that it makes at a reading, in their order, also where they
come to nothing. Clients are blocks as rules are (`Client.blocks`), so the grammar says what each of
its rules asks of the buffer.
-/

namespace Montage

/-- A rule, and the requests that it makes to the buffer. -/
structure Client where
  /-- The rule. -/
  rule : Rule
  /-- The requests that it makes at a reading, the first one first. -/
  requests : Reading → List Buffer.Request

namespace Client

/-! ## Combinators -/

/-- A rule that makes no request. -/
def silent (rule : Rule) : Client where
  rule := rule
  requests _ := []

/-- One rule after the other. -/
def andThen (c d : Client) : Client where
  rule := Rule.andThen c.rule d.rule
  requests s := match c.rule s with
    | (.matched, s') => c.requests s ++ d.requests s'
    | _ => c.requests s

/-- One rule, and where it fails the other one. -/
def orElse (c d : Client) : Client where
  rule := Rule.orElse c.rule d.rule
  requests s := match c.rule s with
    | (.failed, s') => c.requests s ++ d.requests s'
    | _ => c.requests s

/-- A rule that takes a mark before it starts and goes back to it unless it matches. -/
def transact (c : Client) : Client where
  rule := Rule.transact c.rule
  requests s := .mark :: match c.rule s with
    | (.matched, _) => c.requests s
    | _ => c.requests s ++ [.rollback s.buffer.mark]

/-- Writing a word. -/
def emit (expression : String) (w : Word) : Client where
  rule := Rule.emit expression w
  requests _ := [.push w]

/-- A rule over and over, at most `n` times. -/
def upTo (c : Client) : Nat → Client
  | 0 => silent (Rule.upTo c.rule 0)
  | n + 1 => {
      rule := Rule.upTo c.rule (n + 1)
      requests := fun s => match c.rule s with
        | (.matched, s') => c.requests s ++ (upTo c n).requests s'
        | _ => c.requests s }

/-- A rule over and over. -/
def many (c : Client) : Client where
  rule := Rule.many c.rule
  requests s := (c.upTo (s.rest.length + 1)).requests s

/-- A rule with one more overlay open. -/
def nested (c : Client) : Client where
  rule := Rule.nested c.rule
  requests s := c.requests { s with depth := s.depth + 1 }

/-- Going on with the offset that was reached. -/
def place (next : Nat → Client) : Client where
  rule := Rule.place fun start => (next start).rule
  requests s := (next s.position).requests s

/-- Going on with the number of overlays that are open. -/
def depth (next : Nat → Client) : Client where
  rule := Rule.depth fun n => (next n).rule
  requests s := (next s.depth).requests s

/-- Reading digits, as many as there are and at least one. -/
def digits (next : List Char → Client) : Client where
  rule := Rule.digits fun run => (next run).rule
  requests s := match s.rest.takeWhile Char.isDigit with
    | [] => []
    | run => (next run).requests (s.advance run.length)

/-- Reading one digit. -/
def digit (next : Int → Client) : Client where
  rule := Rule.digit fun index => (next index).rule
  requests s := match s.rest with
    | c :: _ =>
      if c.isDigit then (next (Nat.ofDigitChars 10 [c] 0)).requests (s.advance 1) else []
    | [] => []

/-- Taking a mark of the buffer. -/
def mark (next : Nat → Client) : Client where
  rule := Rule.mark fun mark => (next mark).rule
  requests s := .mark :: (next s.buffer.mark).requests s

/-- Dropping the words that were written after a mark. -/
def rollback (mark : Nat) : Client where
  rule := Rule.rollback mark
  requests _ := [.rollback mark]

/-- Looking at a word that was written. -/
def get (index : Int) (next : Int → Client) : Client where
  rule := Rule.get index fun w => (next w).rule
  requests s := .get index :: match s.buffer.get index with
    | .ok w => (next w).requests s
    | .error _ => []

/-! ## The grammar -/

/-- Clients as blocks of the grammar. -/
def blocks : GrammarBlocks Client where
  convert digits next := next (Numeral.value? digits)
  stop fault := silent (Rule.stop fault)
  place := place
  digits := digits
  emit := emit
  transact := transact
  nothing := silent Rule.nothing
  literal text := silent (Rule.literal text)
  digit := digit
  andThen := andThen
  orElse := orElse
  many := many
  nested := nested
  depth := depth
  mark := mark
  rollback := rollback
  get := get

/-- The requests on the way to appending the words of a text to a buffer. -/
def appending (t : Task) (b : Buffer) : List Buffer.Request :=
  .mark :: ((blocks.expression t).requests (.start t.expression b) ++
    match Grammar.expression t (.start t.expression b) with
    | (.stopped _, _) => []
    | (outcome, s) => if outcome = .matched ∧ s.atEnd then [] else [.rollback b.mark])

end Client

end Montage
