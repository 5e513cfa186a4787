import Montage.Expression.Grammar

/-!
# Compiling an expression

Compiling a text writes its words to a buffer, all of them or none. `append` adds the words of a
text to a buffer that may already hold others, `compile` starts with an empty one and freezes it.
-/

namespace Montage

/-- Appends the words of a text to a buffer. A text that is not an expression as a whole is refused
at the farthest place that was reached, and leaves the words as they were. -/
def append (t : Task) (buffer : Buffer) : Except Fault Unit × Buffer :=
  match Grammar.expression t (.start t.expression buffer) with
  | (.stopped fault, s) => (.error fault, s.buffer)
  | (outcome, s) =>
    if outcome = .matched ∧ s.atEnd then (.ok (), s.buffer)
    else match s.buffer.rollback buffer.mark with
      | .ok back =>
        let rejection := Rejection.ungrammatical t.expression (max s.farthest s.position)
        (.error (.rejected rejection), back)
      | .error fault => (.error (.buffer fault), s.buffer)

/-- The answer of a compilation, and the changes of the buffer on the way to it. -/
structure Compilation where
  /-- The finished expression, or why there is none. -/
  result : Except Fault Encoded
  /-- The changes of the buffer. -/
  journal : Array Buffer.Change

/-- Compiles a text with a buffer of the given capacity. -/
def compile (t : Task) (capacity : Int) : Compilation :=
  match Buffer.create capacity with
  | .error fault => ⟨.error (.buffer fault), #[]⟩
  | .ok buffer =>
    match append t buffer with
    | (.error fault, b) => ⟨.error fault, b.journal⟩
    | (.ok (), b) => ⟨.ok (b.freeze t.expression).1, b.journal⟩

end Montage
