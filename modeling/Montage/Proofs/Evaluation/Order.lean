import Montage.Evaluation.Evaluate
import Montage.Evaluation.Meaning
import Montage.Proofs.Expression.Encoding

/-!
# Running the words of a tree

The evaluator collects the steps of a chain while it reads backwards and carries them out once it
has found the image of the chain. On the words of a tree this is the drawing of the tree, with the
same operations in the same order, whatever the operations do (`evaluate_encode`).

The evaluator and the decoder read a tag and its operands in two ways, which agree on all words
(`nextItem_eq_readItem`): one of them names the operands of each tag, the other one counts them.
-/

namespace Montage

namespace Words

/-- Operands that are named are those that the arity of the tag counts. -/
theorem nextItem_eq_readItem (words : List Int) : nextItem words = readItem words := by
  have hreverse (height width : Int) : (#v[height, width] : Vector Int 2).reverse =
      #v[width, height] := by simp
  rw [readItem_eq, nextItem]
  congr 1
  funext ⟨tag, rest⟩
  cases tag with
  | overlay => rfl
  | blur => rcases rest with _ | ⟨strength, rest⟩ <;> rfl
  | image => rcases rest with _ | ⟨index, rest⟩ <;> rfl
  | fit =>
    rcases rest with _ | ⟨height, _ | ⟨width, rest⟩⟩
    · rfl
    · rfl
    · exact congrArg (fun read => Except.ok (Item.ofOperands .fit read, rest))
        (hreverse height width).symm
  | fill =>
    rcases rest with _ | ⟨height, _ | ⟨width, rest⟩⟩
    · rfl
    · rfl
    · exact congrArg (fun read => Except.ok (Item.ofOperands .fill read, rest))
        (hreverse height width).symm

/-- An item is read exactly where its words stand. -/
theorem nextItem_eq_ok_iff {words rest : List Int} {item : Item} :
    nextItem words = .ok (item, rest) ↔ words = item.backward ++ rest := by
  rw [nextItem_eq_readItem, readItem_eq_ok_iff]

/-- The words of an item are read as that item. -/
@[simp]
theorem nextItem_backward (item : Item) (rest : List Int) :
    nextItem (item.backward ++ rest) = .ok (item, rest) :=
  nextItem_eq_ok_iff.2 rfl

end Words

namespace Backend

variable {State Error Picture : Type} (b : Backend State Error Picture) (images : Array Picture)

/-- The steps of a chain that were read already, carried out on a picture. -/
def finish (pending : List (Step Picture)) (picture : Picture) :
    Effect State (EvalFault Error) Picture :=
  pending.foldlM (fun p step => lift (b.perform p step)) picture

@[simp]
theorem finish_nil (picture : Picture) : b.finish [] picture = pure picture := rfl

theorem finish_cons (step : Step Picture) (pending : List (Step Picture)) (picture : Picture) :
    b.finish (step :: pending) picture = lift (b.perform picture step) >>= b.finish pending :=
  List.foldlM_cons

variable {images} in
/-- An image that is there is copied. -/
theorem fetch_eq_lift {index : Int} (hnonneg : 0 ≤ index) (hlt : index < images.size) :
    ∃ picture ∈ images, b.fetch images index = lift (b.copy picture) := by
  have hbound : index.toNat < images.size := by omega
  refine ⟨images[index.toNat], Array.getElem_mem hbound, ?_⟩
  rw [fetch, if_pos hnonneg, Array.getElem?_eq_getElem hbound]

/-- Running the words of a tree draws the tree, carries out the pending steps and leaves what stands
before the words. -/
theorem run_encode (node : Node) (fuel : Nat) (pending : List (Step Picture)) (rest : List Int)
    (hfuel : node.encode.length ≤ fuel) :
    b.run images fuel pending (node.encode.reverse ++ rest) = (do
      let picture ← node.draw b images
      let picture ← b.finish pending picture
      return (picture, rest)) := by
  -- Along the tree; a step moves from its place above the source to the pending ones.
  induction node generalizing fuel pending rest with
  | image index =>
    cases fuel with
    | zero => simp [Node.encode] at hfuel
    | succ fuel =>
      have hitem := Words.nextItem_backward (.image index) rest
      simp only [Item.backward, List.cons_append, List.nil_append] at hitem
      simp [run, Node.encode, hitem, Node.draw, finish]
  | frame how source width height ih =>
    cases fuel with
    | zero => simp [Node.encode] at hfuel
    | succ fuel =>
      have hsource : source.encode.length ≤ fuel := by
        simp [Node.encode] at hfuel
        omega
      rw [Node.reverse_encode_frame, List.append_assoc, run, Words.nextItem_backward]
      simp only
      rw [ih fuel _ rest hsource]
      simp only [Node.draw, finish_cons, perform, bind_assoc]
  | blur source strength ih =>
    cases fuel with
    | zero => simp [Node.encode] at hfuel
    | succ fuel =>
      have hsource : source.encode.length ≤ fuel := by
        simp [Node.encode] at hfuel
        omega
      rw [Node.reverse_encode_blur, List.append_assoc, run, Words.nextItem_backward]
      simp only
      rw [ih fuel _ rest hsource]
      simp only [Node.draw, finish_cons, perform, bind_assoc]
  | overlay source argument ihs iha =>
    cases fuel with
    | zero => simp [Node.encode] at hfuel
    | succ fuel =>
      have hlength : source.encode.length + argument.encode.length ≤ fuel := by
        simp [Node.encode] at hfuel
        omega
      rw [Node.reverse_encode_overlay, List.append_assoc, List.append_assoc, run,
        Words.nextItem_backward]
      simp only
      rw [iha fuel [] _ (by omega)]
      simp only [finish_nil, bind_assoc, pure_bind]
      -- The argument is drawn before the source, by both.
      simp only [Node.draw, bind_assoc]
      congr 1
      funext above
      rw [ihs fuel _ rest (by omega)]
      simp only [finish_cons, perform, bind_assoc]

/-- Evaluating the words of a tree is drawing the tree. -/
theorem evaluate_encode (node : Node) : b.evaluate images node.encode = node.draw b images := by
  have hrun := b.run_encode images node node.encode.length [] [] (Nat.le_refl _)
  rw [List.append_nil] at hrun
  rw [evaluate, if_neg (Node.encode_ne_nil node), runAt, List.take_length, hrun]
  simp

end Backend

end Montage
