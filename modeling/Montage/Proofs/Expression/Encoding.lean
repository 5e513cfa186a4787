import Montage.Expression.Decode
import Mathlib.Data.List.Basic

/-!
# Words and trees

The words of a tree are read back as that tree and as no other, although they carry no lengths and a
number may look like a tag. `readNode_encode` and `exists_of_readNode` are the two directions for
one expression among unread words: what stands before it is left unread, and the steps that are
pending are applied to it. From them `decode_eq_ok_iff` says which words are decoded.
-/

namespace Montage

/-- The words of an item in the order of reading. -/
def Item.backward : Item → List Int
  | .image index => [Tag.image.word, index]
  | .frame how width height => [how.tag.word, height, width]
  | .blur strength => [Tag.blur.word, strength]
  | .overlay => [Tag.overlay.word]

/-- The words of a tag with its operands: the tag, and the operands from the last to the first. -/
theorem Item.backward_ofOperands (tag : Tag) (operands : Vector Int (tag.arity.getD 0)) :
    (ofOperands tag operands).backward = tag.word :: operands.toList.reverse := by
  have hone (v : Vector Int 1) : v.toList.reverse = [v[0]] := by
    obtain ⟨⟨operands⟩, hsize⟩ := v
    obtain ⟨k, rfl⟩ := List.length_eq_one_iff.1 hsize
    rfl
  have htwo (v : Vector Int 2) : v.toList.reverse = [v[1], v[0]] := by
    obtain ⟨⟨operands⟩, hsize⟩ := v
    obtain ⟨k, l, rfl⟩ := List.length_eq_two.1 hsize
    rfl
  cases tag with
  | fit => exact congrArg (List.cons _) (htwo operands).symm
  | fill => exact congrArg (List.cons _) (htwo operands).symm
  | overlay =>
    have hnone : operands.toList = [] := List.eq_nil_of_length_eq_zero operands.length_toList
    rw [hnone]
    rfl
  | blur => exact congrArg (List.cons _) (hone operands).symm
  | image => exact congrArg (List.cons _) (hone operands).symm

/-- Every item is a tag with its operands. -/
theorem Item.exists_ofOperands (item : Item) :
    ∃ (tag : Tag) (operands : Vector Int (tag.arity.getD 0)), ofOperands tag operands = item := by
  match item with
  | .image index => exact ⟨.image, (#v[index] : Vector Int 1), rfl⟩
  | .frame .fit width height => exact ⟨.fit, (#v[width, height] : Vector Int 2), rfl⟩
  | .frame .fill width height => exact ⟨.fill, (#v[width, height] : Vector Int 2), rfl⟩
  | .blur strength => exact ⟨.blur, (#v[strength] : Vector Int 1), rfl⟩
  | .overlay => exact ⟨.overlay, (#v[] : Vector Int 0), rfl⟩

namespace Words

variable {words rest : List Int} {fault : WordFault}

/-- A tag is read exactly where its word stands. -/
theorem nextTag_eq_ok_iff {tag : Tag} :
    nextTag words = .ok (tag, rest) ↔ words = tag.word :: rest := by
  cases words with
  | nil => simp [nextTag, next, bind, Except.bind]
  | cons word more =>
    rw [List.cons.injEq, ← Tag.ofWord?_eq_some_iff]
    cases htag : Tag.ofWord? word with
    | none => simp [nextTag, next, htag, bind, Except.bind, throw, throwThe, MonadExceptOf.throw]
    | some found => simp [nextTag, next, htag, bind, Except.bind, pure, Except.pure]

/-- Several words are read exactly where they stand. -/
theorem nextMany_eq_ok_iff {count : Nat} {read : Vector Int count} :
    nextMany count words = .ok (read, rest) ↔ words = read.toList ++ rest := by
  induction count generalizing rest with
  | zero =>
    have hnone : read.toList = [] := List.eq_nil_of_length_eq_zero read.length_toList
    have hread : read = #v[] := Vector.toList_inj.1 hnone
    simp [nextMany, hread, pure, Except.pure]
  | succ count ih =>
    obtain ⟨front, last, rfl⟩ : ∃ (front : Vector Int count) (last : Int), read = front.push last :=
      ⟨read.pop, read.back, by simp⟩
    rw [Vector.toList_push, List.append_assoc, List.singleton_append, ← ih, nextMany]
    cases nextMany count words with
    | error fault => simp [bind, Except.bind]
    | ok found =>
      obtain ⟨found, unread⟩ := found
      cases unread with
      | nil => simp [next, bind, Except.bind]
      | cons word unread =>
        simp [next, bind, Except.bind, pure, Except.pure, Vector.push_eq_push, and_assoc, and_comm,
          and_left_comm]

/-- An item is read by its arity, be its operand an expression or not. -/
theorem readItem_eq (words : List Int) : readItem words = (do
    let (tag, rest) ← nextTag words
    let (operands, rest) ← nextMany (tag.arity.getD 0) rest
    return (.ofOperands tag operands.reverse, rest)) := by
  unfold readItem
  congr 1
  funext ⟨tag, rest⟩
  cases tag <;> rfl

/-- An item is read exactly where its words stand. -/
theorem readItem_eq_ok_iff {item : Item} :
    readItem words = .ok (item, rest) ↔ words = item.backward ++ rest := by
  rw [readItem_eq]
  constructor
  · intro h
    cases htag : nextTag words with
    | error fault => simp [htag, bind, Except.bind] at h
    | ok found =>
      obtain ⟨tag, unread⟩ := found
      obtain rfl := nextTag_eq_ok_iff.1 htag
      cases hmany : nextMany (tag.arity.getD 0) unread with
      | error fault => simp [htag, hmany, bind, Except.bind] at h
      | ok found =>
        obtain ⟨read, left⟩ := found
        obtain rfl := nextMany_eq_ok_iff.1 hmany
        obtain ⟨rfl, rfl⟩ : Item.ofOperands tag read.reverse = item ∧ left = rest := by
          simpa [htag, hmany, bind, Except.bind, pure, Except.pure] using h
        rw [Item.backward_ofOperands]
        simp
  · rintro rfl
    obtain ⟨tag, operands, rfl⟩ := item.exists_ofOperands
    have hmany : nextMany (tag.arity.getD 0) (operands.toList.reverse ++ rest) =
        .ok (operands.reverse, rest) := nextMany_eq_ok_iff.2 (by simp)
    rw [Item.backward_ofOperands, List.cons_append, nextTag_eq_ok_iff.2 rfl]
    simp [hmany, bind, Except.bind, pure, Except.pure]

/-- The words of an item are read as that item. -/
@[simp]
theorem readItem_backward (item : Item) (rest : List Int) :
    readItem (item.backward ++ rest) = .ok (item, rest) :=
  readItem_eq_ok_iff.2 rfl

end Words

namespace Node

variable {fuel : Nat} {pending : List (Step Node)} {words rest : List Int} {node : Node}

/-- No tree is without words. -/
theorem encode_ne_nil (node : Node) : node.encode ≠ [] := by
  have := two_le_length_encode node
  intro hnil
  rw [hnil] at this
  simp at this

/-! ## One expression among unread words -/

/-- The words of a tree backwards: its last item, and then the words that this item is applied
to. -/
theorem reverse_encode_frame (how : Framing) (source : Node) (width height : Int) :
    (frame how source width height).encode.reverse =
      (Item.frame how width height).backward ++ source.encode.reverse := by
  simp [encode, Item.backward]

theorem reverse_encode_blur (source : Node) (strength : Int) :
    (blur source strength).encode.reverse =
      (Item.blur strength).backward ++ source.encode.reverse := by
  simp [encode, Item.backward]

theorem reverse_encode_overlay (source argument : Node) :
    (overlay source argument).encode.reverse =
      Item.overlay.backward ++ (argument.encode.reverse ++ source.encode.reverse) := by
  simp [encode, Item.backward]

/-- The step of an item that carries its operands is pending while the words before it are read. -/
theorem readNode_frame (how : Framing) (width height : Int) :
    readNode (fuel + 1) pending ((Item.frame how width height).backward ++ words) =
      readNode fuel (.frame how width height :: pending) words := by
  rw [readNode, Words.readItem_backward]

theorem readNode_blur (strength : Int) :
    readNode (fuel + 1) pending ((Item.blur strength).backward ++ words) =
      readNode fuel (.blur strength :: pending) words := by
  rw [readNode, Words.readItem_backward]

/-- Reading a tree's words gives the tree with the pending steps applied to it, and leaves what
stands before them. -/
theorem readNode_encode (node : Node) (fuel : Nat) (pending : List (Step Node)) (rest : List Int)
    (hfuel : node.encode.length ≤ fuel) :
    readNode fuel pending (node.encode.reverse ++ rest) = .ok (pending.foldl apply node, rest) := by
  -- Along the tree; a step moves from its place above the source to the pending ones.
  induction node generalizing fuel pending rest with
  | image index =>
    cases fuel with
    | zero => simp [encode] at hfuel
    | succ fuel =>
      have hitem := Words.readItem_backward (.image index) rest
      simp only [Item.backward, List.cons_append, List.nil_append] at hitem
      simp [readNode, encode, hitem]
  | frame how source width height ih =>
    cases fuel with
    | zero => simp [encode] at hfuel
    | succ fuel =>
      have hsource : source.encode.length ≤ fuel := by
        simp [encode] at hfuel
        omega
      rw [reverse_encode_frame, List.append_assoc, readNode_frame]
      exact ih fuel _ rest hsource
  | blur source strength ih =>
    cases fuel with
    | zero => simp [encode] at hfuel
    | succ fuel =>
      have hsource : source.encode.length ≤ fuel := by
        simp [encode] at hfuel
        omega
      rw [reverse_encode_blur, List.append_assoc, readNode_blur]
      exact ih fuel _ rest hsource
  | overlay source argument ihs iha =>
    cases fuel with
    | zero => simp [encode] at hfuel
    | succ fuel =>
      have hlength : source.encode.length + argument.encode.length ≤ fuel := by
        simp [encode] at hfuel
        omega
      rw [reverse_encode_overlay, List.append_assoc, List.append_assoc, readNode,
        Words.readItem_backward]
      simp only
      rw [iha fuel [] _ (by omega)]
      exact ihs fuel _ rest (by omega)

/-- What is read is a tree whose words stood there, with the pending steps applied to it. -/
theorem exists_of_readNode (h : readNode fuel pending words = .ok (node, rest)) :
    ∃ read : Node, node = pending.foldl apply read ∧ words = read.encode.reverse ++ rest := by
  induction fuel generalizing pending words node rest with
  | zero => simp [readNode] at h
  | succ fuel ih =>
    rw [readNode] at h
    cases hitem : Words.readItem words with
    | error e => simp [hitem] at h
    | ok pair =>
      obtain ⟨item, left⟩ := pair
      obtain rfl := Words.readItem_eq_ok_iff.1 hitem
      simp only [hitem] at h
      cases item with
      | image index =>
        obtain ⟨rfl, rfl⟩ : pending.foldl apply (image index) = node ∧ left = rest := by
          simpa using h
        exact ⟨image index, rfl, by simp [encode, Item.backward]⟩
      | frame how width height =>
        obtain ⟨source, rfl, rfl⟩ := ih h
        refine ⟨frame how source width height, rfl, ?_⟩
        rw [reverse_encode_frame, List.append_assoc]
      | blur strength =>
        obtain ⟨source, rfl, rfl⟩ := ih h
        refine ⟨blur source strength, rfl, ?_⟩
        rw [reverse_encode_blur, List.append_assoc]
      | overlay =>
        cases hargument : readNode fuel [] left with
        | error e => simp [hargument] at h
        | ok inner =>
          obtain ⟨argument, left'⟩ := inner
          simp only [hargument] at h
          obtain ⟨_, rfl, rfl⟩ := ih hargument
          obtain ⟨source, rfl, rfl⟩ := ih h
          refine ⟨overlay source argument, rfl, ?_⟩
          rw [reverse_encode_overlay, List.append_assoc, List.append_assoc]

/-- A tree's words end no other tree's words. -/
theorem eq_nil_of_append_encode {before : List Int} {n m : Node}
    (h : before ++ n.encode = m.encode) : before = [] ∧ n = m := by
  have hreverse : n.encode.reverse ++ before.reverse = m.encode.reverse ++ [] := by
    rw [← h, List.reverse_append, List.append_nil]
  have hlength : n.encode.length ≤ m.encode.length := by
    rw [← h, List.length_append]
    omega
  have hn := readNode_encode n m.encode.length [] before.reverse hlength
  rw [hreverse, readNode_encode m m.encode.length [] [] (Nat.le_refl _)] at hn
  obtain ⟨hnode, hbefore⟩ := Prod.mk.inj (Except.ok.inj hn)
  exact ⟨List.reverse_eq_nil_iff.1 hbefore.symm, hnode.symm⟩

/-! ## Decoding -/

/-- Exactly the words of a tree are decoded to it. -/
theorem decode_eq_ok_iff : decode words = .ok node ↔ words = node.encode := by
  constructor
  · intro h
    unfold decode at h
    split at h
    · cases h
    · split at h
      · cases h
      · rename_i hread
        obtain rfl := Except.ok.inj h
        obtain ⟨_, rfl, hwords⟩ := exists_of_readNode hread
        rw [← List.reverse_reverse words, hwords]
        simp
      · cases h
  · rintro rfl
    have hread := readNode_encode node node.encode.length [] [] (Nat.le_refl _)
    rw [List.append_nil] at hread
    rw [decode, if_neg (encode_ne_nil node), hread]
    rfl

end Node

end Montage
