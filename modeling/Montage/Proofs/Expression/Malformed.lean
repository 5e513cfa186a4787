import Montage.Proofs.Expression.Encoding
import Montage.Proofs.Text.Numerals

/-!
# Words that are not an expression

Decoding refuses words that no tree has, and its fault tells what is wrong with them: none are
there, a word in the place of a tag is none, the words start within an expression, or some are left
over before one. `Malformed.Describes` says so about the words alone, and `decode_eq_error_iff` that
decoding refuses them for exactly the fault that describes them. A backward walk expects an item at
certain places only; `ItemDue` carries what is known of the words read so far when it does.
-/

namespace Montage

/-- An item has at least the word of its tag. -/
theorem Item.length_backward_pos (item : Item) : 0 < item.backward.length := by
  cases item <;> exact Nat.succ_pos _

namespace Words

variable {words : List Int} {fault : WordFault}

/-- Where several words are not read, there are too few of them, and others behind them make up the
number. -/
theorem nextMany_eq_error {count : Nat} (h : nextMany count words = .error fault) :
    fault = .malformed .pastStart ∧
      ∃ (more : List Int) (read : Vector Int count), more ≠ [] ∧ words ++ more = read.toList := by
  induction count with
  | zero => cases h
  | succ count ih =>
    rw [nextMany] at h
    cases hmany : nextMany count words with
    | error fault' =>
      obtain rfl : fault' = fault := by simpa [hmany, bind, Except.bind] using h
      obtain ⟨rfl, more, read, hmore, hwords⟩ := ih hmany
      refine ⟨rfl, more ++ [0], read.push 0, by simp, ?_⟩
      rw [← List.append_assoc, hwords, Vector.toList_push]
    | ok found =>
      obtain ⟨read, unread⟩ := found
      have hwords := nextMany_eq_ok_iff.1 hmany
      cases unread with
      | nil =>
        obtain rfl : Malformed.pastStart.refusal = fault := by
          simpa [hmany, next, bind, Except.bind] using h
        exact ⟨rfl, [0], read.push 0, by simp, by simp [hwords, Vector.toList_push]⟩
      | cons word unread => simp [hmany, next, bind, Except.bind, pure, Except.pure] at h

/-- Where no tag is read, no word is left, or the next one is not a tag. -/
theorem nextTag_eq_error (h : nextTag words = .error fault) :
    (fault = .malformed .pastStart ∧ words = []) ∨
      ∃ word rest, fault = (Malformed.unknownTag word).refusal ∧ words = word :: rest ∧
        Tag.ofWord? word = none := by
  cases words with
  | nil => exact .inl ⟨(Except.error.inj h).symm, rfl⟩
  | cons word rest =>
    cases htag : Tag.ofWord? word with
    | none =>
      obtain rfl : (Malformed.unknownTag word).refusal = fault := by
        simpa [nextTag, next, htag, bind, Except.bind, throw, throwThe, MonadExceptOf.throw] using h
      exact .inr ⟨word, rest, rfl, rfl, htag⟩
    | some tag => simp [nextTag, next, htag, bind, Except.bind, pure, Except.pure] at h

/-- Where no item is read, the words end within an item, or the first of them is not a tag. -/
theorem readItem_eq_error (h : readItem words = .error fault) :
    (fault = .malformed .pastStart ∧ ∃ more item, more ≠ [] ∧ words ++ more = Item.backward item) ∨
      ∃ word rest, fault = (Malformed.unknownTag word).refusal ∧ words = word :: rest ∧
        Tag.ofWord? word = none := by
  rw [readItem_eq] at h
  cases htag : nextTag words with
  | error fault' =>
    obtain rfl : fault' = fault := by simpa [htag, bind, Except.bind] using h
    obtain ⟨rfl, rfl⟩ | hunknown := nextTag_eq_error htag
    · exact .inl ⟨rfl, _, .overlay, List.cons_ne_nil _ _, rfl⟩
    · exact .inr hunknown
  | ok found =>
    obtain ⟨tag, rest⟩ := found
    obtain rfl := nextTag_eq_ok_iff.1 htag
    cases hmany : nextMany (tag.arity.getD 0) rest with
    | ok found => simp [htag, hmany, bind, Except.bind, pure, Except.pure] at h
    | error fault' =>
      obtain rfl : fault' = fault := by simpa [htag, hmany, bind, Except.bind] using h
      -- The tag lacks operands: any operands make up an item.
      obtain ⟨rfl, more, read, hmore, hrest⟩ := nextMany_eq_error hmany
      refine .inl ⟨rfl, more, .ofOperands tag read.reverse, hmore, ?_⟩
      rw [Item.backward_ofOperands, List.cons_append, hrest]
      simp

/-- A word that is not a tag stops the reading of an item, whatever stands before it. -/
theorem readItem_eq_unknownTag {word : Int} (h : Tag.ofWord? word = none) (rest : List Int) :
    readItem (word :: rest) = .error (Malformed.unknownTag word).refusal := by
  simp [readItem, nextTag, next, h, bind, Except.bind, throw, throwThe, MonadExceptOf.throw]

end Words

namespace Node

variable {fuel : Nat} {pending : List (Step Node)} {words rest : List Int} {fault : WordFault}
  {node : Node}

/-! ## Places where an item is expected -/

/-- Words, in the order of reading, after which an item is expected. -/
structure ItemDue (read : List Int) : Prop where
  /-- Words that are no item stop the reading there. -/
  stops : ∀ (pending : List (Step Node)) (unread : List Int) (fault : WordFault) (fuel : Nat),
    Words.readItem unread = .error fault → (read ++ unread).length ≤ fuel →
      readNode fuel pending (read ++ unread) = .error fault
  /-- Any item is a part of some expression there. -/
  goesOn : ∀ item : Item, ∃ (more : List Int) (node : Node),
    read ++ (item.backward ++ more) = node.encode.reverse

/-- An item is expected at the start. -/
theorem itemDue_nil : ItemDue [] where
  stops pending unread fault fuel hunread hfuel := by
    cases fuel with
    | zero =>
      obtain rfl : unread = [] := List.eq_nil_of_length_eq_zero (by simpa using hfuel)
      have hitem : Words.readItem [] = .error Malformed.pastStart.refusal := rfl
      obtain rfl := Except.error.inj (hitem.symm.trans hunread)
      rfl
    | succ fuel => rw [List.nil_append, readNode, hunread]
  goesOn item := by
    cases item with
    | image index => exact ⟨[], image index, by simp [encode, Item.backward]⟩
    | frame how width height =>
      exact ⟨_, frame how (image 0) width height, (reverse_encode_frame ..).symm⟩
    | blur strength => exact ⟨_, blur (image 0) strength, (reverse_encode_blur ..).symm⟩
    | overlay => exact ⟨_, overlay (image 0) (image 0), (reverse_encode_overlay ..).symm⟩

/-- A step is applied to the expression that is read after the item of the step. -/
theorem ItemDue.of_item {read : List Int} (h : ItemDue read) {item : Item} {step : Step Node}
    {made : Node → Node}
    (hread : ∀ fuel pending unread, readNode (fuel + 1) pending (item.backward ++ unread) =
      readNode fuel (step :: pending) unread)
    (hmade : ∀ source : Node,
      (made source).encode.reverse = item.backward ++ source.encode.reverse) :
    ItemDue (item.backward ++ read) where
  stops pending unread fault fuel hunread hfuel := by
    have hitem := item.length_backward_pos
    rw [List.append_assoc, List.length_append] at hfuel
    cases fuel with
    | zero => omega
    | succ fuel =>
      rw [List.append_assoc, hread]
      exact h.stops _ unread fault fuel hunread (by omega)
  goesOn next := by
    obtain ⟨more, source, hsource⟩ := h.goesOn next
    refine ⟨more, made source, ?_⟩
    rw [hmade, ← hsource, List.append_assoc]

/-- A framing is applied to the expression that is read after it. -/
theorem ItemDue.frame {read : List Int} (h : ItemDue read) (how : Framing) (width height : Int) :
    ItemDue ((Item.frame how width height).backward ++ read) :=
  h.of_item (fun _ _ _ => readNode_frame how width height)
    fun source => reverse_encode_frame how source width height

/-- A blur is applied to the expression that is read after it. -/
theorem ItemDue.blur {read : List Int} (h : ItemDue read) (strength : Int) :
    ItemDue ((Item.blur strength).backward ++ read) :=
  h.of_item (fun _ _ _ => readNode_blur strength) fun source => reverse_encode_blur source strength

/-- The argument of an overlay is read after its tag. -/
theorem ItemDue.argument {read : List Int} (h : ItemDue read) :
    ItemDue (Item.overlay.backward ++ read) where
  stops pending unread fault fuel hunread hfuel := by
    cases fuel with
    | zero => simp [Item.backward] at hfuel
    | succ fuel =>
      have hrest : (read ++ unread).length ≤ fuel := by
        simp [Item.backward] at hfuel ⊢
        omega
      rw [List.append_assoc, readNode, Words.readItem_backward]
      simp only
      rw [h.stops [] unread fault fuel hunread hrest]
  goesOn item := by
    obtain ⟨more, argument, hargument⟩ := h.goesOn item
    refine ⟨more ++ (image 0).encode.reverse, Node.overlay (image 0) argument, ?_⟩
    rw [reverse_encode_overlay, ← hargument]
    simp only [List.append_assoc]

/-- An overlay is applied to the expression that is read after its argument. -/
theorem ItemDue.overlay {read : List Int} (h : ItemDue read) (argument : Node) :
    ItemDue (Item.overlay.backward ++ (argument.encode.reverse ++ read)) where
  stops pending unread fault fuel hunread hfuel := by
    cases fuel with
    | zero => simp [Item.backward] at hfuel
    | succ fuel =>
      have hrest : argument.encode.length + (read ++ unread).length ≤ fuel := by
        simp [Item.backward] at hfuel ⊢
        omega
      rw [List.append_assoc, readNode, Words.readItem_backward]
      simp only
      rw [List.append_assoc, readNode_encode argument fuel [] _ (by omega)]
      exact h.stops _ unread fault fuel hunread (by omega)
  goesOn item := by
    obtain ⟨more, source, hsource⟩ := h.goesOn item
    refine ⟨more, Node.overlay source argument, ?_⟩
    rw [reverse_encode_overlay, ← hsource]
    simp only [List.append_assoc]

/-- The reading stops where an item is expected and none stands. -/
theorem exists_of_readNode_eq_error (hwords : words.length ≤ fuel)
    (h : readNode fuel pending words = .error fault) :
    ∃ read unread, words = read ++ unread ∧ ItemDue read ∧
      Words.readItem unread = .error fault := by
  -- On the words that may still be read; an item is due at the start of each of them.
  induction fuel generalizing pending words with
  | zero =>
    obtain rfl : words = [] := List.eq_nil_of_length_eq_zero (by omega)
    obtain rfl := Except.error.inj h
    exact ⟨[], [], rfl, itemDue_nil, rfl⟩
  | succ fuel ih =>
    rw [readNode] at h
    cases hitem : Words.readItem words with
    | error e =>
      obtain rfl : e = fault := by simpa [hitem] using h
      exact ⟨[], words, rfl, itemDue_nil, hitem⟩
    | ok pair =>
      obtain ⟨item, left⟩ := pair
      obtain rfl := Words.readItem_eq_ok_iff.1 hitem
      simp only [hitem] at h
      have hleft : left.length ≤ fuel := by
        cases item <;> simp [Item.backward] at hwords <;> omega
      cases item with
      | image index => simp at h
      | frame how width height =>
        obtain ⟨read, unread, rfl, hread, hunread⟩ := ih hleft h
        exact ⟨_, unread, (List.append_assoc ..).symm, hread.frame how width height, hunread⟩
      | blur strength =>
        obtain ⟨read, unread, rfl, hread, hunread⟩ := ih hleft h
        exact ⟨_, unread, (List.append_assoc ..).symm, hread.blur strength, hunread⟩
      | overlay =>
        cases hargument : readNode fuel [] left with
        | error e =>
          obtain rfl : e = fault := by simpa [hargument] using h
          obtain ⟨read, unread, rfl, hread, hunread⟩ := ih hleft hargument
          exact ⟨_, unread, (List.append_assoc ..).symm, hread.argument, hunread⟩
        | ok inner =>
          obtain ⟨argument, left'⟩ := inner
          simp only [hargument] at h
          obtain ⟨_, rfl, rfl⟩ := exists_of_readNode hargument
          simp only [List.length_append] at hleft
          obtain ⟨read, unread, rfl, hread, hunread⟩ := ih (by omega) h
          refine ⟨_, unread, ?_, hread.overlay argument, hunread⟩
          simp only [List.append_assoc]

end Node

/-- The last words of an expression, before which a tag stands in every expression that they end. -/
def TagPlace (after : List Int) : Prop :=
  (∃ (before : List Int) (word : Int) (node : Node), before ++ word :: after = node.encode) ∧
    ∀ (before : List Int) (word : Int) (node : Node), before ++ word :: after = node.encode →
      (Tag.ofWord? word).isSome

/-- The words that a fault of decoding is about. -/
def Malformed.Describes : Malformed → List Int → Prop
  | .empty purpose, words => purpose = .decoding ∧ words = []
  | .unknownTag word, words =>
    ∃ before after, words = before ++ word :: after ∧ TagPlace after ∧ Tag.ofWord? word = none
  | .pastStart, words =>
    words ≠ [] ∧ ∃ (before : List Int) (node : Node), before ≠ [] ∧ before ++ words = node.encode
  | .leftOver purpose count, words =>
    purpose = .decoding ∧ 0 < count ∧
      ∃ (before : List Int) (node : Node), before.length = count ∧ words = before ++ node.encode
  | .noImage _ _, _ => False

namespace Node

variable {words : List Int} {fault fault' : Malformed} {node : Node}

/-- Where an item is due, a tag is due. -/
theorem ItemDue.tagPlace {read : List Int} (h : ItemDue read) : TagPlace read.reverse := by
  constructor
  · obtain ⟨more, node, hnode⟩ := h.goesOn .overlay
    refine ⟨more.reverse, Tag.overlay.word, node, ?_⟩
    rw [← List.reverse_reverse node.encode, ← hnode]
    simp [Item.backward]
  · intro before word node hnode
    cases hword : Tag.ofWord? word with
    | some tag => rfl
    | none =>
      -- The reading would stop at the word, but it comes through all the words of the tree.
      have hreverse : read ++ word :: before.reverse = node.encode.reverse ++ [] := by
        rw [← hnode]
        simp
      have hitem := Words.readItem_eq_unknownTag hword before.reverse
      have hstop := h.stops [] _ _ _ hitem (Nat.le_refl _)
      rw [hreverse, readNode_encode node _ [] [] (by simp)] at hstop
      cases hstop

/-- Words before which a tag stands in every expression are a proper part of one, so that no
expression ends them. -/
theorem not_tagPlace_append_encode (before : List Int) (node : Node) :
    ¬ TagPlace (before ++ node.encode) := by
  rintro ⟨⟨lead, word, whole, hwhole⟩, -⟩
  -- The words of the tree would end a larger one.
  have hwords : (lead ++ word :: before) ++ node.encode = whole.encode := by
    rw [← hwhole, List.append_assoc, List.cons_append]
  simpa using (eq_nil_of_append_encode hwords).1

/-! ## Decoding -/

/-- Words are refused by decoding for a fault that tells what is wrong with them. -/
theorem exists_describes_of_decode {refusal : WordFault} (h : decode words = .error refusal) :
    ∃ fault : Malformed, fault.Describes words ∧ fault.refusal = refusal := by
  unfold decode at h
  split at h
  · rename_i hnil
    exact ⟨.empty .decoding, ⟨rfl, hnil⟩, Except.error.inj h⟩
  · rename_i hne
    split at h
    · rename_i hread
      obtain rfl := Except.error.inj h
      obtain ⟨read, unread, hwords, hdue, hitem⟩ :=
        exists_of_readNode_eq_error (by simp) hread
      have hforward : words = unread.reverse ++ read.reverse := by
        rw [← List.reverse_reverse words, hwords, List.reverse_append]
      rcases Words.readItem_eq_error hitem with
        ⟨rfl, more, item, hmore, hwhole⟩ | ⟨word, rest, rfl, rfl, hnone⟩
      · -- The broken item can be completed, and then the expression around it.
        obtain ⟨lead, node, hnode⟩ := hdue.goesOn item
        refine ⟨.pastStart, ⟨hne, (more ++ lead).reverse, node, by simp [hmore], ?_⟩, rfl⟩
        rw [← List.reverse_reverse node.encode, ← hnode, ← hwhole, hforward]
        simp
      · refine ⟨.unknownTag word, ⟨rest.reverse, read.reverse, ?_, hdue.tagPlace, hnone⟩, rfl⟩
        simp [hforward]
    · cases h
    · rename_i node rest hrest hread
      obtain ⟨_, rfl, hwords⟩ := exists_of_readNode hread
      refine ⟨.leftOver .decoding rest.length, ⟨rfl, List.length_pos_iff.2 hrest, rest.reverse,
        node, List.length_reverse, ?_⟩, Except.error.inj h⟩
      rw [← List.reverse_reverse words, hwords]
      simp

/-- Words with a word in the place of a tag that is none end no expression. -/
theorem append_ne_encode_of_unknownTag {word : Int}
    (h : (Malformed.unknownTag word).Describes words) (lead : List Int) (node : Node) :
    lead ++ words ≠ node.encode := by
  obtain ⟨before, after, rfl, hplace, hnone⟩ := h
  intro hwhole
  have hsome := hplace.2 (lead ++ before) word node (by rw [← hwhole, List.append_assoc])
  simp [hnone] at hsome

/-- Words with some left over end no expression. -/
theorem append_ne_encode_of_leftOver {purpose : Purpose} {count : Nat}
    (h : (Malformed.leftOver purpose count).Describes words) (lead : List Int) (node : Node) :
    lead ++ words ≠ node.encode := by
  obtain ⟨-, hcount, before, part, hbefore, rfl⟩ := h
  rw [← List.append_assoc]
  intro hwhole
  have hnil := (eq_nil_of_append_encode hwhole).1
  rw [(List.append_eq_nil_iff.1 hnil).2, List.length_nil] at hbefore
  omega

/-- A word in the place of a tag that is none leaves no place for words to be left over. -/
theorem not_leftOver_of_unknownTag {word : Int} {purpose : Purpose} {count : Nat}
    (h : (Malformed.unknownTag word).Describes words) :
    ¬ (Malformed.leftOver purpose count).Describes words := by
  rintro ⟨-, -, before, node, -, hnode⟩
  obtain ⟨before', after, rfl, hplace, hnone⟩ := h
  rcases List.append_eq_append_iff.1 hnode with ⟨middle, -, hmiddle⟩ | ⟨middle, -, hmiddle⟩
  · cases middle with
    | nil => exact absurd (hplace.2 [] word node hmiddle) (by simp [hnone])
    | cons first middle =>
      -- The word is among those left over, and a whole expression stands after it.
      obtain ⟨rfl, rfl⟩ := List.cons.inj hmiddle
      exact not_tagPlace_append_encode middle node hplace
  · exact absurd (hplace.2 middle word node hmiddle.symm) (by simp [hnone])

/-- Of two words in the place of a tag, the one nearer to the start is a tag. -/
theorem isSome_of_tagPlace_append {word : Int} {before after : List Int} (h : TagPlace after)
    (hrest : TagPlace (before ++ word :: after)) : (Tag.ofWord? word).isSome := by
  obtain ⟨⟨lead, other, whole, hwhole⟩, -⟩ := hrest
  exact h.2 (lead ++ other :: before) word whole (by rw [← hwhole]; simp)

/-- One word at most is the one in the place of a tag that is none. -/
theorem unknownTag_unique {word word' : Int} (h : (Malformed.unknownTag word).Describes words)
    (h' : (Malformed.unknownTag word').Describes words) : word = word' := by
  obtain ⟨before, after, rfl, hplace, hnone⟩ := h
  obtain ⟨before', after', hwords, hplace', hnone'⟩ := h'
  rcases List.append_eq_append_iff.1 hwords with ⟨middle, -, hmiddle⟩ | ⟨middle, -, hmiddle⟩
  · cases middle with
    | nil => exact (List.cons.inj hmiddle).1
    | cons first middle =>
      obtain ⟨-, rfl⟩ := List.cons.inj hmiddle
      simpa [hnone'] using isSome_of_tagPlace_append hplace' hplace
  · cases middle with
    | nil => exact (List.cons.inj hmiddle).1.symm
    | cons first middle =>
      obtain ⟨-, rfl⟩ := List.cons.inj hmiddle
      simpa [hnone] using isSome_of_tagPlace_append hplace hplace'

/-- The number of words left over is determined. -/
theorem leftOver_unique {purpose purpose' : Purpose} {count count' : Nat}
    (h : (Malformed.leftOver purpose count).Describes words)
    (h' : (Malformed.leftOver purpose' count').Describes words) : count = count' := by
  obtain ⟨-, -, before, node, rfl, rfl⟩ := h
  obtain ⟨-, -, before', node', rfl, hwords⟩ := h'
  rcases List.append_eq_append_iff.1 hwords with ⟨middle, rfl, hmiddle⟩ | ⟨middle, rfl, hmiddle⟩
  · rw [(eq_nil_of_append_encode hmiddle.symm).1, List.append_nil]
  · rw [(eq_nil_of_append_encode hmiddle.symm).1, List.append_nil]

/-- What a fault describes is no expression. -/
theorem ne_encode_of_describes (h : fault.Describes words) (node : Node) :
    words ≠ node.encode := by
  cases fault with
  | empty purpose =>
    rintro rfl
    exact encode_ne_nil node h.2
  | unknownTag word => exact append_ne_encode_of_unknownTag h [] node
  | pastStart =>
    rintro rfl
    obtain ⟨-, before, whole, hbefore, hwhole⟩ := h
    exact hbefore (eq_nil_of_append_encode hwhole).1
  | leftOver purpose count => exact append_ne_encode_of_leftOver h [] node
  | noImage index count => exact h.elim

/-- Empty words have no other fault. -/
theorem eq_empty_of_describes_nil (h : fault.Describes []) : fault = .empty .decoding := by
  cases fault with
  | empty purpose => rw [h.1]
  | unknownTag word =>
    obtain ⟨before, after, hwords, -⟩ := h
    simp at hwords
  | pastStart => exact absurd rfl h.1
  | leftOver purpose count =>
    obtain ⟨-, -, before, node, -, hwords⟩ := h
    exact absurd hwords.symm (by simp [encode_ne_nil])
  | noImage index count => exact h.elim

/-- No two faults describe the same words. -/
theorem describes_unique (h : fault.Describes words) (h' : fault'.Describes words) :
    fault = fault' := by
  by_cases hwords : words = []
  · subst hwords
    rw [eq_empty_of_describes_nil h, eq_empty_of_describes_nil h']
  -- Each kind of fault excludes the others, and determines what it says.
  match fault, fault', h, h' with
  | .empty _, _, h, _ => exact absurd h.2 hwords
  | _, .empty _, _, h' => exact absurd h'.2 hwords
  | .unknownTag _, .unknownTag _, h, h' => rw [unknownTag_unique h h']
  | .unknownTag _, .pastStart, h, ⟨_, lead, node, _, hwhole⟩ =>
    exact absurd hwhole (append_ne_encode_of_unknownTag h lead node)
  | .pastStart, .unknownTag _, ⟨_, lead, node, _, hwhole⟩, h' =>
    exact absurd hwhole (append_ne_encode_of_unknownTag h' lead node)
  | .unknownTag _, .leftOver _ _, h, h' => exact absurd h' (not_leftOver_of_unknownTag h)
  | .leftOver _ _, .unknownTag _, h, h' => exact absurd h (not_leftOver_of_unknownTag h')
  | .pastStart, .pastStart, _, _ => rfl
  | .pastStart, .leftOver _ _, ⟨_, lead, node, _, hwhole⟩, h' =>
    exact absurd hwhole (append_ne_encode_of_leftOver h' lead node)
  | .leftOver _ _, .pastStart, h, ⟨_, lead, node, _, hwhole⟩ =>
    exact absurd hwhole (append_ne_encode_of_leftOver h lead node)
  | .leftOver _ _, .leftOver _ _, h, h' => rw [leftOver_unique h h', h.1, h'.1]

/-- Decoding refuses words exactly for the fault that describes them. -/
theorem decode_eq_error_iff {refusal : WordFault} :
    decode words = .error refusal ↔
      ∃ fault : Malformed, fault.Describes words ∧ fault.refusal = refusal := by
  refine ⟨exists_describes_of_decode, ?_⟩
  rintro ⟨fault, h, rfl⟩
  cases hdecode : decode words with
  | ok node => exact absurd (decode_eq_ok_iff.1 hdecode) (ne_encode_of_describes h node)
  | error refusal =>
    obtain ⟨fault', h', rfl⟩ := exists_describes_of_decode hdecode
    rw [describes_unique h h']

/-- A fault of decoding names a word only where one in the place of a tag is none. -/
theorem named?_eq_some_iff (h : fault.Describes words) {word : Int} :
    fault.named? = some word ↔ fault = .unknownTag word := by
  cases fault with
  | noImage index count => exact h.elim
  | unknownTag _ | pastStart | empty _ | leftOver _ _ => simp [Malformed.named?]

/-- Words are malformed for decoding if a fault describes them and can be put into words. -/
theorem decode_eq_malformed_iff :
    decode words = .error (.malformed fault) ↔
      fault.Describes words ∧ ∀ word, fault = .unknownTag word → Numeral.Writable word := by
  have hnamed : fault.Describes words → ((∀ word ∈ fault.named?, Numeral.Writable word) ↔
      ∀ word, fault = .unknownTag word → Numeral.Writable word) := fun h =>
    forall_congr' fun word => imp_congr_left (named?_eq_some_iff h)
  rw [decode_eq_error_iff]
  constructor
  · rintro ⟨fault', h, hrefusal⟩
    obtain ⟨rfl, hshort⟩ := Malformed.refusal_eq_malformed_iff.1 hrefusal
    exact ⟨h, (hnamed h).1 hshort⟩
  · rintro ⟨h, hshort⟩
    exact ⟨fault, h, Malformed.refusal_eq_malformed_iff.2 ⟨rfl, (hnamed h).2 hshort⟩⟩

/-- Words have no fault that decoding could put into words if one in the place of a tag is none and
has no numeral. -/
theorem decode_eq_numeral_iff {reason : Numeral.Fault} :
    decode words = .error (.numeral reason) ↔ reason = .written ∧
      ∃ word, (Malformed.unknownTag word).Describes words ∧ ¬ Numeral.Writable word := by
  rw [decode_eq_error_iff]
  constructor
  · rintro ⟨fault, h, hrefusal⟩
    obtain ⟨rfl, word, hword, hlong⟩ := Malformed.refusal_eq_numeral_iff.1 hrefusal
    obtain rfl := (named?_eq_some_iff h).1 hword
    exact ⟨rfl, word, h, hlong⟩
  · rintro ⟨rfl, word, h, hlong⟩
    exact ⟨.unknownTag word, h, Malformed.refusal_eq_numeral_iff.2 ⟨rfl, word, rfl, hlong⟩⟩

/-- Decoding is the exact inverse of encoding. Every tree is read back from its words, operands
that look like tags included; words are decoded exactly when they are the words of a tree, which
then are the words of the result; all other words are malformed, for the one reason that describes
them, unless a word in the place of a tag is none and is too long for a message that names it; and
no two sequences of words stand for one tree. -/
theorem decode_inverts_encode :
    (∀ node : Node, decode node.encode = .ok node) ∧
      (∀ words, (∃ node, decode words = .ok node) ↔ ∃ node : Node, words = node.encode) ∧
      (∀ words node, decode words = .ok node → node.encode = words) ∧
      (∀ words fault, decode words = .error (.malformed fault) ↔
        fault.Describes words ∧ ∀ word, fault = .unknownTag word → Numeral.Writable word) ∧
      (∀ words reason, decode words = .error (.numeral reason) ↔ reason = .written ∧
        ∃ word, (Malformed.unknownTag word).Describes words ∧ ¬ Numeral.Writable word) ∧
      ∀ words words' node, decode words = .ok node → decode words' = .ok node →
        words = words' := by
  refine ⟨fun node => decode_eq_ok_iff.2 rfl, fun words => ?_, fun words node h => ?_,
    fun words fault => decode_eq_malformed_iff, fun words reason => decode_eq_numeral_iff,
    fun words words' node h h' => ?_⟩
  · exact exists_congr fun node => decode_eq_ok_iff
  · exact (decode_eq_ok_iff.1 h).symm
  · rw [decode_eq_ok_iff.1 h, decode_eq_ok_iff.1 h']

/-- A single word that is no tag is in the place of a tag. -/
theorem describes_singleton {word : Int} (h : Tag.ofWord? word = none) :
    (Malformed.unknownTag word).Describes [word] :=
  ⟨[], [], rfl, itemDue_nil.tagPlace, h⟩

/-- A word of 4301 digits is no expression, but decoding does not find it malformed: the message
would have to name the word. -/
theorem decode_long_word :
    let word : Int := (10 ^ Numeral.longest : Nat)
    (∀ node : Node, [word] ≠ node.encode) ∧
      (∀ fault, decode [word] ≠ .error (.malformed fault)) ∧
      decode [word] = .error (.numeral .written) := by
  intro word
  have hlong : ¬ Numeral.Writable word := Numeral.not_writable_pow (Int.natAbs_natCast _)
  have hnone : Tag.ofWord? word = none := by
    cases htag : Tag.ofWord? word with
    | none => rfl
    | some tag =>
      -- The words of the tags are all of one digit.
      refine absurd ?_ hlong
      rw [Tag.ofWord?_eq_some_iff.1 htag]
      cases tag <;> decide
  have hfault := describes_singleton hnone
  have hdecode : decode [word] = .error (.numeral .written) :=
    decode_eq_numeral_iff.2 ⟨rfl, word, hfault, hlong⟩
  refine ⟨ne_encode_of_describes hfault, fun fault h => ?_, hdecode⟩
  rw [hdecode] at h
  cases h

end Node

end Montage
