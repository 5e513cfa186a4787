import Montage.Proofs.Expression.Check

/-!
# Chains step by step

The grammar reads a chain from its root, one step after the other. A `Link` is a step apart from
what stands before it, and `Chain.extend` adds it to a chain. `Chain.check` goes through a syntax
tree in the order of its text and holds it to the limits: each number to the maximum, each overlay
to the depth, and each word to the room that is left when it is written. The text, the words and the
checks of a chain grow with each link (`text_extend`, `encode_prune_extend`, `check_extend`); only a
link that is an image reference drops the words before it.
-/

namespace Montage

/-- A step of a chain, apart from what stands before it. -/
inductive Link where
  /-- An image reference. -/
  | image (index : Fin 10)
  /-- A step with a box. -/
  | frame (how : Framing) (width height : Digits)
  /-- A blurring step. -/
  | blur (strength : Digits)
  /-- An overlay. -/
  | overlay (argument : Chain)

namespace Chain

/-- A chain with one more step. -/
def extend (before : Chain) : Link → Chain
  | .image index => image before index
  | .frame how width height => frame how before width height
  | .blur strength => blur before strength
  | .overlay argument => overlay before argument

/-- The number of steps of a chain. -/
def steps : Chain → Nat
  | root _ => 0
  | image before _ | frame _ before _ _ | blur before _ | overlay before _ => before.steps + 1

variable (t : Task) (capacity : Nat)

/-- The checks of an expression that starts at an offset, with `opened` overlays open and `live`
words in the buffer. -/
def check (opened : Nat) : Chain → (position live : Nat) → Except Fault Unit
  | root index, position, live => t.checkImage capacity index position live
  | image before index, position, live => do
    before.check opened position live
    t.checkImage capacity index (position + before.text.length + 1)
      (live + before.prune.encode.length)
  | frame _ before width height, position, live => do
    before.check opened position live
    let position := position + before.text.length + 4
    let live := live + before.prune.encode.length
    t.checkNumber capacity width position live
    t.checkNumber capacity height (position + width.run.length + 1) (live + 1)
    t.room capacity (position + width.run.length + 1 + height.run.length + 1) (live + 2)
  | blur before strength, position, live => do
    before.check opened position live
    let position := position + before.text.length + 4
    let live := live + before.prune.encode.length
    t.checkNumber capacity strength position live
    t.room capacity (position + strength.run.length + 1) (live + 1)
  | overlay before argument, position, live => do
    before.check opened position live
    let position := position + before.text.length + 4
    let live := live + before.prune.encode.length
    t.checkDepth opened position
    argument.check (opened + 1) position live
    t.room capacity (position + argument.text.length + 1) (live + argument.prune.encode.length)

end Chain

namespace Link

/-- The characters of a step, after its dot. -/
def text : Link → List Char
  | image index => Chain.indexText index
  | frame how width height => Chain.callText how.tag (width.run ++ 'x' :: height.run)
  | blur strength => Chain.callText .blur strength.run
  | overlay argument => Chain.callText .overlay argument.text

/-- The words that a step writes. -/
def words : Link → List Int
  | image index => [(index.val : Int), Tag.image.word]
  | frame how width height => [(width.value : Int), (height.value : Int), how.tag.word]
  | blur strength => [(strength.value : Int), Tag.blur.word]
  | overlay argument => argument.prune.encode ++ [Tag.overlay.word]

/-- Whether a step is an image reference, which discards what stands before it. -/
def isImage : Link → Bool
  | image _ => true
  | _ => false

/-- The checks of a step whose text after the dot starts at an offset. -/
def check (t : Task) (capacity opened : Nat) :
    Link → (position live : Nat) → Except Fault Unit
  | image index, position, live => t.checkImage capacity index position live
  | frame _ width height, position, live => do
    t.checkNumber capacity width (position + 3) live
    t.checkNumber capacity height (position + 3 + width.run.length + 1) (live + 1)
    t.room capacity (position + 3 + width.run.length + 1 + height.run.length + 1) (live + 2)
  | blur strength, position, live => do
    t.checkNumber capacity strength (position + 3) live
    t.room capacity (position + 3 + strength.run.length + 1) (live + 1)
  | overlay argument, position, live => do
    t.checkDepth opened (position + 3)
    argument.check t capacity (opened + 1) (position + 3) live
    t.room capacity (position + 3 + argument.text.length + 1)
      (live + argument.prune.encode.length)

end Link

namespace Chain

variable (before : Chain) (link : Link)

theorem text_extend : (before.extend link).text = before.text ++ '.' :: link.text := by
  cases link <;> rfl

theorem steps_extend : (before.extend link).steps = before.steps + 1 := by
  cases link <;> rfl

/-- A step that is an image reference leaves only its own words, any other one adds its words. -/
theorem encode_prune_extend : (before.extend link).prune.encode =
    if link.isImage then link.words else before.prune.encode ++ link.words := by
  cases link <;> simp [extend, prune, Node.encode, Link.words, Link.isImage]

theorem check_extend (t : Task) (capacity opened position live : Nat) :
    (before.extend link).check t capacity opened position live = (do
      before.check t capacity opened position live
      link.check t capacity opened (position + before.text.length + 1)
        (live + before.prune.encode.length)) := by
  cases link <;> rfl

/-- Induction along a chain. -/
theorem extend_induction {motive : Chain → Prop} (root : ∀ index, motive (root index))
    (extend : ∀ (before : Chain) (link : Link), motive before → motive (before.extend link))
    (c : Chain) : motive c := by
  induction c with
  | root index => exact root index
  | image before index ih => exact extend before (.image index) ih
  | frame how before width height ih => exact extend before (.frame how width height) ih
  | blur before strength ih => exact extend before (.blur strength) ih
  | overlay before argument ih => exact extend before (.overlay argument) ih

/-- A chain starts with the digit of its root. -/
theorem exists_text_eq (c : Chain) : ∃ index tail, c.text = indexText index ++ tail := by
  induction c using extend_induction with
  | root index => exact ⟨index, [], rfl⟩
  | extend before link ih =>
    obtain ⟨index, tail, hbefore⟩ := ih
    exact ⟨index, tail ++ '.' :: link.text, by rw [text_extend, hbefore, List.append_assoc]⟩

/-- A chain has fewer steps than characters. -/
theorem steps_lt_length_text (c : Chain) : c.steps < c.text.length := by
  induction c using extend_induction with
  | root index => simp [steps, text, indexText]
  | extend before link ih =>
    rw [steps_extend, text_extend]
    simp
    omega

end Chain

end Montage
