import Montage.Proofs.Expression.Encoding
import Montage.Proofs.Expression.Soundness

/-!
# Calling the rules one after the other

A session reads a text by calling the rules of the grammar in any order, each on the reading that
the one before it has left, whatever that one answered. `Reading.Within` is what holds of every
reading of a session: it stands in the text, and its words fit into its buffer. The main statement,
`transactional_of_reached`, says that every call is a transaction: unless it matches it leaves
place, words and open overlays alone, and where it matches it has read and added something.
-/

namespace Montage

open Rule

/-- The rules that a session may call. -/
inductive RuleName where
  /-- A run of digits. -/
  | number
  /-- A width and a height. -/
  | size
  /-- An image reference. -/
  | imageRef
  /-- A step that fits the picture into a box. -/
  | fit
  /-- A step that fills a box with the picture. -/
  | fill
  /-- A step that blurs the picture. -/
  | blur
  /-- A step that draws the picture of an expression. -/
  | overlay
  /-- Any of the steps. -/
  | step
  /-- A whole expression. -/
  | expression
  /-- A dot and a step. -/
  | chainedStep
  deriving DecidableEq, Repr

namespace RuleName

/-- The rule of a name. -/
def rule (t : Task) : RuleName → Rule
  | number => Grammar.number t
  | size => Grammar.size t
  | imageRef => Grammar.imageRef t
  | fit => Grammar.fit t
  | fill => Grammar.fill t
  | blur => Grammar.blur t
  | overlay => Grammar.overlay t
  | step => Grammar.step t
  | expression => Grammar.expression t
  | chainedStep => Grammar.chainedStep t

/-- What a rule matches. -/
def phrase : RuleName → Phrase
  | number => .number
  | size => .size
  | imageRef => .imageRef
  | fit | fill | blur | overlay | step => .step
  | expression => .expression
  | chainedStep => .chainedStep

variable {t : Task} {k : Nat} {s : Reading} {text : List Char} {words : List Int}

/-- Every rule is neat, at every open reading. -/
theorem neat (name : RuleName) (hopen : s.Open) : (name.rule t).Neat t k name.phrase s := by
  have hinner := Grammar.soundArgument_argument t s.depth
  cases name with
  | number => exact Grammar.neat_number hopen
  | size => exact Grammar.neat_size hopen
  | imageRef => exact Grammar.neat_imageRef hopen
  | fit => exact Grammar.neat_frame .fit hopen
  | fill => exact Grammar.neat_frame .fill hopen
  | blur => exact Grammar.neat_blur hopen
  | overlay => exact Grammar.neat_overlayOf hopen hinner
  | step => exact Grammar.neat_stepOf hopen hinner
  | expression => exact Grammar.neat_expression hopen
  | chainedStep => exact Grammar.neat_chainedStepOf hopen hinner

/-- A step has characters and words. -/
theorem ne_nil_of_link (link : Link) : link.text ≠ [] ∧ link.words ≠ [] := by
  cases link <;> simp [Link.text, Link.words, Chain.indexText, Chain.callText]

/-- What a rule matches is not empty, and neither are the words for it. -/
theorem ne_nil_of_phrase {name : RuleName} (h : name.phrase text words) :
    text ≠ [] ∧ words ≠ [] := by
  cases name with
  | number =>
    obtain ⟨number, rfl, rfl⟩ := h
    exact ⟨number.run_ne_nil, List.cons_ne_nil _ _⟩
  | size =>
    obtain ⟨width, height, rfl, rfl⟩ := h
    exact ⟨by simp, List.cons_ne_nil _ _⟩
  | imageRef =>
    obtain ⟨index, rfl, rfl⟩ := h
    exact ⟨List.cons_ne_nil _ _, List.cons_ne_nil _ _⟩
  | fit | fill | blur | overlay | step =>
    obtain ⟨link, rfl, rfl⟩ := h
    exact ne_nil_of_link link
  | expression =>
    obtain ⟨c, rfl, rfl⟩ := h
    exact ⟨c.text_ne_nil, c.prune.encode_ne_nil⟩
  | chainedStep =>
    obtain ⟨link, rfl, rfl⟩ := h
    exact ⟨List.cons_ne_nil _ _, (ne_nil_of_link link).2⟩

end RuleName

namespace Reading

/-- A reading that a session comes to. It starts before an open buffer, which may hold any words
that it has room for. -/
inductive Reached (t : Task) : Reading → Prop where
  /-- The start of the text. -/
  | start {buffer : Buffer} (hopen : buffer.frozen = false)
    (hfits : buffer.size ≤ buffer.capacity) : Reached t (.start t.expression buffer)
  /-- What a rule leaves, whether it has matched, failed or stopped. -/
  | call {s : Reading} (h : Reached t s) (name : RuleName) : Reached t (name.rule t s).2

/-- A reading that stands in its text. -/
structure Within (t : Task) (s : Reading) : Prop where
  /-- The buffer is open, and its words fit. -/
  opened : s.Open
  /-- What was read and what is still to be read make up the text. -/
  length : s.position + s.rest.length = t.expression.length
  /-- The text from the place on is still to be read. -/
  rest : s.rest = t.expression.toList.drop s.position
  /-- The farthest place lies in the text. -/
  farthest : s.farthest ≤ t.expression.length

variable {t : Task} {s s' : Reading} {text : List Char} {words : List Int}

/-- A session starts in its text. -/
theorem within_start {buffer : Buffer} (hopen : buffer.frozen = false)
    (hfits : buffer.size ≤ buffer.capacity) : Within t (.start t.expression buffer) where
  opened := ⟨hopen, hfits⟩
  length := by rw [← String.length_toList]; exact Nat.zero_add _
  rest := rfl
  farthest := Nat.zero_le _

/-- Reading on stays in the text. -/
theorem Within.of_reads (h : s.Within t) (hreads : s.Reads text words s') : s'.Within t := by
  have hlength : s.rest.length = text.length + s'.rest.length := by
    rw [hreads.rest, List.length_append]
  have htotal : s'.position + s'.rest.length = t.expression.length := by
    rw [hreads.position, ← h.length]
    omega
  refine ⟨h.opened.of_reads hreads, htotal, ?_, ?_⟩
  · rw [hreads.position, ← List.drop_drop, ← h.rest, hreads.rest, List.drop_left]
  · rw [← htotal]
    exact hreads.farthest_within (by rw [h.length]; exact h.farthest)

/-- A call of a rule reads a text and adds words, none of both unless it matches. -/
theorem exists_call (name : RuleName) (hopen : s.Open) : ∃ outcome text words s',
    name.rule t s = (outcome, s') ∧ s.Reads text words s' ∧
      (outcome = .matched → text ≠ [] ∧ words ≠ []) ∧
      (outcome ≠ .matched → text = [] ∧ words = []) := by
  obtain ⟨outcome, text, words, ⟨s', hcall, hreads⟩, htells, hnothing⟩ :=
    name.neat (t := t) (k := 0) hopen
  refine ⟨outcome, text, words, s', hcall, hreads, ?_, hnothing⟩
  rintro rfl
  exact RuleName.ne_nil_of_phrase htells

/-- Every reading of a session stands in the text. -/
theorem Reached.within (h : s.Reached t) : s.Within t := by
  induction h with
  | start hopen hfits => exact within_start hopen hfits
  | call _ name ih =>
    obtain ⟨outcome, text, words, s', hcall, hreads, -⟩ := exists_call (t := t) name ih.opened
    rw [hcall]
    exact ih.of_reads hreads

/-- Every call of a session is a transaction. Where it fails or stops, the place, the words and the
number of open overlays are those before it. Where it matches, the place has moved on and words were
added behind the earlier ones. The place, the farthest place and the words keep to the text and the
capacity. -/
theorem transactional_of_reached (h : s.Reached t) (name : RuleName) : ∃ outcome s',
    name.rule t s = (outcome, s') ∧
      (outcome ≠ .matched → s'.position = s.position ∧ s'.rest = s.rest ∧
        s'.buffer.words = s.buffer.words) ∧
      (outcome = .matched → s.position < s'.position ∧
        ∃ added ≠ [], s'.buffer.words.toList = s.buffer.words.toList ++ added) ∧
      s'.depth = s.depth ∧
      s'.position ≤ t.expression.length ∧ s'.rest = t.expression.toList.drop s'.position ∧
      s.farthest ≤ s'.farthest ∧ s'.farthest ≤ t.expression.length ∧
      s'.buffer.capacity = s.buffer.capacity ∧ s'.buffer.size ≤ s'.buffer.capacity := by
  obtain ⟨outcome, text, words, s', hcall, hreads, hsome, hnone⟩ :=
    exists_call (t := t) name h.within.opened
  have hwithin := h.within.of_reads hreads
  have hposition : s'.position ≤ t.expression.length := by
    rw [← hwithin.length]
    omega
  refine ⟨outcome, s', hcall, fun hne => ?_, fun hmatched => ?_, hreads.depth, hposition,
    hwithin.rest, hreads.farthest, hwithin.farthest, hreads.capacity, hwithin.opened.fits⟩
  · obtain ⟨rfl, rfl⟩ := hnone hne
    refine ⟨hreads.position, hreads.rest.symm, ?_⟩
    rw [← Array.toList_inj, hreads.words, List.append_nil]
  · obtain ⟨htext, hwords⟩ := hsome hmatched
    refine ⟨?_, words, hwords, hreads.words⟩
    have hlength : 0 < text.length := List.length_pos_iff.2 htext
    rw [hreads.position]
    omega

/-- After an image reference, a step that stops inside the brackets of an overlay, when two words of
the argument were written. -/
theorem transactional_of_reached_overlay :
    let t : Task := ⟨"0.pi(1.2)", ⟨some 2, 64, 2147483647⟩⟩
    let s := (RuleName.imageRef.rule t (.start "0.pi(1.2)" ⟨8, #[4], false, #[]⟩)).2
    s.Reached t ∧ s.position = 1 ∧ s.buffer.words = #[4, 0, 4] ∧ ∃ s',
      RuleName.chainedStep.rule t s =
        (.stopped (.rejected (.indexOutOfRange "0.pi(1.2)" 7 2 2)), s') ∧
      s'.position = 1 ∧ s'.buffer.words = #[4, 0, 4] := by
  intro t s
  have hreached : s.Reached t := .call (.start rfl (by decide)) .imageRef
  have hplace : s.position = 1 := by decide +kernel
  have hwords : s.buffer.words = #[4, 0, 4] := by decide +kernel
  have hstopped : (RuleName.chainedStep.rule t s).1 =
      .stopped (.rejected (.indexOutOfRange "0.pi(1.2)" 7 2 2)) := by decide +kernel
  obtain ⟨outcome, s', hcall, hnot, -⟩ := transactional_of_reached hreached .chainedStep
  rw [hcall] at hstopped
  obtain rfl : outcome = _ := hstopped
  obtain ⟨hposition, -, hback⟩ := hnot (by simp)
  exact ⟨hreached, hplace, hwords, s', hcall, hposition.trans hplace, hback.trans hwords⟩

end Reading

end Montage
