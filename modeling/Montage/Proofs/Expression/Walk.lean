import Montage.Proofs.Expression.Link

/-!
# Reading the text of a syntax tree

The grammar reads the text of every syntax tree, up to a text that cannot go on with it, exactly as
`Chain.check` says: where all checks pass it matches and writes the words of the pruned tree, and
otherwise it stops with the fault of the first check that does not pass (`settles_expression`). The
loop over the steps of a chain follows the tree from its root, link by link; `Passes` is what holds
of it after each of them.
-/

namespace Montage

namespace Grammar

open Rule

variable {t : Task} {s : Reading} {capacity depth position live : Nat} {rest : List Char}
  {words : List Int} {argument : Rule}

/-! ## Steps with brackets -/

/-- A tag is named by two letters. -/
theorem length_mnemonic (tag : Tag) : tag.mnemonic.toList.length = 2 := by
  cases tag <;> rfl

/-- The name of a step with its bracket. -/
theorem toList_opening (tag : Tag) :
    (tag.mnemonic ++ "(").toList = tag.mnemonic.toList ++ ['('] := by
  rw [String.toList_append]
  rfl

/-- The closing bracket and the tag of a step. -/
theorem accepts_close (tag : Tag) (h : s.At capacity depth position live (')' :: rest)) :
    (andThen (literal ")") (emit t.expression (.tag tag))).Accepts s [')'] [tag.word]
      (t.room capacity (position + 1) live) := by
  have hs : s.rest = ")".toList ++ rest := h.rest
  have h' : s.At capacity depth position live (")".toList ++ rest) := h
  exact (accepts_literal hs).andThen fun _ hreads => accepts_emit t (.tag tag) (h'.of_reads hreads)

/-- A step with brackets is settled where its argument is accepted. -/
theorem settles_call {tag : Tag} {text : List Char} {check : Except Fault Unit}
    (h : s.At capacity depth position live (Chain.callText tag text ++ rest))
    (hargument : ∀ s', s'.At capacity depth (position + 3) live (text ++ ')' :: rest) →
      argument.Accepts s' text words check) :
    (transact (call t tag argument)).Settles s (Chain.callText tag text) (words ++ [tag.word]) (do
      check
      t.room capacity (position + 3 + text.length + 1) (live + words.length)) := by
  have hat : s.At capacity depth position live
      ((tag.mnemonic ++ "(").toList ++ (text ++ ([')'] ++ rest))) := by
    simpa [Chain.callText, toList_opening] using h
  -- Two letters and a bracket, the argument, and the bracket that closes the step.
  have hopening := accepts_literal hat.rest
  have hcall := hopening.andThen fun s₁ hreads₁ => by
    have hat₁ := hat.of_reads hreads₁
    rw [toList_opening, List.length_append, length_mnemonic] at hat₁
    exact (hargument s₁ hat₁).andThen fun s₂ hreads₂ =>
      accepts_close (t := t) tag (hat₁.of_reads hreads₂)
  simp only [toList_opening, List.append_assoc, List.cons_append, List.nil_append] at hcall
  exact Accepts.transact h.frozen hcall

/-- A step with brackets fails where its name does not stand. -/
theorem yields_call_failed {tag : Tag} (hopen : s.buffer.frozen = false)
    (h : ¬ (tag.mnemonic ++ "(").toList <+: s.rest) :
    (transact (call t tag argument)).Yields s .failed [] [] :=
  (Yields.andThen_failed (yields_literal h)).transact hopen (by simp)

/-- The characters of a step do not start with the name of another step. -/
theorem not_prefix_callText {tag tag' : Tag} (text : List Char) (hne : tag ≠ tag') :
    ¬ (tag.mnemonic ++ "(").toList <+: Chain.callText tag' text ++ rest := by
  cases tag <;> cases tag' <;>
    first
    | exact absurd rfl hne
    | simp [Chain.callText, Tag.mnemonic]

/-- A digit does not start with the name of a step. -/
theorem not_prefix_indexText (tag : Tag) (index : Fin 10) :
    ¬ (tag.mnemonic ++ "(").toList <+: Chain.indexText index ++ rest := by
  have hlt := index.isLt
  intro hprefix
  cases tag <;> simp [Tag.mnemonic, Chain.indexText] at hprefix <;> omega

/-- A width and a height are settled within the maximum. -/
theorem settles_size (width height : Digits)
    (h : s.At capacity depth position live (width.run ++ 'x' :: height.run ++ rest))
    (hrest : ∀ c ∈ rest.head?, c.isDigit = false) :
    (size t).Settles s (width.run ++ 'x' :: height.run)
      [(width.value : Int), (height.value : Int)] (do
      t.checkNumber capacity width position live
      t.checkNumber capacity height (position + width.run.length + 1) (live + 1)) := by
  have hat : s.At capacity depth position live
      (width.run ++ ("x".toList ++ (height.run ++ rest))) := by
    simpa using h
  -- Neither number can go on into the character after it.
  have hx : ∀ c ∈ ("x".toList ++ (height.run ++ rest)).head?, c.isDigit = false := by
    simp
  have hsize := (settles_number (t := t) width hat hx).accepts.andThen fun s₁ hreads₁ => by
    have hat₁ := hat.of_reads hreads₁
    exact (accepts_literal hat₁.rest).andThen fun s₂ hreads₂ =>
      (settles_number (t := t) height (hat₁.of_reads hreads₂) hrest).accepts
  exact Accepts.transact h.frozen hsize

/-! ## Steps -/

/-- What the rule `inner` has to do for the argument of an overlay. -/
def AcceptsArgument (t : Task) (capacity depth : Nat) (inner : Rule) (c : Chain) : Prop :=
  ∀ s position live rest, s.At capacity depth position live (c.text ++ ')' :: rest) →
    inner.Accepts s c.text c.prune.encode (do
      t.checkDepth depth position
      c.check t capacity (depth + 1) position live)

/-- A framing is settled within the limits. -/
theorem settles_frame (how : Framing) (width height : Digits)
    (h : s.At capacity depth position live ((Link.frame how width height).text ++ rest)) :
    (transact (call t how.tag (size t))).Settles s (Link.frame how width height).text
      (Link.frame how width height).words
      ((Link.frame how width height).check t capacity depth position live) := by
  have haccepts := settles_call (t := t) h fun _ hat =>
    (settles_size (t := t) width height hat (by simp)).accepts
  -- The place of the closing bracket, counted over both numbers.
  have hposition : position + 3 + (width.run ++ 'x' :: height.run).length + 1 =
      position + 3 + width.run.length + 1 + height.run.length + 1 := by
    simp
    omega
  rw [hposition, bind_assoc] at haccepts
  exact haccepts

/-- A blur is settled within the limits. -/
theorem settles_blur (strength : Digits)
    (h : s.At capacity depth position live ((Link.blur strength).text ++ rest)) :
    (Grammar.blur t).Settles s (Link.blur strength).text (Link.blur strength).words
      ((Link.blur strength).check t capacity depth position live) :=
  settles_call h fun _ hat => (settles_number strength hat (by simp)).accepts

/-- An overlay is settled within the limits, where its argument is accepted. -/
theorem settles_overlayOf {inner : Rule} {c : Chain}
    (hinner : AcceptsArgument t capacity depth inner c)
    (h : s.At capacity depth position live ((Link.overlay c).text ++ rest)) :
    (overlayOf t inner).Settles s (Link.overlay c).text (Link.overlay c).words
      ((Link.overlay c).check t capacity depth position live) := by
  have haccepts := settles_call (t := t) h fun s' hat => hinner s' _ _ _ hat
  rw [bind_assoc] at haccepts
  exact haccepts

/-- Where the name of a step does not stand, the alternatives after it decide. -/
theorem accepts_orElse_call {tag : Tag} {q : Rule} {text : List Char} {check : Except Fault Unit}
    (h : s.At capacity depth position live rest)
    (hname : ¬ (tag.mnemonic ++ "(").toList <+: rest)
    (hq : ∀ s', s'.At capacity depth position live rest → q.Accepts s' text words check) :
    (orElse (transact (call t tag argument)) q).Accepts s text words check := by
  have hfailed : (transact (call t tag argument)).Yields s .failed [] [] :=
    yields_call_failed h.frozen (h.rest ▸ hname)
  exact Accepts.orElse_right hfailed fun s' hreads => hq s' (h.of_nil hreads)

/-- A step is settled within the limits. -/
theorem settles_stepOf {inner : Rule} (link : Link)
    (hinner : ∀ c, link = .overlay c → AcceptsArgument t capacity depth inner c)
    (h : s.At capacity depth position live (link.text ++ rest)) :
    (stepOf t inner).Settles s link.text link.words
      (link.check t capacity depth position live) := by
  refine Accepts.transact h.frozen ?_
  -- The alternatives before the one that the step is fail at its first two letters.
  cases link with
  | frame how width height =>
    cases how with
    | fit => exact Accepts.orElse_left (settles_frame .fit width height h).accepts
    | fill =>
      refine accepts_orElse_call h (not_prefix_callText _ (by decide)) fun s₁ h₁ => ?_
      exact Accepts.orElse_left (settles_frame .fill width height h₁).accepts
  | overlay argument =>
    refine accepts_orElse_call h (not_prefix_callText _ (by decide)) fun s₁ h₁ => ?_
    refine accepts_orElse_call h₁ (not_prefix_callText _ (by decide)) fun s₂ h₂ => ?_
    exact Accepts.orElse_left (settles_overlayOf (hinner argument rfl) h₂).accepts
  | blur strength =>
    refine accepts_orElse_call h (not_prefix_callText _ (by decide)) fun s₁ h₁ => ?_
    refine accepts_orElse_call h₁ (not_prefix_callText _ (by decide)) fun s₂ h₂ => ?_
    refine accepts_orElse_call h₂ (not_prefix_callText _ (by decide)) fun s₃ h₃ => ?_
    exact Accepts.orElse_left (settles_blur strength h₃).accepts
  | image index =>
    refine accepts_orElse_call h (not_prefix_indexText _ index) fun s₁ h₁ => ?_
    refine accepts_orElse_call h₁ (not_prefix_indexText _ index) fun s₂ h₂ => ?_
    refine accepts_orElse_call h₂ (not_prefix_indexText _ index) fun s₃ h₃ => ?_
    refine accepts_orElse_call h₃ (not_prefix_indexText _ index) fun s₄ h₄ => ?_
    exact (settles_imageRef index h₄).accepts

/-- A dot and a step are settled within the limits. -/
theorem settles_chainedStepOf {inner : Rule} (link : Link)
    (hinner : ∀ c, link = .overlay c → AcceptsArgument t capacity depth inner c)
    (h : s.At capacity depth position live ('.' :: link.text ++ rest)) :
    (chainedStepOf t inner).Settles s ('.' :: link.text) link.words
      (link.check t capacity depth (position + 1) live) := by
  have hat : s.At capacity depth position live (".".toList ++ (link.text ++ rest)) := h
  have haccepts := (accepts_literal hat.rest).andThen fun s₁ hreads₁ =>
    (settles_stepOf (t := t) link hinner (hat.of_reads hreads₁)).accepts
  exact Accepts.transact h.frozen haccepts

/-! ## Chains -/

/-- Where the last word is the image tag, the words since the mark give way to the reference. -/
theorem dropDeadChain_of_image {mark : Nat} {index : Int} {b : Buffer}
    (hlast : s.buffer.get (-1) = .ok Tag.image.word) (hindex : s.buffer.get (-2) = .ok index)
    (hroll : s.buffer.rollback mark = .ok b) :
    dropDeadChain t mark s = writeImage t index { s with buffer := b } :=
  calc dropDeadChain t mark s
    _ = get (-2) (fun index => andThen (rollback mark) (writeImage t index)) s :=
      (get_of_ok hlast).trans (congrFun (if_pos rfl) s)
    _ = andThen (rollback mark) (writeImage t index) s := get_of_ok hindex
    _ = writeImage t index { s with buffer := b } := andThen_of_matched (rollback_of_ok hroll)

/-- Where the last word is any other one, nothing is dropped. -/
theorem dropDeadChain_of_other {mark : Nat} {last : Int} (hlast : s.buffer.get (-1) = .ok last)
    (hother : last ≠ Tag.image.word) : dropDeadChain t mark s = (.matched, s) :=
  (get_of_ok hlast).trans (congrFun (if_neg hother) s)

/-- Where no word is missing, those since the mark were kept or gave way to an image reference. -/
theorem dropDeadChain_cases {mark : Nat} {s' : Reading}
    (h : dropDeadChain t mark s = (.matched, s')) :
    (∃ last, s.buffer.get (-1) = .ok last ∧ last ≠ Tag.image.word ∧ s = s') ∨
      ∃ index b, s.buffer.get (-1) = .ok Tag.image.word ∧ s.buffer.get (-2) = .ok index ∧
        s.buffer.rollback mark = .ok b ∧
        writeImage t index { s with buffer := b } = (.matched, s') := by
  cases hlast : s.buffer.get (-1) with
  | error fault => cases (get_of_error hlast).symm.trans h
  | ok last =>
    by_cases himage : last = Tag.image.word
    · subst himage
      have hdrop := (congrFun (if_pos rfl) s).symm.trans ((get_of_ok hlast).symm.trans h)
      cases hindex : s.buffer.get (-2) with
      | error fault => cases (get_of_error hindex).symm.trans hdrop
      | ok index =>
        have hindrop := (get_of_ok hindex).symm.trans hdrop
        cases hroll : s.buffer.rollback mark with
        | error fault => cases (andThen_of_stopped (rollback_of_error hroll)).symm.trans hindrop
        | ok b =>
          have hwrite := (dropDeadChain_of_image hlast hindex hroll).symm.trans h
          exact .inr ⟨index, b, rfl, rfl, rfl, hwrite⟩
    · have hsame := (dropDeadChain_of_other hlast himage).symm.trans h
      exact .inl ⟨last, rfl, himage, (Prod.mk.inj hsame).2⟩

/-- After an image reference, the words of the chain before it give way to the reference. -/
theorem dropDeadChain_image {s' : Reading} {text : List Char} (index : Fin 10)
    (hopen : s.buffer.frozen = false) (hfits : s.buffer.size ≤ s.buffer.capacity)
    (hreads : s.Reads text (words ++ [(index.val : Int), Tag.image.word]) s') :
    ∃ s'', dropDeadChain t s.buffer.mark s' = (.matched, s'') ∧
      s.Reads text [(index.val : Int), Tag.image.word] s'' := by
  have hlast : s'.buffer.get (-1) = .ok Tag.image.word := by
    have hwords : s'.buffer.words.toList =
        (s.buffer.words.toList ++ words ++ [(index.val : Int)]) ++ Tag.image.word :: [] := by
      rw [hreads.words]
      simp
    exact Buffer.get_of_append hwords (by simp) (by decide)
  have hindex : s'.buffer.get (-2) = .ok (index.val : Int) := by
    have hwords : s'.buffer.words.toList =
        (s.buffer.words.toList ++ words) ++ (index.val : Int) :: [Tag.image.word] := by
      rw [hreads.words, List.append_assoc]
    exact Buffer.get_of_append hwords (by simp) (by decide)
  obtain ⟨b, hroll, hback⟩ := exists_rollback hopen hreads
  -- The two words fitted behind the words of the chain, so they fit in their place.
  have hroom : s.buffer.size + 2 ≤ s.buffer.capacity := by
    have hsize := hreads.size_within hfits
    rw [hreads.size, hreads.capacity, List.length_append] at hsize
    simp only [List.length_cons, List.length_nil] at hsize
    omega
  have hat : Reading.At { s' with buffer := b } s.buffer.capacity s.depth (s.position + text.length)
      s.buffer.size s'.rest :=
    ⟨hback.frozen.trans hopen, hback.capacity, hback.depth, hback.position, hback.size,
      hback.size_within hfits, rfl⟩
  have hwrite := accepts_writeImage (t := t) index.val hat
  simp only [Task.room, if_neg (show ¬ s.buffer.capacity ≤ s.buffer.size by omega),
    if_neg (show ¬ s.buffer.capacity ≤ s.buffer.size + 1 by omega)] at hwrite
  obtain ⟨s'', hs'', hreads''⟩ := hwrite
  have hboth := hback.trans hreads''
  rw [List.append_nil] at hboth
  exact ⟨s'', (dropDeadChain_of_image hlast hindex hroll).trans hs'', hboth⟩

/-- After any other word nothing is dropped. -/
theorem dropDeadChain_eq_self {s' : Reading} {front : List Int} {tag : Tag} (mark : Nat)
    (hwords : s'.buffer.words.toList = front ++ [tag.word]) (hne : tag ≠ .image) :
    dropDeadChain t mark s' = (.matched, s') := by
  have hlast : s'.buffer.get (-1) = .ok tag.word :=
    Buffer.get_of_append hwords (by simp) (by decide)
  have hword : tag.word ≠ Tag.image.word := by
    rw [ne_eq, Tag.word_inj]
    exact hne
  exact dropDeadChain_of_other hlast hword

/-- After a step, the words of the chain before it are dropped where it is an image reference. -/
theorem dropDeadChain_eq {s' : Reading} {text : List Char} (link : Link)
    (hopen : s.buffer.frozen = false) (hfits : s.buffer.size ≤ s.buffer.capacity)
    (hreads : s.Reads text (words ++ link.words) s') :
    ∃ s'', dropDeadChain t s.buffer.mark s' = (.matched, s'') ∧
      s.Reads text (if link.isImage then link.words else words ++ link.words) s'' := by
  -- The last word of any other step is the tag of that step.
  have hother (front : List Int) {tag : Tag} (hlink : link.words = front ++ [tag.word])
      (hne : tag ≠ .image) : dropDeadChain t s.buffer.mark s' = (.matched, s') := by
    have hwords : s'.buffer.words.toList =
        (s.buffer.words.toList ++ words ++ front) ++ [tag.word] := by
      rw [hreads.words, hlink]
      simp only [List.append_assoc]
    exact dropDeadChain_eq_self _ hwords hne
  cases link with
  | image index => exact dropDeadChain_image index hopen hfits hreads
  | frame how width height =>
    have hne : how.tag ≠ .image := by
      cases how <;> decide
    exact ⟨s', hother [(width.value : Int), (height.value : Int)] rfl hne, hreads⟩
  | blur strength => exact ⟨s', hother [(strength.value : Int)] rfl (by decide), hreads⟩
  | overlay c => exact ⟨s', hother c.prune.encode rfl (by decide), hreads⟩

/-- Where the rule `inner` reads the arguments of overlays, the loop over the steps of a chain that
starts at `s` comes to the end of the chain, or stops with the fault of a check. -/
def Passes (t : Task) (inner : Rule) (s : Reading) (c : Chain) : Except Fault Unit → Prop
  | .ok () => ∃ s', s.Reads c.text c.prune.encode s' ∧ ∀ n,
      andThen (imageRef t) (upTo (andThen (chainedStepOf t inner) (dropDeadChain t s.buffer.mark))
        (n + c.steps)) s =
      upTo (andThen (chainedStepOf t inner) (dropDeadChain t s.buffer.mark)) n s'
  | .error fault => ∃ s' text words, s.Reads text words s' ∧ ∀ n,
      andThen (imageRef t) (upTo (andThen (chainedStepOf t inner) (dropDeadChain t s.buffer.mark))
        (n + c.steps)) s = (.stopped fault, s')

/-- The loop starts with the root of a chain. -/
theorem passes_root {inner : Rule} (index : Fin 10)
    (h : s.At capacity depth position live (Chain.indexText index ++ rest)) :
    Passes t inner s (.root index) (t.checkImage capacity index position live) := by
  have hsettles := settles_imageRef (t := t) index h
  cases hcheck : t.checkImage capacity index position live with
  | ok _ =>
    rw [hcheck] at hsettles
    obtain ⟨s', hroot, hreads⟩ := hsettles
    exact ⟨s', hreads, fun n => andThen_of_matched hroot⟩
  | error fault =>
    rw [hcheck] at hsettles
    obtain ⟨s', hroot, hreads⟩ := hsettles
    exact ⟨s', [], [], hreads, fun n => andThen_of_stopped hroot⟩

/-- The loop goes on with the next step of a chain. -/
theorem passes_extend {inner : Rule} {before : Chain} {link : Link} {check : Except Fault Unit}
    (h : s.At capacity depth position live ((before.extend link).text ++ rest))
    (hbefore : Passes t inner s before check)
    (hstep : ∀ s', s'.At capacity depth (position + before.text.length)
      (live + before.prune.encode.length) ('.' :: link.text ++ rest) →
      (chainedStepOf t inner).Settles s' ('.' :: link.text) link.words
        (link.check t capacity depth (position + before.text.length + 1)
          (live + before.prune.encode.length))) :
    Passes t inner s (before.extend link) (do
      check
      link.check t capacity depth (position + before.text.length + 1)
        (live + before.prune.encode.length)) := by
  -- One turn of the loop goes to the new link and all others to the chain before it.
  have hfuel (n : Nat) : n + (before.extend link).steps = n + 1 + before.steps := by
    rw [Chain.steps_extend]
    omega
  cases check with
  | error fault =>
    obtain ⟨s', text, words, hreads, hloop⟩ := hbefore
    exact ⟨s', text, words, hreads, fun n => by rw [hfuel, hloop]⟩
  | ok _ =>
    obtain ⟨s₁, hreads₁, hloop⟩ := hbefore
    have hat : s.At capacity depth position live (before.text ++ ('.' :: link.text ++ rest)) := by
      simpa [Chain.text_extend] using h
    have hsettles := hstep s₁ (hat.of_reads hreads₁)
    show Passes t inner s (before.extend link) (link.check t capacity depth _ _)
    cases hcheck : link.check t capacity depth (position + before.text.length + 1)
        (live + before.prune.encode.length) with
    | error fault =>
      rw [hcheck] at hsettles
      obtain ⟨s₂, hs₂, hreads₂⟩ := hsettles
      refine ⟨s₂, _, _, hreads₁.trans hreads₂, fun n => ?_⟩
      rw [hfuel, hloop]
      exact upTo_of_stopped (andThen_of_stopped hs₂)
    | ok _ =>
      rw [hcheck] at hsettles
      obtain ⟨s₂, hs₂, hreads₂⟩ := hsettles
      obtain ⟨s₃, hs₃, hreads₃⟩ := dropDeadChain_eq (t := t) link h.frozen h.fits
        (hreads₁.trans hreads₂)
      refine ⟨s₃, ?_, fun n => ?_⟩
      · rw [Chain.text_extend, Chain.encode_prune_extend]
        exact hreads₃
      · have hturn := (andThen_of_matched hs₂).trans hs₃
        rw [hfuel, hloop]
        exact upTo_of_matched hturn

/-- The loop ends where no dot stands. -/
theorem upTo_link_eq (t : Task) (inner : Rule) (mark n : Nat) (hopen : s.buffer.frozen = false)
    (hrest : s.rest.head? ≠ some '.') :
    ∃ s', upTo (andThen (chainedStepOf t inner) (dropDeadChain t mark)) n s = (.matched, s') ∧
      s.Reads [] [] s' := by
  cases n with
  | zero => exact ⟨s, rfl, .refl s⟩
  | succ n =>
    have hdot : ¬ ".".toList <+: s.rest := by
      rintro ⟨rest, hs⟩
      exact hrest (by rw [← hs]; rfl)
    have hfailed : (chainedStepOf t inner).Yields s .failed [] [] :=
      (Yields.andThen_failed (yields_literal hdot)).transact hopen (by simp)
    obtain ⟨s', hs', hreads⟩ := hfailed
    exact ⟨s', upTo_of_failed (andThen_of_failed hs'), hreads⟩

/-- What a rule accepts with one more overlay open. -/
theorem accepts_nested {r : Rule} {text : List Char} {check : Except Fault Unit}
    (h : r.Accepts { s with depth := s.depth + 1 } text words check) :
    (nested r).Accepts s text words check := by
  cases check with
  | ok _ =>
    obtain ⟨s', hr, hreads⟩ := h
    exact ⟨_, nested_of_eq hr, hreads.nested⟩
  | error fault =>
    obtain ⟨text', words', s', hr, hreads⟩ := h
    exact .of_stopped _ (nested_of_eq hr) hreads.nested

/-- The loop over the steps of a chain may go on once for each character after the root. -/
theorem andThen_many_eq {body : Rule} (index : Fin 10)
    (h : s.At capacity depth position live (Chain.indexText index ++ rest)) :
    andThen (imageRef t) (many body) s = andThen (imageRef t) (upTo body s.rest.length) s := by
  have hsettles := settles_imageRef (t := t) index h
  cases hcheck : t.checkImage capacity index position live with
  | error fault =>
    rw [hcheck] at hsettles
    obtain ⟨s', hroot, -⟩ := hsettles
    rw [andThen_of_stopped hroot, andThen_of_stopped hroot]
  | ok _ =>
    rw [hcheck] at hsettles
    obtain ⟨s', hroot, hreads⟩ := hsettles
    have hlength : s.rest.length = s'.rest.length + 1 := by
      rw [hreads.rest]
      simp [Chain.indexText]
    rw [andThen_of_matched hroot, andThen_of_matched hroot, many, hlength]

/-- Each step has a character of its own, so there are turns enough for all steps of a chain. -/
theorem exists_many_eq {body : Rule} (c : Chain)
    (h : s.At capacity depth position live (c.text ++ rest)) :
    ∃ n, andThen (imageRef t) (many body) s = andThen (imageRef t) (upTo body (n + c.steps)) s := by
  obtain ⟨index, tail, hroot⟩ := c.exists_text_eq
  have hat : s.At capacity depth position live (Chain.indexText index ++ (tail ++ rest)) := by
    rw [← List.append_assoc, ← hroot]
    exact h
  have hsteps := c.steps_lt_length_text
  have hlength : s.rest.length = c.text.length + rest.length := by
    rw [h.rest, List.length_append]
  refine ⟨s.rest.length - c.steps, ?_⟩
  rw [andThen_many_eq index hat, Nat.sub_add_cancel (by omega)]

/-- An expression is settled whose chain the loop comes through, up to a text that does not go on
with a dot. -/
theorem settles_of_passes {inner : Rule} {c : Chain} {check : Except Fault Unit}
    (h : s.At capacity depth position live (c.text ++ rest)) (hrest : rest.head? ≠ some '.')
    (hpasses : Passes t inner s c check) :
    (expressionOf t inner).Settles s c.text c.prune.encode check := by
  obtain ⟨n, hmany⟩ := exists_many_eq (t := t) c h
  refine Accepts.transact h.frozen ?_
  cases check with
  | error fault =>
    obtain ⟨s', text, words, hreads, hloop⟩ := hpasses
    exact .of_stopped s' (hmany.trans (hloop n)) hreads
  | ok _ =>
    obtain ⟨s₁, hreads₁, hloop⟩ := hpasses
    have hat₁ := h.of_reads hreads₁
    obtain ⟨s₂, hs₂, hreads₂⟩ :=
      upTo_link_eq t inner s.buffer.mark n hat₁.frozen (hat₁.rest ▸ hrest)
    have hreads := hreads₁.trans hreads₂
    rw [List.append_nil, List.append_nil] at hreads
    exact ⟨s₂, (hmany.trans (hloop n)).trans hs₂, hreads⟩

/-- The loop over the steps of a chain comes through every chain within the limits, where the
arguments of overlays are accepted. -/
theorem passes_chain {inner : Rule} (hinner : ∀ c, AcceptsArgument t capacity depth inner c)
    (c : Chain) {rest : List Char} (h : s.At capacity depth position live (c.text ++ rest)) :
    Passes t inner s c (c.check t capacity depth position live) := by
  -- Along the chain; the text after a link starts with the dot of the next one.
  induction c using Chain.extend_induction generalizing rest with
  | root index => exact passes_root index h
  | extend before link ih =>
    have hat : s.At capacity depth position live (before.text ++ ('.' :: link.text ++ rest)) := by
      simpa [Chain.text_extend] using h
    rw [Chain.check_extend]
    exact passes_extend h (ih hat) fun s' hat' =>
      settles_chainedStepOf link (fun c _ => hinner c) hat'

/-- The arguments of overlays are accepted within the limits, as long as overlays may be opened. -/
theorem acceptsArgument_nestedExpression {levels : Nat}
    (hlevels : levels = (t.limits.maxDepth - depth).toNat) (c : Chain) :
    AcceptsArgument t capacity depth (nestedExpression t levels) c := by
  -- On the levels that are left; each open overlay has taken one of them.
  induction levels generalizing depth c with
  | zero =>
    intro s position live rest h
    have hdeep : t.limits.maxDepth ≤ depth := by omega
    rw [Task.checkDepth, if_pos hdeep]
    rw [← h.position]
    exact .of_stopped s rfl (.refl s)
  | succ levels ih =>
    intro s position live rest h
    have hroom : ¬ t.limits.maxDepth ≤ depth := by omega
    have hat : Reading.At { s with depth := s.depth + 1 } capacity (depth + 1) position live
        (c.text ++ ')' :: rest) :=
      ⟨h.frozen, h.capacity, by rw [h.depth], h.position, h.live, h.fits, h.rest⟩
    rw [Task.checkDepth, if_neg hroom]
    exact accepts_nested (settles_of_passes hat (by simp)
      (passes_chain (fun c => ih (by omega) c) c hat)).accepts

/-- The arguments of overlays are accepted within the limits, wherever the overlays stand. -/
theorem acceptsArgument_argument (c : Chain) :
    AcceptsArgument t capacity depth (Grammar.argument t) c := by
  intro s position live rest h
  -- The argument of an overlay may open as many more overlays as the depth leaves.
  have heq : Grammar.argument t s =
      nestedExpression t (t.limits.maxDepth - depth).toNat s := by
    rw [← h.depth]
    rfl
  exact (acceptsArgument_nestedExpression rfl c s position live rest h).congr heq

/-- The grammar reads the text of every syntax tree within the limits and writes the words of the
pruned tree. Otherwise it stops with the fault of the first check that does not pass. -/
theorem settles_expression (c : Chain) (h : s.At capacity depth position live (c.text ++ rest))
    (hrest : rest.head? ≠ some '.') :
    (expression t).Settles s c.text c.prune.encode (c.check t capacity depth position live) :=
  settles_of_passes h hrest (passes_chain acceptsArgument_argument c h)

end Grammar

end Montage
