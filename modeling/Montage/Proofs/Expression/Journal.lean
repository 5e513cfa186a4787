import Montage.Expression.Requests
import Montage.Proofs.Buffer.Replay
import Montage.Proofs.Expression.Blocks
import Montage.Proofs.Expression.Exploring
import Montage.Proofs.Expression.Soundness

/-!
# The journal of a compilation

A rule touches the buffer through the requests that its client lists, and through nothing else: the
buffer that it leaves is the one that these requests lead to (`Client.Honest`). Each combinator
keeps that, so it holds of the grammar, by induction on the overlays that may still be opened. No
request writes a number without numeral; for the index that is written again behind a dropped chain,
this is known from what the chained step has read.

`append_journaled` says what this makes of the journal, whether the text is compiled or refused:
each request that changes the words has its entry and no other request has one, and the entries,
redone in their order on the words that the buffer had, bring those that it has at the end.
-/

namespace Montage

namespace Buffer

variable {b b' b'' : Buffer} {front later : List Request}

/-- Requests, none of which pushes a number without numeral, lead from one buffer to another. -/
structure Leads (b : Buffer) (requests : List Request) (b' : Buffer) : Prop where
  /-- What the requests leave. -/
  after : b.after requests = b'
  /-- What is pushed can be shown. -/
  shown : ∀ w, .push w ∈ requests → ¬ w.IsLong

/-- No request leads nowhere else. -/
theorem Leads.refl (b : Buffer) : b.Leads [] b :=
  ⟨rfl, fun _ hw => absurd hw List.not_mem_nil⟩

/-- Some requests, then others. -/
theorem Leads.trans (h : b.Leads front b') (h' : b'.Leads later b'') :
    b.Leads (front ++ later) b'' where
  after := by
    rw [Buffer.after, List.foldl_append]
    exact (congrArg (Buffer.after · later) h.after).trans h'.after
  shown w hw := (List.mem_append.1 hw).elim (h.shown w) (h'.shown w)

/-- One request leads to what it leaves, unless it pushes a number without numeral. -/
theorem leads_serve {r : Request} (hr : ∀ w, r = .push w → ¬ w.IsLong) :
    b.Leads [r] (b.serve r).2 :=
  ⟨rfl, fun w hw => hr w (List.mem_singleton.1 hw).symm⟩

/-- A first request that only asks leads nowhere else. -/
theorem Leads.cons {r : Request} (hr : r.IsQuestion) (h : b.Leads later b') :
    b.Leads (r :: later) b' := by
  cases r with
  | push _ | rollback _ | freeze _ => exact hr.elim
  | mark | get _ | words | size | frozen | summary =>
    exact Leads.trans (leads_serve (fun _ h => by cases h)) h

/-- An accepted word that can be shown is where its request leads. -/
theorem leads_push {w : Word} (hw : ¬ w.IsLong) (h : b.push w = .ok b') :
    b.Leads [.push w] b' := by
  obtain ⟨text, htext⟩ := exists_shown hw
  have hserve := leads_serve (b := b) (r := .push w) fun w' hw' => Request.push.inj hw' ▸ hw
  rwa [serve_push, h, htext] at hserve

/-- A refused word that can be shown leads nowhere else. -/
theorem leads_push_refused {w : Word} {fault : Fault} (hw : ¬ w.IsLong)
    (h : b.push w = .error fault) : b.Leads [.push w] b := by
  have hserve := leads_serve (b := b) (r := .push w) fun w' hw' => Request.push.inj hw' ▸ hw
  rwa [serve_push, h] at hserve

/-- Going back leads to where it is accepted to go. -/
theorem leads_rollback {target : Int} (h : b.rollback target = .ok b') :
    b.Leads [.rollback target] b' := by
  have hserve := leads_serve (b := b) (r := .rollback target) (fun _ h => by cases h)
  rwa [serve_rollback, h] at hserve

/-- Going back where that is refused leads nowhere else. -/
theorem leads_rollback_refused {target : Int} {fault : Fault}
    (h : b.rollback target = .error fault) : b.Leads [.rollback target] b := by
  have hserve := leads_serve (b := b) (r := .rollback target) (fun _ h => by cases h)
  rwa [serve_rollback, h] at hserve

end Buffer

namespace Client

open Buffer (Leads leads_push leads_push_refused leads_rollback leads_rollback_refused)

/-- What a client does to the buffer at a reading is what its requests do. -/
def Honest (c : Client) (s : Reading) : Prop :=
  s.buffer.Leads (c.requests s) (c.rule s).2.buffer

variable {c d : Client} {s s' : Reading}

/-- The answer of an honest client, with what its requests lead to. -/
theorem Honest.exists_answer (hc : c.Honest s) : ∃ outcome s',
    c.rule s = (outcome, s') ∧ s.buffer.Leads (c.requests s) s'.buffer :=
  ⟨_, _, rfl, hc⟩

/-! ## Combinators -/

/-- A rule that leaves the buffer alone makes no request. -/
theorem honest_silent {r : Rule} (h : (r s).2.buffer = s.buffer) : (silent r).Honest s := by
  unfold Honest silent
  rw [h]
  exact .refl _

/-- A fixed text has nothing to do with the buffer or the open overlays. -/
theorem literal_kept (text : String) (s : Reading) :
    (Rule.literal text s).2.buffer = s.buffer ∧ (Rule.literal text s).2.depth = s.depth := by
  unfold Rule.literal
  dsimp only
  split <;> exact ⟨rfl, rfl⟩

/-- A fixed text makes no request. -/
theorem honest_literal (text : String) (s : Reading) : (silent (Rule.literal text)).Honest s :=
  honest_silent (literal_kept text s).1

/-- One client after the other. -/
theorem Honest.andThen (hc : c.Honest s)
    (hd : ∀ s', c.rule s = (.matched, s') → d.Honest s') : (c.andThen d).Honest s := by
  obtain ⟨outcome, s', hrule, hleads⟩ := hc.exists_answer
  cases outcome with
  | matched =>
    simp only [Honest, Client.andThen, Rule.andThen, hrule]
    exact hleads.trans (hd s' hrule)
  | failed | stopped fault =>
    simp only [Honest, Client.andThen, Rule.andThen, hrule]
    exact hleads

/-- One client, and where it fails the other one. -/
theorem Honest.orElse (hc : c.Honest s)
    (hd : ∀ s', c.rule s = (.failed, s') → d.Honest s') : (c.orElse d).Honest s := by
  obtain ⟨outcome, s', hrule, hleads⟩ := hc.exists_answer
  cases outcome with
  | failed =>
    simp only [Honest, Client.orElse, Rule.orElse, hrule]
    exact hleads.trans (hd s' hrule)
  | matched | stopped fault =>
    simp only [Honest, Client.orElse, Rule.orElse, hrule]
    exact hleads

/-- Rewinding goes back to the mark. -/
theorem leads_rewind (outcome : Outcome) :
    s'.buffer.Leads [.rollback s.buffer.mark] (Rule.rewind s outcome s').2.buffer := by
  unfold Rule.rewind
  cases hrollback : s'.buffer.rollback s.buffer.mark with
  | ok buffer => exact leads_rollback hrollback
  | error fault => exact leads_rollback_refused hrollback

/-- A client in a transaction. -/
theorem Honest.transact (hc : c.Honest s) : c.transact.Honest s := by
  obtain ⟨outcome, s', hrule, hleads⟩ := hc.exists_answer
  cases outcome with
  | matched =>
    simp only [Honest, Client.transact, Rule.transact, hrule]
    exact hleads.cons trivial
  | failed | stopped fault =>
    simp only [Honest, Client.transact, Rule.transact, hrule]
    exact (hleads.trans (leads_rewind _)).cons trivial

/-- Writing a word that can be shown. -/
theorem honest_emit {expression : String} {w : Word} (hw : ¬ w.IsLong) (s : Reading) :
    (emit expression w).Honest s := by
  cases hpush : s.buffer.push w with
  | ok buffer =>
    simp only [Honest, emit, Rule.emit, hpush]
    exact leads_push hw hpush
  | error fault =>
    cases fault
    all_goals
      simp only [Honest, emit, Rule.emit, hpush]
      exact leads_push_refused hw hpush

/-- The rule of a loop is a loop of the rule. -/
theorem rule_upTo (n : Nat) : (c.upTo n).rule = Rule.upTo c.rule n := by
  cases n <;> rfl

/-- A client over and over, where every turn that a loop may come to is honest. -/
theorem honest_upTo (Holds : Reading → Prop) (hc : ∀ s, Holds s → c.Honest s)
    (hstep : ∀ s s', Holds s → c.rule s = (.matched, s') → Holds s') (n : Nat) (hs : Holds s) :
    (c.upTo n).Honest s := by
  induction n generalizing s with
  | zero => exact honest_silent rfl
  | succ n ih =>
    obtain ⟨outcome, s', hrule, hturn⟩ := (hc s hs).exists_answer
    cases outcome with
    | matched =>
      simp only [Honest, Client.upTo, Rule.upTo, hrule]
      have hrest := ih (hstep s s' hs hrule)
      rw [Honest, rule_upTo] at hrest
      exact hturn.trans hrest
    | failed | stopped fault =>
      simp only [Honest, Client.upTo, Rule.upTo, hrule]
      exact hturn

/-- A client over and over, if it is honest however often it may be repeated. -/
theorem honest_many (h : ∀ n, (c.upTo n).Honest s) : c.many.Honest s := by
  have hupTo := h (s.rest.length + 1)
  rw [Honest, rule_upTo] at hupTo
  exact hupTo

/-- A client with one more overlay open. -/
theorem Honest.nested (hc : c.Honest { s with depth := s.depth + 1 }) : c.nested.Honest s := by
  obtain ⟨outcome, s', hrule, hleads⟩ := hc.exists_answer
  show s.buffer.Leads _ (Rule.nested c.rule s).2.buffer
  rw [Rule.nested_of_eq hrule]
  exact hleads

/-- Looking at the offset makes no request. -/
theorem honest_place {next : Nat → Client} (h : (next s.position).Honest s) :
    (place next).Honest s :=
  h

/-- Looking at the open overlays makes no request. -/
theorem honest_depth {next : Nat → Client} (h : (next s.depth).Honest s) :
    (depth next).Honest s :=
  h

/-- Taking a mark leaves the buffer as it is. -/
theorem honest_mark {next : Nat → Client} (h : (next s.buffer.mark).Honest s) :
    (mark next).Honest s :=
  .cons trivial h

/-- Digits, and a client that is honest after them. -/
theorem honest_digits {next : List Char → Client}
    (h : ∀ number : Digits, (next number.run).Honest (s.advance number.run.length)) :
    (digits next).Honest s := by
  cases hrun : s.rest.takeWhile Char.isDigit with
  | nil =>
    simp only [Honest, digits, Rule.digits, hrun]
    exact .refl _
  | cons c run =>
    obtain ⟨number, hnumber⟩ := Digits.exists_of_takeWhile (hrun ▸ List.cons_ne_nil c run)
    have hnext := h number
    rw [← hnumber, hrun] at hnext
    simp only [Honest, digits, Rule.digits, hrun]
    exact hnext

/-- A digit, and a client that is honest after it. -/
theorem honest_digit {next : Int → Client}
    (h : ∀ c : Char, c.isDigit = true →
      (next (Nat.ofDigitChars 10 [c] 0)).Honest (s.advance 1)) :
    (digit next).Honest s := by
  cases hrest : s.rest with
  | nil =>
    simp only [Honest, digit, Rule.digit, hrest]
    exact .refl _
  | cons c rest =>
    by_cases hc : c.isDigit = true
    · simp only [Honest, digit, Rule.digit, hrest, hc, if_true]
      exact h c hc
    · simp only [Honest, digit, Rule.digit, hrest, hc]
      exact .refl _

/-- Dropping words. -/
theorem honest_rollback (mark : Nat) (s : Reading) : (rollback mark).Honest s := by
  cases hrollback : s.buffer.rollback mark with
  | ok buffer =>
    simp only [Honest, rollback, Rule.rollback, hrollback]
    exact leads_rollback hrollback
  | error fault =>
    simp only [Honest, rollback, Rule.rollback, hrollback]
    exact leads_rollback_refused hrollback

/-- Looking at a word, and a client that is honest then. -/
theorem honest_get {index : Int} {next : Int → Client}
    (h : ∀ w, s.buffer.get index = .ok w → (next w).Honest s) : (get index next).Honest s := by
  cases hget : s.buffer.get index with
  | ok w =>
    simp only [Honest, get, Rule.get, hget]
    exact .cons trivial (h w hget)
  | error fault =>
    simp only [Honest, get, Rule.get, hget]
    exact .cons trivial (.refl _)

/-! ## The grammar of clients -/

/-- The rule of a client goes with the blocks. -/
theorem map_rule : blocks.Map Rule.blocks rule where
  convert _ _ := rfl
  stop _ := rfl
  place _ := rfl
  digits _ := rfl
  emit _ _ := rfl
  transact _ := rfl
  nothing := rfl
  literal _ := rfl
  digit _ := rfl
  andThen _ _ := rfl
  orElse _ _ := rfl
  many _ := rfl
  nested _ := rfl
  depth _ := rfl
  mark _ := rfl
  rollback _ := rfl
  get _ _ := rfl

/-! ## Rules without recursion -/

variable {t : Task}

/-- A number that was read from digits can be shown. -/
theorem not_isLong_of_value? {digits : List Char} {n : Nat}
    (hdigits : ∀ c ∈ digits, c.isDigit = true) (h : Numeral.value? digits = some n) :
    ¬ (Word.number n).IsLong := by
  have hlength := Numeral.length_repr_of_value? hdigits h
  rw [← String.length_toList] at hlength
  exact Nat.not_lt.2 hlength

/-- A tag can be shown. -/
theorem not_isLong_tag (tag : Tag) : ¬ (Word.tag tag).IsLong :=
  id

/-- The numeral without its superfluous zeros has digits only. -/
theorem isDigit_of_mem_stripZeros {run : List Char} (hrun : ∀ c ∈ run, c.isDigit = true) :
    ∀ c ∈ Numeral.stripZeros run, c.isDigit = true := by
  unfold Numeral.stripZeros
  split
  · intro c hc
    obtain rfl := List.mem_singleton.1 hc
    rfl
  · exact fun c hc => hrun c ((List.dropWhile_sublist _).mem hc)

theorem honest_writeNumber (start : Nat) (number : Digits) (s : Reading) :
    (blocks.writeNumber t start number.run).Honest s := by
  have hplain : blocks.IsPlain := fun _ _ => rfl
  cases hexceeds : Grammar.exceeds (Numeral.stripZeros number.run) t.limits.maxNumber with
  | error fault =>
    rw [hplain.writeNumber_of_error hexceeds]
    exact honest_silent rfl
  | ok above =>
    cases above with
    | true =>
      rw [hplain.writeNumber_of_above hexceeds]
      exact honest_silent rfl
    | false =>
      have hdigits := isDigit_of_mem_stripZeros number.isDigit_of_mem
      rw [hplain.writeNumber_of_within hexceeds]
      exact honest_emit (not_isLong_of_value? hdigits (Grammar.value?_of_exceeds hexceeds)) s

theorem honest_number (s : Reading) : (blocks.number t).Honest s :=
  .transact (honest_place (honest_digits fun number => honest_writeNumber s.position number _))

theorem honest_size (s : Reading) : (blocks.size t).Honest s :=
  .transact ((honest_number s).andThen fun s₁ _ => (honest_literal "x" s₁).andThen fun s₂ _ =>
    honest_number s₂)

theorem honest_writeImage {index : Int} (hindex : ¬ (Word.number index).IsLong) (s : Reading) :
    (blocks.writeImage t index).Honest s :=
  (honest_emit hindex s).andThen fun s₁ _ => honest_emit (not_isLong_tag .image) s₁

theorem honest_checkedImage {start : Nat} {index : Int} (hindex : ¬ (Word.number index).IsLong)
    (s : Reading) : (blocks.checkedImage t start index).Honest s := by
  obtain ⟨fault, hstopped⟩ | hwrite := Grammar.checkedImage_cases blocks t start index
  · rw [hstopped]
    exact honest_silent rfl
  · rw [hwrite]
    exact honest_writeImage hindex s

theorem honest_imageRef (s : Reading) : (blocks.imageRef t).Honest s := by
  refine .transact (honest_place (honest_digit fun c hc => honest_checkedImage ?_ _))
  have hdigits : ∀ c' ∈ [c], c'.isDigit = true := by simpa using hc
  have hlength : [c].length ≤ Numeral.longest := Nat.succ_le_of_lt (Nat.succ_pos _)
  exact not_isLong_of_value? hdigits (Numeral.value?_eq_some_iff.2 ⟨hlength, rfl⟩)

theorem honest_call {tag : Tag} {inner : Client}
    (hinner : ∀ s', s'.depth = s.depth → inner.Honest s') : (blocks.call t tag inner).Honest s := by
  refine (honest_literal _ s).andThen fun s₁ h₁ => ?_
  have hdepth : s₁.depth = s.depth := by
    rw [← (literal_kept (tag.mnemonic ++ "(") s).2]
    exact congrArg (·.2.depth) h₁.symm
  exact (hinner s₁ hdepth).andThen fun s₂ _ => (honest_literal ")" s₂).andThen fun s₃ _ =>
    honest_emit (not_isLong_tag tag) s₃

/-! ## Steps -/

variable {inner : Client}

theorem honest_stepOf (hopen : s.Open) (hinner : ∀ s', s'.depth = s.depth → inner.Honest s') :
    (blocks.stepOf t inner).Honest s := by
  -- The overlay comes after the framings have failed, which leaves the depth as it was.
  have hframe (how : Framing) {s₁ s₂ : Reading} (hopen₁ : s₁.Open)
      (h : (blocks.transact (blocks.call t how.tag (blocks.size t))).rule s₁ = (.failed, s₂)) :
      s₂.Open ∧ s₂.depth = s₁.depth := by
    rw [map_rule.transact, map_rule.map_call, map_rule.map_size] at h
    obtain ⟨outcome, text, words, ⟨s', hs', hreads⟩, -⟩ :=
      Grammar.neat_frame (t := t) (k := 0) how hopen₁
    obtain rfl : s' = s₂ := congrArg Prod.snd (hs'.symm.trans h)
    exact ⟨hopen₁.of_reads hreads, hreads.depth⟩
  refine Honest.transact ?_
  refine Honest.orElse (Honest.transact (honest_call fun s' _ => honest_size s')) fun s₁ h₁ => ?_
  obtain ⟨hopen₁, hdepth₁⟩ := hframe .fit hopen h₁
  refine Honest.orElse (Honest.transact (honest_call fun s' _ => honest_size s')) fun s₂ h₂ => ?_
  obtain ⟨-, hdepth₂⟩ := hframe .fill hopen₁ h₂
  refine Honest.orElse (Honest.transact (honest_call fun s' hs' => hinner s' ?_)) fun s₃ _ => ?_
  · rw [hs', hdepth₂, hdepth₁]
  · exact Honest.orElse (Honest.transact (honest_call fun s' _ => honest_number s')) fun s₄ _ =>
      honest_imageRef s₄

theorem honest_chainedStepOf (hopen : s.Open)
    (hinner : ∀ s', s'.depth = s.depth → inner.Honest s') :
    (blocks.chainedStepOf t inner).Honest s := by
  refine Honest.transact ((honest_literal "." s).andThen fun s₁ h₁ => ?_)
  obtain ⟨hbuffer, hdepth⟩ := literal_kept "." s
  have hs₁ : (Rule.literal "." s).2 = s₁ := congrArg Prod.snd h₁
  rw [hs₁] at hbuffer hdepth
  have hopen₁ : s₁.Open := ⟨by rw [hbuffer]; exact hopen.frozen, by rw [hbuffer]; exact hopen.fits⟩
  exact honest_stepOf hopen₁ fun s' hs' => hinner s' (hs'.trans hdepth)

/-- Dropping a dead chain, if the index that may be written again can be shown. -/
theorem honest_dropDeadChain (mark : Nat)
    (hindex : ∀ index, s.buffer.get (-1) = .ok Tag.image.word → s.buffer.get (-2) = .ok index →
      ¬ (Word.number index).IsLong) : (blocks.dropDeadChain t mark).Honest s := by
  refine honest_get fun last hlast => ?_
  split
  · rename_i himage
    exact honest_get fun index hget => (honest_rollback mark s).andThen fun s₁ _ =>
      honest_writeImage (hindex index (himage ▸ hlast) hget) s₁
  · exact honest_silent rfl

/-! ## Chains -/

/-- Where a chained step ends in an image reference, the word before it is a digit. -/
theorem not_isLong_of_link {b : Buffer} {front : List Int} {link : Link} {index : Int}
    (hwords : b.words.toList = front ++ link.words) (hlast : b.get (-1) = .ok Tag.image.word)
    (hget : b.get (-2) = .ok index) : ¬ (Word.number index).IsLong := by
  -- Any other step ends in a tag of its own.
  have hother (operands : List Int) {tag : Tag} (hlink : link.words = operands ++ [tag.word])
      (hne : tag ≠ .image) : ¬ (Word.number index).IsLong := by
    rw [hlink, ← List.append_assoc] at hwords
    have hlast' : b.get (-1) = .ok tag.word := Buffer.get_of_append hwords rfl (by decide)
    exact absurd (Tag.word_inj.1 (Except.ok.inj (hlast'.symm.trans hlast))) hne
  cases link with
  | image digit =>
    have hdigit : b.get (-2) = .ok (digit.val : Int) :=
      Buffer.get_of_append hwords rfl (by decide)
    obtain rfl : (digit.val : Int) = index := Except.ok.inj (hdigit.symm.trans hget)
    have hshort : ∀ digit : Fin 10, (Numeral.decimal (digit.val : Int)).length ≤ Numeral.longest :=
      by decide
    exact Nat.not_lt.2 (hshort digit)
  | frame how width height =>
    exact hother [(width.value : Int), (height.value : Int)] rfl (by cases how <;> decide)
  | blur strength => exact hother [(strength.value : Int)] rfl (by decide)
  | overlay argument => exact hother argument.prune.encode rfl (by decide)

/-- A chained step that matches adds the words of a link. -/
theorem exists_link {r : Rule} {text : List Char} {words : List Int} {s₁ s₂ : Reading}
    (hopen : s.Open) (hsound : Grammar.SoundArgument t s.depth r) (hreads : s.Reads text words s₁)
    (h : Grammar.chainedStepOf t r s₁ = (.matched, s₂)) :
    ∃ (link : Link) (text' : List Char), s.Reads text' (words ++ link.words) s₂ := by
  obtain ⟨outcome, text', words', ⟨s', hs', hreads'⟩, htells, -⟩ :=
    Grammar.neat_chainedStepOf (k := 0) (hopen.of_reads hreads) (hreads.depth ▸ hsound)
  obtain ⟨rfl, rfl⟩ := Prod.mk.inj (hs'.symm.trans h)
  obtain ⟨link, -, rfl⟩ := htells
  exact ⟨link, _, hreads.trans hreads'⟩

theorem honest_chainOf (hopen : s.Open) (hinner : ∀ s', s'.depth = s.depth → inner.Honest s')
    (hsound : Grammar.SoundArgument t s.depth inner.rule) :
    (blocks.chainOf t inner s.buffer.mark).Honest s := by
  refine (honest_imageRef s).andThen fun s₁ h₁ => ?_
  rw [map_rule.map_imageRef] at h₁
  obtain ⟨outcome, text, words, ⟨s', hs', hreads⟩, -⟩ :=
    Grammar.neat_imageRef (t := t) (k := 0) hopen
  obtain rfl : s' = s₁ := congrArg Prod.snd (hs'.symm.trans h₁)
  -- Each turn of the loop starts where a part of the chain was read.
  refine honest_many fun n => honest_upTo (fun s₁ => ∃ text words, s.Reads text words s₁) ?_ ?_ n
    ⟨text, words, hreads⟩
  · rintro s₁ ⟨text₁, words₁, hreads₁⟩
    refine Honest.andThen (honest_chainedStepOf (hopen.of_reads hreads₁) fun s' hs' =>
      hinner s' (hs'.trans hreads₁.depth)) fun s₂ h₂ => ?_
    rw [map_rule.map_chainedStepOf] at h₂
    obtain ⟨link, text₂, hreads₂⟩ := exists_link hopen hsound hreads₁ h₂
    have hwords : s₂.buffer.words.toList = (s.buffer.words.toList ++ words₁) ++ link.words := by
      rw [hreads₂.words, List.append_assoc]
    exact honest_dropDeadChain _ fun index => not_isLong_of_link hwords
  · rintro s₁ s₃ ⟨text₁, words₁, hreads₁⟩ h₃
    obtain ⟨hne, -⟩ | ⟨s₂, h₂, hdrop⟩ := Rule.andThen_cases h₃ (.inl rfl)
    · cases hne
    · rw [map_rule.map_chainedStepOf] at h₂
      rw [map_rule.map_dropDeadChain] at hdrop
      obtain ⟨link, text₂, hreads₂⟩ := exists_link hopen hsound hreads₁ h₂
      obtain ⟨s', hs', hreads₃⟩ :=
        Grammar.dropDeadChain_eq (t := t) link hopen.frozen hopen.fits hreads₂
      obtain rfl : s' = s₃ := congrArg Prod.snd (hs'.symm.trans hdrop)
      exact ⟨_, _, hreads₃⟩

/-- An image reference matches only at an open reading. -/
theorem open_of_imageRef (h : Grammar.imageRef t s = (.matched, s')) : s.Open := by
  obtain ⟨-, hbody⟩ | ⟨hne, -⟩ := Rule.transact_cases h (.inl rfl)
  · cases hrest : s.rest with
    | nil => cases (Rule.digit_of_not (by simp [hrest])).symm.trans hbody
    | cons c rest =>
      by_cases hc : c.isDigit = true
      · have hchecked := (Rule.digit_of_isDigit hrest hc).symm.trans hbody
        obtain ⟨fault, hstopped⟩ | hwrite := Grammar.checkedImage_cases Rule.blocks t s.position
          (Nat.ofDigitChars 10 [c] 0)
        · cases (congrFun hstopped (s.advance 1)).symm.trans hchecked
        · -- The first word was written into an open buffer.
          obtain ⟨hne, -⟩ | ⟨s₁, h₁, -⟩ :=
            Rule.andThen_cases ((congrFun hwrite (s.advance 1)).symm.trans hchecked) (.inl rfl)
          · cases hne
          · have hemit : Rule.emit t.expression (.number (Nat.ofDigitChars 10 [c] 0))
                (s.advance 1) = (.matched, s₁) := h₁
            cases hpush : (s.advance 1).buffer.push (.number (Nat.ofDigitChars 10 [c] 0)) with
            | error fault => cases fault <;> simp [Rule.emit, hpush] at hemit
            | ok buffer =>
              obtain ⟨hopen, hroom, -⟩ := Buffer.push_eq_ok_iff.1 hpush
              exact ⟨hopen, Nat.le_of_lt hroom⟩
      · cases (Rule.digit_of_not (by simp [hrest, hc])).symm.trans hbody
  · cases hne

/-- An expression is honest at every reading, at those with a frozen buffer too. -/
theorem honest_expressionOf (hinner : ∀ s', s'.depth = s.depth → inner.Honest s')
    (hsound : Grammar.SoundArgument t s.depth inner.rule) :
    (blocks.expressionOf t inner).Honest s := by
  refine Honest.transact (honest_mark ?_)
  by_cases hopen : s.Open
  · exact honest_chainOf hopen hinner hsound
  · refine (honest_imageRef s).andThen fun s₁ h₁ => ?_
    rw [map_rule.map_imageRef] at h₁
    exact absurd (open_of_imageRef h₁) hopen

/-- The argument of an overlay is honest, however many overlays may still be opened. -/
theorem honest_nestedExpression {levels : Nat}
    (hlevels : levels = (t.limits.maxDepth - s.depth).toNat) :
    (blocks.nestedExpression t levels).Honest s := by
  induction levels generalizing s with
  | zero => exact honest_place (honest_silent rfl)
  | succ levels ih =>
    have hfewer : levels = (t.limits.maxDepth - (s.depth + 1 : Nat)).toNat := by omega
    refine honest_place (.nested (honest_expressionOf (fun s' hs' => ih ?_) ?_))
    · rw [hs']
      exact hfewer
    · rw [map_rule.map_nestedExpression]
      exact Grammar.soundArgument_nestedExpression hfewer

/-- The argument of an overlay is honest, wherever the overlay stands. -/
theorem honest_argument (s : Reading) : (blocks.argument t).Honest s :=
  honest_depth (honest_nestedExpression rfl)

/-- The requests of the grammar are all that it does to the buffer. -/
theorem honest_expression (s : Reading) : (blocks.expression t).Honest s := by
  refine honest_expressionOf (fun s' _ => honest_argument s') ?_
  rw [map_rule.map_argument]
  exact Grammar.soundArgument_argument t s.depth

/-- Appending a text does to the buffer what its requests do. -/
theorem leads_append (t : Task) (b : Buffer) : b.Leads (appending t b) (append t b).2 := by
  obtain ⟨outcome, s, hrule, hexpression⟩ :=
    (honest_expression (t := t) (.start t.expression b)).exists_answer
  rw [map_rule.map_expression] at hrule
  unfold appending append Grammar.expression
  rw [hrule]
  refine .cons trivial (hexpression.trans ?_)
  -- A text that is not taken to its end is given up from the mark of the first request on.
  cases outcome with
  | stopped fault => exact .refl _
  | matched | failed =>
    dsimp only
    split
    · exact .refl _
    · cases hrollback : s.buffer.rollback b.mark with
      | ok back => exact leads_rollback hrollback
      | error fault => exact leads_rollback_refused hrollback

end Client

/-- The journal of appending a text. It grows by one entry for each request that changes the words,
and by none for the other requests, which are all that happens to the buffer. Whoever reads the
texts of the new entries and redoes what they say, on the words that the buffer had, gets the words
that it has at the end. The text may be compiled or refused, for whatever reason. -/
theorem append_journaled (t : Task) (b : Buffer) : ∃ changes,
    (append t b).2.journal.toList = b.journal.toList ++ changes ∧
      b.after (Client.appending t b) = (append t b).2 ∧
      Buffer.Journaled b (Client.appending t b) changes ∧
      ∀ read : List Buffer.Change,
        read.map Buffer.Change.message = changes.map Buffer.Change.message →
        Buffer.replay b.words read = some (append t b).2.words := by
  have hleads := Client.leads_append t b
  obtain ⟨changes, hjournaled⟩ := Buffer.exists_journaled hleads.shown b
  refine ⟨changes, ?_, hleads.after, hjournaled, fun read hread => ?_⟩
  · rw [← hleads.after, hjournaled.journal]
  · rw [List.map_injective_iff.2 Buffer.Change.message_injective hread, hjournaled.replay,
      hleads.after]

/-- A chain that gives way to an image reference. The rules that fail before go back to where the
buffer is, and leave no entry; the entries that there are bring the words back. -/
theorem append_journaled_dropped :
    let t : Task := ⟨"0.1", ⟨none, 64, 9⟩⟩
    let b : Buffer := ⟨8, #[7], false, #[]⟩
    let read : List Buffer.Change := [.put (.number 0) 1, .put (.tag .image) 2, .put (.number 1) 3,
      .put (.tag .image) 4, .undo 4 1, .put (.number 1) 1, .put (.tag .image) 2]
    read.map Buffer.Change.message = ["PUT 0 @1", "PUT <Tag.IMAGE: 4> @2", "PUT 1 @3",
        "PUT <Tag.IMAGE: 4> @4", "UNDO 4 word(s) back to @1", "PUT 1 @1",
        "PUT <Tag.IMAGE: 4> @2"] ∧
      (append t b).2.journal.toList = read ∧
      Buffer.replay b.words read = some (append t b).2.words := by
  intro t b read
  have hjournal : (append t b).2.journal.toList = read := by decide +kernel
  obtain ⟨changes, hchanges, -, -, hread⟩ := append_journaled t b
  have hsame : read = changes := hjournal.symm.trans hchanges
  exact ⟨by decide, hjournal, hread read (congrArg _ hsame)⟩

end Montage
