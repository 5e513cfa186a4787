import Montage.Proofs.Expression.Session
import Montage.Proofs.Expression.ViablePrefix

/-!
# The longest match of a rule

A rule that is called in the middle of a text reads the longest text of its nonterminal that stands
there, and writes the words of that text. There are two halves to this. A rule reads nothing that is
not derivable, since all rules explore the texts of their nonterminals (`RuleName.explores`). And it
reads no less than the longest derivable text: what comes after that text cannot go on with it, so a
run of digits ends there, and a chain ends there since no dot and step follow (`RuleName.takes`). A
step that is begun after the chain and then fails is taken back.

The main statement is `Reading.call_longest`.
-/

namespace Montage

open Rule

/-! ## Longest texts -/

/-- The longest text of a language that another text starts with. -/
structure LongestStart (P : List Char → Prop) (text front : List Char) : Prop where
  /-- The text starts with it. -/
  starts : front <+: text
  /-- It is of the language. -/
  derives : P front
  /-- No other one is longer. -/
  longest : ∀ other, other <+: text → P other → other.length ≤ front.length

/-- Where some text of a language stands, there is a longest one. -/
theorem exists_longestStart {P : List Char → Prop} {text front : List Char}
    (hstarts : front <+: text) (hP : P front) : ∃ longest, LongestStart P text longest := by
  -- As long as there is a longer text, it takes the place of the one that was found.
  by_cases hmore : ∃ other, other <+: text ∧ P other ∧ front.length < other.length
  · obtain ⟨other, hother, hP', hlonger⟩ := hmore
    have hlength := hother.length_le
    exact exists_longestStart hother hP'
  · refine ⟨front, hstarts, hP, fun other hother hP' => Nat.le_of_not_lt fun hlonger => ?_⟩
    exact hmore ⟨other, hother, hP', hlonger⟩
termination_by text.length - front.length

namespace LongestStart

variable {P : List Char → Prop} {front rest : List Char}

/-- A longest text cannot go on into what follows it. -/
theorem not_append (h : LongestStart P (front ++ rest) front) {more : List Char}
    (hne : more ≠ []) (hmore : more <+: rest) : ¬ P (front ++ more) := by
  intro hP
  have hlength := h.longest (front ++ more) ((List.prefix_append_right_inj front).2 hmore) hP
  have hpos : 0 < more.length := List.length_pos_iff.2 hne
  rw [List.length_append] at hlength
  omega

/-- No digit follows a longest text that could go on with a digit. -/
theorem isDigit_head? (h : LongestStart P (front ++ rest) front)
    (hdigit : ∀ c : Char, c.isDigit = true → P (front ++ [c])) :
    ∀ c ∈ rest.head?, c.isDigit = false := by
  intro c hc
  obtain ⟨tail, rfl⟩ : ∃ tail, rest = c :: tail := List.head?_eq_some_iff.1 hc
  refine Bool.eq_false_iff.2 fun hd => ?_
  exact h.not_append (List.cons_ne_nil c []) (List.prefix_append [c] tail) (hdigit c hd)

end LongestStart

/-- A run with one more digit. -/
def Digits.push (number : Digits) (c : Char) (hc : c.isDigit = true) : Digits where
  run := number.run ++ [c]
  run_ne_nil := by simp
  isDigit_of_mem d hd := by
    rcases List.mem_append.1 hd with hd | hd
    · exact number.isDigit_of_mem d hd
    · rw [List.mem_singleton.1 hd]
      exact hc

/-! ## Rules that take a text -/

/-- Unless it stops, a rule matches a text and writes words. -/
def Rule.Takes (r : Rule) (s : Reading) (text : List Char) (words : List Int) : Prop :=
  ∀ ⦃outcome : Outcome⦄ ⦃s' : Reading⦄, r s = (outcome, s') → outcome.Decided →
    outcome = .matched ∧ s.Reads text words s'

variable {t : Task} {s s' : Reading} {text front rest : List Char} {words : List Int}

/-- A rule takes what it settles, whatever the check is. -/
theorem Rule.Settles.takes {r : Rule} {check : Except Fault Unit}
    (h : r.Settles s text words check) : r.Takes s text words := by
  intro outcome s' hr hdecided
  cases check with
  | error fault =>
    obtain ⟨s₁, hstopped, -⟩ := h
    exact absurd hdecided (Outcome.not_decided_of_eq (hstopped.symm.trans hr))
  | ok _ =>
    obtain ⟨s₁, hmatched, hreads⟩ := h
    obtain ⟨rfl, rfl⟩ := Prod.mk.inj (hmatched.symm.trans hr)
    exact ⟨rfl, hreads⟩

namespace Grammar

/-- A number takes the longest run of digits. -/
theorem takes_number (number : Digits) (hopen : s.Open) (hs : s.rest = number.run ++ rest)
    (hlongest : LongestStart (Derives .number) s.rest number.run) :
    (Grammar.number t).Takes s number.run [(number.value : Int)] := by
  rw [hs] at hlongest
  have hrest := hlongest.isDigit_head? fun c hc => derives_number (number.push c hc)
  exact (settles_number number (hopen.at_self hs) hrest).takes

/-- A width and a height take the longest run of digits as the height. -/
theorem takes_size (width height : Digits) (hopen : s.Open)
    (hs : s.rest = width.run ++ 'x' :: height.run ++ rest)
    (hlongest : LongestStart (Derives .size) s.rest (width.run ++ 'x' :: height.run)) :
    (Grammar.size t).Takes s (width.run ++ 'x' :: height.run)
      [(width.value : Int), (height.value : Int)] := by
  rw [hs] at hlongest
  have hrest := hlongest.isDigit_head? fun c hc => by
    rw [List.append_assoc]
    exact derives_size width (height.push c hc)
  exact (settles_size width height (hopen.at_self hs) hrest).takes

/-- The loop over the steps of a chain ends where no dot and step stand. What it has begun there is
taken back. -/
theorem upTo_turn_eq {inner : Rule} {outcome : Outcome} {mark n : Nat} (hopen : s.Open)
    (hinner : SoundArgument t s.depth inner) (hnone : ∀ link : Link, ¬ '.' :: link.text <+: s.rest)
    (h : upTo (andThen (chainedStepOf t inner) (dropDeadChain t mark)) n s = (outcome, s'))
    (hdecided : outcome.Decided) : outcome = .matched ∧ s.Reads [] [] s' := by
  cases n with
  | zero =>
    obtain ⟨rfl, rfl⟩ := Prod.mk.inj h
    exact ⟨rfl, .refl s⟩
  | succ n =>
    obtain ⟨answer, text, words, ⟨s₁, hs₁, hreads⟩, htells, hnothing⟩ :=
      neat_chainedStepOf (k := 0) hopen hinner
    cases answer with
    | matched =>
      obtain ⟨link, rfl, -⟩ := htells
      exact absurd ⟨s₁.rest, hreads.rest.symm⟩ (hnone link)
    | failed =>
      obtain ⟨rfl, rfl⟩ := hnothing (by simp)
      have hturn : andThen (chainedStepOf t inner) (dropDeadChain t mark) s = (.failed, s₁) :=
        andThen_of_failed hs₁
      obtain ⟨rfl, rfl⟩ := Prod.mk.inj ((upTo_of_failed hturn).symm.trans h)
      exact ⟨rfl, hreads⟩
    | stopped fault =>
      have hturn :
          andThen (chainedStepOf t inner) (dropDeadChain t mark) s = (.stopped fault, s₁) :=
        andThen_of_stopped hs₁
      exact absurd hdecided (Outcome.not_decided_of_eq ((upTo_of_stopped hturn).symm.trans h))

/-- An expression takes the longest chain. -/
theorem takes_expression (c : Chain) (hopen : s.Open) (hs : s.rest = c.text ++ rest)
    (hlongest : LongestStart (Derives .expression) s.rest c.text) :
    (expression t).Takes s c.text c.prune.encode := by
  intro outcome s' h hdecided
  have hat := hopen.at_self hs
  have hpasses := passes_chain acceptsArgument_argument (t := t) c hat
  obtain ⟨n, hmany⟩ := exists_many_eq (t := t) c hat
  -- A dot and a step after the chain would make it longer.
  rw [hs] at hlongest
  have hnone (link : Link) : ¬ '.' :: link.text <+: rest := fun hmore => by
    refine hlongest.not_append (List.cons_ne_nil _ _) hmore ?_
    rw [← Chain.text_extend]
    exact derives_text (c.extend link)
  cases hcheck : c.check t s.buffer.capacity s.depth s.position s.buffer.size with
  | error fault =>
    rw [hcheck] at hpasses
    obtain ⟨s₁, text, words, -, hloop⟩ := hpasses
    have hbody := hmany.trans (hloop n)
    obtain ⟨-, hmatched⟩ | ⟨-, s₂, b, hfailed, -⟩ := transact_cases h hdecided
    · cases hbody.symm.trans hmatched
    · cases hbody.symm.trans hfailed
  | ok _ =>
    rw [hcheck] at hpasses
    obtain ⟨s₁, hreads₁, hloop⟩ := hpasses
    have hbody := hmany.trans (hloop n)
    have hat₁ := hat.of_reads hreads₁
    have hinner := soundArgument_argument t s₁.depth
    obtain ⟨rfl, hmatched⟩ | ⟨rfl, s₂, b, hfailed, -⟩ := transact_cases h hdecided
    · obtain ⟨-, hreads₂⟩ := upTo_turn_eq (hopen.of_reads hreads₁) hinner (hat₁.rest ▸ hnone)
        (hbody.symm.trans hmatched) hdecided
      have hreads := hreads₁.trans hreads₂
      rw [List.append_nil, List.append_nil] at hreads
      exact ⟨rfl, hreads⟩
    · obtain ⟨habsurd, -⟩ := upTo_turn_eq (hopen.of_reads hreads₁) hinner (hat₁.rest ▸ hnone)
        (hbody.symm.trans hfailed) hdecided
      cases habsurd

end Grammar

/-! ## All rules -/

namespace RuleName

/-- The texts that are derivable from the nonterminal of a rule. -/
def Language : RuleName → List Char → Prop
  | number => Derives .number
  | size => Derives .size
  | imageRef => Derives .imageRef
  | fit => Derives .fit
  | fill => Derives .fill
  | blur => Derives .blur
  | overlay => Derives .overlay
  | step => Derives .step
  | expression => Derives .expression
  | chainedStep => Grammar.Chained

/-- The words that a text of a rule is encoded with. Those of an expression are the words of its
pruned tree, without any chain that an image reference discards. -/
def Encodes : RuleName → Phrase
  | number => .number
  | size => .size
  | imageRef => .imageRef
  | fit => fun text words => ∃ width height : Digits,
    text = (Link.frame .fit width height).text ∧ words = (Link.frame .fit width height).words
  | fill => fun text words => ∃ width height : Digits,
    text = (Link.frame .fill width height).text ∧ words = (Link.frame .fill width height).words
  | blur => fun text words => ∃ strength : Digits,
    text = (Link.blur strength).text ∧ words = (Link.blur strength).words
  | overlay => fun text words => ∃ argument : Chain,
    text = (Link.overlay argument).text ∧ words = (Link.overlay argument).words
  | step => .step
  | expression => .expression
  | chainedStep => .chainedStep

/-- Every rule explores the texts of its nonterminal. -/
theorem explores (t : Task) (name : RuleName) : (name.rule t).Explores name.Language := by
  cases name with
  | number => exact Grammar.explores_number
  | size => exact Grammar.explores_size
  | imageRef => exact Grammar.explores_imageRef
  | fit => exact Grammar.explores_call Grammar.explores_size .fit
  | fill => exact Grammar.explores_call Grammar.explores_size .fill
  | blur => exact Grammar.explores_call Grammar.explores_number .blur
  | overlay => exact Grammar.explores_call Grammar.explores_argument .overlay
  | step => exact Grammar.explores_stepOf Grammar.explores_argument
  | expression => exact Grammar.explores_expression
  | chainedStep => exact Grammar.explores_chainedStepOf Grammar.explores_argument

/-- Every text of a nonterminal has its words. -/
theorem exists_encodes {name : RuleName} (h : name.Language text) :
    ∃ words, name.Encodes text words := by
  cases name with
  | number =>
    obtain ⟨number, rfl⟩ := covers_of_derives h
    exact ⟨_, number, rfl, rfl⟩
  | size | fit | fill =>
    obtain ⟨width, height, rfl⟩ := covers_of_derives h
    exact ⟨_, width, height, rfl, rfl⟩
  | imageRef =>
    obtain ⟨index, rfl⟩ := covers_of_derives h
    exact ⟨_, index, rfl, rfl⟩
  | blur =>
    obtain ⟨strength, rfl⟩ := covers_of_derives h
    exact ⟨_, strength, rfl, rfl⟩
  | overlay =>
    obtain ⟨argument, rfl⟩ := covers_of_derives h
    exact ⟨_, argument, rfl, rfl⟩
  | step =>
    obtain ⟨link, rfl⟩ := covers_of_derives h
    exact ⟨_, link, rfl, rfl⟩
  | expression =>
    obtain ⟨c, rfl⟩ := covers_of_derives h
    exact ⟨_, c, rfl, rfl⟩
  | chainedStep =>
    obtain ⟨step, rfl, hstep⟩ := h
    obtain ⟨link, rfl⟩ := covers_of_derives hstep
    exact ⟨_, link, rfl, rfl⟩

/-- Every rule takes the longest text of its nonterminal. -/
theorem takes {name : RuleName} (hopen : s.Open)
    (hlongest : LongestStart name.Language s.rest front) (hwords : name.Encodes front words) :
    (name.rule t).Takes s front words := by
  obtain ⟨rest, hs⟩ := hlongest.starts
  have hat := hopen.at_self hs.symm
  have hargument (c : Chain) :
      Grammar.AcceptsArgument t s.buffer.capacity s.depth (Grammar.argument t) c :=
    Grammar.acceptsArgument_argument c
  cases name with
  | number =>
    obtain ⟨number, rfl, rfl⟩ := hwords
    exact Grammar.takes_number number hopen hs.symm hlongest
  | size =>
    obtain ⟨width, height, rfl, rfl⟩ := hwords
    exact Grammar.takes_size width height hopen hs.symm hlongest
  | imageRef =>
    obtain ⟨index, rfl, rfl⟩ := hwords
    exact (Grammar.settles_imageRef index hat).takes
  | fit =>
    obtain ⟨width, height, rfl, rfl⟩ := hwords
    exact (Grammar.settles_frame .fit width height hat).takes
  | fill =>
    obtain ⟨width, height, rfl, rfl⟩ := hwords
    exact (Grammar.settles_frame .fill width height hat).takes
  | blur =>
    obtain ⟨strength, rfl, rfl⟩ := hwords
    exact (Grammar.settles_blur strength hat).takes
  | overlay =>
    obtain ⟨argument, rfl, rfl⟩ := hwords
    exact (Grammar.settles_overlayOf (hargument argument) hat).takes
  | step =>
    obtain ⟨link, rfl, rfl⟩ := hwords
    exact (Grammar.settles_stepOf link (fun c _ => hargument c) hat).takes
  | expression =>
    obtain ⟨c, rfl, rfl⟩ := hwords
    exact Grammar.takes_expression c hopen hs.symm hlongest
  | chainedStep =>
    obtain ⟨link, rfl, rfl⟩ := hwords
    exact (Grammar.settles_chainedStepOf link (fun c _ => hargument c) hat).takes

end RuleName

/-- A rule that is called at any place of a text takes the longest match, unless it stops for one of
the limits, which it does not where the limits do not restrict it. It matches exactly if some text
that is derivable from its nonterminal stands there. It has then read the longest such text and
added the words of that text, and no others. Where it fails it has read and written nothing. -/
theorem Reading.call_longest (name : RuleName) (hopen : s.Open) :
    (s.Unrestricted t → (name.rule t s).1.Decided) ∧
      ∀ outcome s', name.rule t s = (outcome, s') → outcome.Decided →
        (outcome = .matched ↔ ∃ front, front <+: s.rest ∧ name.Language front) ∧
        (outcome = .matched → ∃ front, LongestStart name.Language s.rest front ∧
          (∃ words, name.Encodes front words) ∧
          ∀ words, name.Encodes front words → s.Reads front words s') ∧
        (outcome ≠ .matched → s.Reads [] [] s') := by
  obtain ⟨answer, text, words, ⟨s₁, hcall, hreads⟩, htells, hnothing⟩ :=
    name.neat (t := t) (k := 0) hopen
  constructor
  · intro hunrestricted
    rw [hcall]
    cases answer with
    | matched => exact .inl rfl
    | failed => exact .inr rfl
    | stopped fault => exact absurd htells (hunrestricted.not_concerns fault)
  · intro outcome s' hcall' hdecided
    obtain ⟨rfl, rfl⟩ := Prod.mk.inj (hcall.symm.trans hcall')
    -- The longest derivable text is what the rule takes.
    have htakes {front : List Char} (hfront : LongestStart name.Language s.rest front)
        {words : List Int} (hwords : name.Encodes front words) :
        answer = .matched ∧ s.Reads front words s₁ :=
      RuleName.takes hopen hfront hwords hcall hdecided
    have hderivable : answer = .matched → ∃ front, front <+: s.rest ∧ name.Language front := by
      intro hmatched
      obtain ⟨front, hrest, -, hlanguage⟩ := ((name.explores t).explored hcall hdecided).text
      exact ⟨front, ⟨s₁.rest, hrest.symm⟩, hlanguage hmatched⟩
    refine ⟨⟨hderivable, ?_⟩, ?_, ?_⟩
    · rintro ⟨front, hstarts, hlanguage⟩
      obtain ⟨longest, hlongest⟩ := exists_longestStart hstarts hlanguage
      obtain ⟨words, hwords⟩ := RuleName.exists_encodes hlongest.derives
      exact (htakes hlongest hwords).1
    · intro hmatched
      obtain ⟨front, hstarts, hlanguage⟩ := hderivable hmatched
      obtain ⟨longest, hlongest⟩ := exists_longestStart hstarts hlanguage
      exact ⟨longest, hlongest, RuleName.exists_encodes hlongest.derives,
        fun words hwords => (htakes hlongest hwords).2⟩
    · intro hne
      obtain ⟨rfl, rfl⟩ := hnothing hne
      exact hreads

/-- The second character of a text, where a chain ends before an overlay that is begun and not
closed. -/
theorem Reading.call_longest_rest :
    let t : Task := ⟨"(0.gb(01).pi(2.3.gb(", ⟨some 4, 64, 255⟩⟩
    let s : Reading := ⟨"0.gb(01).pi(2.3.gb(".toList, 1, 0, 0, ⟨64, #[9], false, #[]⟩⟩
    ∃ s', RuleName.expression.rule t s = (.matched, s') ∧
      s.Reads "0.gb(01)".toList [0, 4, 1, 3] s' ∧
      ∀ other, other <+: s.rest → Derives .expression other → other.length ≤ 8 := by
  intro t s
  have hmatched : (RuleName.expression.rule t s).1 = .matched := by decide +kernel
  have hplace : (RuleName.expression.rule t s).2.position = 9 := by decide +kernel
  have hopen : s.Open := ⟨rfl, by decide⟩
  rcases hcall : RuleName.expression.rule t s with ⟨outcome, s'⟩
  rw [hcall] at hmatched hplace
  obtain rfl : outcome = .matched := hmatched
  obtain ⟨-, hfront, -⟩ := (call_longest .expression hopen).2 _ _ hcall (.inl rfl)
  obtain ⟨front, hlongest, ⟨words, hwords⟩, hreads⟩ := hfront rfl
  -- The place after the call tells how long the text is.
  have hlength : front.length = 8 := by
    have hposition : s'.position = 1 + front.length := (hreads words hwords).position
    have hnine : s'.position = 9 := hplace
    omega
  have htext : front = "0.gb(01)".toList := by
    rw [List.prefix_iff_eq_take.1 hlongest.starts, hlength]
    decide
  subst htext
  let one : Digits := ⟨['0', '1'], List.cons_ne_nil _ _, List.all_eq_true.1 rfl⟩
  have hencodes : RuleName.expression.Encodes "0.gb(01)".toList [0, 4, 1, 3] :=
    ⟨.blur (.root 0) one, by decide, by decide⟩
  exact ⟨s', rfl, hreads _ hencodes, hlongest.longest⟩

end Montage
