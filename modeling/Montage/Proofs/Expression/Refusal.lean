import Montage.Proofs.Expression.Compilation

/-!
# How a compilation can fail

A program that compiles texts within settings from its environment can rely on three things. The
limits are positive and the format is a lossless one, whatever the variables hold. A compilation
within them returns or refuses the text; no other fault of the buffer or of a numeral comes up. And
a refusal can be put into words, with a place in the text. `Settings.compile_load_cases` states all
of them.

The words need a numeral for the number of images, which a negative number of too many digits does
not have; such a number refuses the first image reference without words (`describe_long_count`).
-/

namespace Montage

/-! ## Refusals in words -/

namespace Rejection

/-- Every number that indexes reach can be written. -/
theorem writable_of_le_wordBound {n : Int} (h : 0 ≤ n) (hbound : n ≤ Index.wordBound) :
    Numeral.Writable n := by
  have hlt : n.natAbs < 10 ^ 19 := by
    simp only [Index.wordBound] at hbound
    omega
  exact Numeral.writable_of_lt (by decide) (by decide) hlt

/-- Every place of a text that indexes reach has a column. -/
theorem column_eq_ok_of_lt {place : Nat} (h : place < Index.wordBound) :
    column place = .ok (toString ((place : Int) + 1)) := by
  have hshort : Numeral.Writable ((place : Int) + 1) :=
    writable_of_le_wordBound (by omega) (by omega)
  rw [column, shown, hshort.written_eq]
  rfl

/-- The place where a text breaks the grammar can be described. -/
theorem exists_describe_ungrammatical {expression : String} {place : Nat}
    (hlength : expression.length < Index.wordBound) (hplace : place ≤ expression.length) :
    ∃ detail, (ungrammatical expression place).describe = .ok detail := by
  have hcolumn : (column place).isOk := by
    rw [column_eq_ok_of_lt (by omega)]
    rfl
  have hreached : expression.toList.length < Index.wordBound := by rwa [String.length_toList]
  have hlocate := isOk_locate hreached hcolumn
  have hdescribe : (ungrammatical expression place).describe =
      locate expression.toList place := rfl
  rw [hdescribe]
  cases h : locate expression.toList place with
  | ok detail => exact ⟨detail, rfl⟩
  | error fault =>
    rw [h] at hlocate
    cases hlocate

/-- A rejection with a note is described by it. -/
theorem describe_of_note {r : Rejection} (h : r.note ≠ []) : r.describe = wording r.note := by
  unfold describe
  split
  · rename_i hnote _
    exact absurd hnote h
  · rfl

/-- A rejection with a note is described if the numbers of the note can be written. -/
theorem exists_describe_of_note {r : Rejection} (h : r.note ≠ [])
    (hnumbers : ∀ n, .number n ∈ r.note → Numeral.Writable n) :
    ∃ detail, r.describe = .ok detail := by
  rw [describe_of_note h]
  cases hwording : wording r.note with
  | ok detail => exact ⟨detail, rfl⟩
  | error fault =>
    obtain ⟨-, n, hn, hlong⟩ := wording_eq_error_iff.1 hwording
    exact absurd (hnumbers n hn) hlong

/-- A rejection with a number in its note that cannot be written is not described. -/
theorem describe_eq_error {r : Rejection} {n : Int} (hn : .number n ∈ r.note)
    (hlong : ¬ Numeral.Writable n) : r.describe = .error (.column .written) := by
  rw [describe_of_note (List.ne_nil_of_mem hn)]
  exact wording_eq_error_iff.2 ⟨rfl, n, hn, hlong⟩

end Rejection

open Rejection

variable {t : Task} {capacity : Int} {k place : Nat} {s : Reading} {rejection : Rejection}

/-- A number of images that a refusal can speak of: only a negative one may be too long for that,
since no digit is above any other. -/
def Limits.Countable (limits : Limits) : Prop :=
  ∀ count ∈ limits.imageCount,
    0 ≤ count ∨ (Numeral.decimal count.natAbs).length ≤ Numeral.longest

instance (limits : Limits) : Decidable limits.Countable :=
  inferInstanceAs (Decidable (∀ count ∈ limits.imageCount, _))

/-- Limits that a refusal can speak of. So can it of a depth that is not below zero, since more
overlays than that are open where it refuses one. -/
structure Limits.Sayable (limits : Limits) : Prop where
  /-- The number of images can be written where it is too small. -/
  countable : limits.Countable
  /-- The depth can be written where it is reached. -/
  depth : 0 ≤ limits.maxDepth ∨ Numeral.Writable limits.maxDepth

/-- A number of images up to a digit can be written. -/
theorem Limits.Countable.writable {limits : Limits} {index count : Int}
    (h : limits.Countable) (hcount : limits.imageCount = some count) (hle : count ≤ index)
    (hdigit : index < 10) : Numeral.Writable count := by
  obtain hpos | hshort := h count hcount
  · have hlt : count.natAbs < 10 ^ 1 := by omega
    exact Numeral.writable_of_lt (by decide) (by decide) hlt
  · exact hshort

/-- A legible maximum can be written. -/
theorem Limits.Legible.writable {limits : Limits} (h : limits.Legible) :
    Numeral.Writable limits.maxNumber :=
  (Numeral.written_eq_ok_iff.1 (Numeral.written_eq_ok_of_length h)).1

/-- The rejection of a kind names the text and the place. -/
theorem Task.rejection_names {capacity : Nat} (kind : Rejection.Kind) :
    (t.rejection capacity place kind).expression = t.expression ∧
      (t.rejection capacity place kind).position = some (place : Int) := by
  cases kind <;> exact ⟨rfl, rfl⟩

/-- A rejection for one of the limits can be described. -/
theorem exists_describe_of_concerns (hstart : s.depth = 0)
    (hlength : (s.position + s.rest.length : Nat) < Index.wordBound)
    (hlegible : t.limits.Legible) (hsayable : t.limits.Sayable) (h : rejection.Concerns t 0 s) :
    ∃ detail, rejection.describe = .ok detail := by
  obtain ⟨hkind, place, -, hlast, hrejection⟩ := h
  have hcolumn : Numeral.Writable ((place : Int) + 1) :=
    writable_of_le_wordBound (by omega) (by omega)
  generalize rejection.kind = kind at hkind hrejection
  subst hrejection
  cases kind with
  | ungrammatical => exact hkind.elim
  | tooLong => exact ⟨_, rfl⟩
  | tooDeep =>
    have hdeep : t.limits.maxDepth < s.depth + s.rest.count '(' + (0 : Nat) := hkind
    have hdepth : Numeral.Writable t.limits.maxDepth := by
      obtain hpos | hshort := hsayable.depth
      · have hcount := List.count_le_length (a := '(') (l := s.rest)
        exact writable_of_le_wordBound hpos (by omega)
      · exact hshort
    refine exists_describe_of_note (List.cons_ne_nil _ _) fun n hn => ?_
    simp only [Task.rejection, tooDeep, List.mem_cons, Piece.number.injEq, List.not_mem_nil,
      reduceCtorEq, or_false, false_or] at hn
    rcases hn with rfl | rfl
    · exact hdepth
    · exact hcolumn
  | numberTooLarge =>
    refine exists_describe_of_note (List.cons_ne_nil _ _) fun n hn => ?_
    simp only [Task.rejection, numberTooLarge, List.mem_cons, Piece.number.injEq, List.not_mem_nil,
      reduceCtorEq, or_false, false_or] at hn
    rcases hn with rfl | rfl
    · exact hcolumn
    · exact hlegible.writable
  | indexOutOfRange index count =>
    obtain ⟨hcount, hle, hindex⟩ := hkind
    have hdigit : index.natAbs < 10 ^ 1 := by omega
    refine exists_describe_of_note (List.cons_ne_nil _ _) fun n hn => ?_
    simp only [Task.rejection, indexOutOfRange, List.mem_cons, Piece.number.injEq,
      List.not_mem_nil, reduceCtorEq, or_false, false_or] at hn
    rcases hn with rfl | rfl | rfl
    · exact Numeral.writable_of_lt (by decide) (by decide) hdigit
    · exact hcolumn
    · exact hsayable.countable.writable hcount hle hindex.2

/-! ## Compilations -/

/-- A refusal of a text that can be put into words and has its place in the text. -/
structure Rejection.Stated (text : String) (r : Rejection) : Prop where
  /-- The text is named. -/
  expression : r.expression = text
  /-- The place is one of the text, or right behind it. -/
  position : ∃ place : Nat, place ≤ text.length ∧ r.position = some (place : Int)
  /-- There are words for it. -/
  describe : ∃ detail, r.describe = .ok detail

/-- A compilation whose limits can be shown returns, or it refuses the text in words. -/
theorem compile_stated (hcapacity : 1 ≤ capacity) (hlegible : t.limits.Legible)
    (hsayable : t.limits.Sayable) (hlength : t.expression.length < Index.wordBound) :
    (∃ e, (compile t capacity).result = .ok e) ∨
      ∃ r, (compile t capacity).result = .error (.rejected r) ∧ r.Stated t.expression := by
  have hwhole : (Reading.fresh t capacity).position + (Reading.fresh t capacity).rest.length =
      t.expression.length := by
    rw [← String.length_toList]
    exact Nat.zero_add _
  obtain ⟨c, -, hresult⟩ | ⟨fault, hresult, hconcerns⟩ | ⟨-, s, hearly, hresult⟩ :=
    compile_cases (t := t) hcapacity
  · exact .inl ⟨_, hresult⟩
  · -- The faults inside the buffer concern nothing, and the maximum has a numeral.
    cases fault with
    | buffer | missingWord => exact hconcerns.elim
    | numeral => exact absurd hlegible hconcerns
    | rejected rejection =>
      have hdescribe :=
        exists_describe_of_concerns rfl (by rwa [hwhole]) hlegible hsayable hconcerns
      obtain ⟨-, place, -, hlast, hrejection⟩ := hconcerns
      have hnames : rejection.expression = t.expression ∧
          rejection.position = some (place : Int) := by
        rw [hrejection]
        exact Task.rejection_names rejection.kind
      rw [hwhole] at hlast
      exact .inr ⟨rejection, hresult, hnames.1, ⟨place, hlast, hnames.2⟩, hdescribe⟩
  · have hplace := hearly.place_le
    exact .inr ⟨_, hresult, rfl, ⟨_, hplace, rfl⟩, exists_describe_ungrammatical hlength hplace⟩

/-- A number of images below zero that has no numeral refuses the first image reference, and there
are no words for that. -/
theorem describe_long_count {limits : Limits} {count : Int}
    (hcount : limits.imageCount = some count)
    (hneg : count < 0) (hlong : Numeral.longest < (Numeral.decimal count.natAbs).length)
    (hcapacity : 1 ≤ capacity) :
    ∃ r, (compile ⟨"0", limits⟩ capacity).result = .error (.rejected r) ∧
      r.describe = .error (.column .written) := by
  have htext : (Chain.root 0).text = "0".toList := by decide
  have hmissing : count ≤ (0 : Fin 10).val := by
    have : ((0 : Fin 10).val : Int) = 0 := rfl
    omega
  refine ⟨.indexOutOfRange "0" 0 0 count, ?_, ?_⟩
  · rw [result_compile_eq_map _ htext hcapacity]
    simp only [Chain.check, Task.checkImage, Task.checkIndex, hcount, if_pos hmissing]
    rfl
  · refine describe_eq_error (n := count) ?_ (Nat.not_le.2 hlong)
    simp [indexOutOfRange]

/-! ## Settings from the environment -/

/-- A choice that is read from the environment is one of the choices, if the one that it replaces
is. -/
theorem readChoice_mem {name : String} {raw : Option String} {default : String}
    {choices : List String} (h : default ∈ choices) :
    (readChoice name raw default choices).1 ∈ choices := by
  unfold readChoice
  dsimp only
  split
  · exact h
  · split
    · rename_i hcontains
      exact List.contains_iff_mem.1 hcontains
    · exact h

namespace Settings

/-- What is answered within the settings is what the compilation answers. -/
theorem compile_fst (s : Settings) (text : String) (imageCount : Option Int) :
    (s.compile text imageCount).1 =
      (Montage.compile ⟨text, s.limits imageCount⟩ s.bufferCapacity).result := by
  unfold Settings.compile
  dsimp only
  split
  · rename_i hresult
    exact hresult.symm
  · rename_i hresult
    exact hresult.symm

/-- Settings that leave room for words, overlays, numbers and pixels, and that write pictures in one
of the formats that lose nothing. -/
structure Workable (s : Settings) : Prop where
  bufferCapacity : 0 < s.bufferCapacity
  maxDepth : 0 < s.maxDepth
  maxNumber : 0 < s.maxNumber
  maxPixels : 0 < s.maxPixels
  formats : s.formats = losslessFormats
  outputFormat : s.outputFormat ∈ losslessFormats

/-- Whatever the environment holds, the settings that it gives are workable. -/
theorem workable_load (env : String → Option String) : (load env).1.Workable where
  bufferCapacity := readPositive_pos (by decide)
  maxDepth := readPositive_pos (by decide)
  maxNumber := readPositive_pos (by decide)
  maxPixels := readPositive_pos (by decide)
  formats := rfl
  outputFormat := readChoice_mem (by decide)

/-- Whatever the environment holds, its limits are positive and its format is a lossless one. A text
that indexes reach is compiled within them, or it is refused in words and with its place, for any
number of images that a refusal can speak of; nothing else goes wrong. -/
theorem compile_load_cases (env : String → Option String) :
    (load env).1.Workable ∧
    ∀ (text : String) (imageCount : Option Int), text.length < Index.wordBound →
      (∀ count ∈ imageCount,
        0 ≤ count ∨ (Numeral.decimal count.natAbs).length ≤ Numeral.longest) →
      (∃ e, ((load env).1.compile text imageCount).1 = .ok e) ∨
        ∃ r, ((load env).1.compile text imageCount).1 = .error (.rejected r) ∧ r.Stated text := by
  have hworkable := workable_load env
  refine ⟨hworkable, ?_⟩
  intro text imageCount hlength hcount
  rw [compile_fst]
  have hsayable : ((load env).1.limits imageCount).Sayable :=
    ⟨hcount, .inl (Int.le_of_lt hworkable.maxDepth)⟩
  exact compile_stated hworkable.bufferCapacity (legible_limits_load env imageCount) hsayable
    hlength

/-- A depth with blanks, a sign and an underscore, a capacity that is none, and a text whose second
image is missing. -/
theorem compile_load_cases_missing :
    let env : String → Option String := fun name =>
      if name = "IMFX_MAX_NESTING_DEPTH" then some " +1_0 "
      else if name = "IMFX_BUFFER_CAPACITY" then some "-3" else none
    let s := (load env).1
    s.maxDepth = 10 ∧ s.bufferCapacity = 1024 ∧ "0.pi(1)".length < Index.wordBound ∧
      ∃ r, (s.compile "0.pi(1)" (some 1)).1 = .error (.rejected r) ∧ r.Stated "0.pi(1)" := by
  intro env s
  have hlength : "0.pi(1)".length < Index.wordBound := by decide
  have hnot : (s.compile "0.pi(1)" (some 1)).1.toOption = none := by decide +kernel
  obtain ⟨-, hcompile⟩ := compile_load_cases env
  obtain ⟨e, hok⟩ | hrefused := hcompile "0.pi(1)" (some 1) hlength (by decide)
  · rw [show (s.compile "0.pi(1)" (some 1)).1 = .ok e from hok] at hnot
    cases hnot
  · exact ⟨by decide +kernel, by decide +kernel, hlength, hrefused⟩

/-- Without any variable set, a text is refused without words where the number of images is the
opposite of a number of 4301 digits. -/
theorem compile_load_long_count :
    let s := (load fun _ => none).1
    ∃ r, (s.compile "0" (some (-(10 ^ Numeral.longest : Nat)))).1 = .error (.rejected r) ∧
      r.describe = .error (.column .written) := by
  intro s
  have hpos : 0 < 10 ^ Numeral.longest := Nat.pow_pos (by decide)
  rw [compile_fst]
  refine describe_long_count rfl (by omega) ?_ (by decide +kernel)
  rw [Int.natAbs_neg, Int.natAbs_natCast]
  exact Numeral.longest_lt_length_decimal

end Settings

end Montage
