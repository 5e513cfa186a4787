import Montage.CommandLine.Arguments
import Montage.Proofs.Text.Lines

/-!
# Where the parts of a request come from

Going through the arguments cuts values and letters out of options, but the expression and the
images are arguments as they were given, and what has no place is one as well or the letters at the
end of one. That is an invariant of the draft, `Draft.From`, which each argument keeps. So a request
asks for nothing but arguments (`mem_of_ofArgs`), and a refusal shows nothing else as it is
(`shows_of_ofArgs`); names of options have no line ends.
-/

namespace Montage.CommandLine

open Text

variable {args : List String} {fault : UsageFault} {dialect : Dialect}

/-- A text that is an argument as it was given, or a dash and the end of an argument. -/
def Given (args : List String) (text : String) : Prop :=
  text ∈ args ∨ ∃ arg ∈ args, ∃ rest, rest <:+ arg.toList ∧ text = String.ofList ('-' :: rest)

/-- Arguments on one line give texts on one line. -/
theorem Given.isLine {text : String} (h : Given args text) (hargs : ∀ arg ∈ args, IsLine arg) :
    IsLine text := by
  obtain hmem | ⟨arg, harg, rest, hrest, rfl⟩ := h
  · exact hargs text hmem
  · have hline := hargs arg harg
    unfold IsLine at hline ⊢
    rw [String.toList_ofList, List.mem_cons, not_or]
    exact ⟨by decide, fun hmem => hline (hrest.subset hmem)⟩

/-- What a fault shows besides texts between quotes: texts that were given, and names on one
line. -/
def UsageFault.Shows (args : List String) : UsageFault → Prop
  | .ambiguous arg names => arg ∈ args ∧ ∀ name ∈ names, IsLine name
  | .missing names => ∀ name ∈ names, IsLine name
  | .unrecognized rest => ∀ text ∈ rest, Given args text
  | .expectedValue _ | .ignoredValue _ _ => True

/-! ## Telling arguments apart -/

/-- What stands behind the first equals sign of an argument is the end of the argument. -/
theorem suffix_of_cutAtEquals {arg : List Char} {a : Attached} (h : a ∈ (cutAtEquals arg).2) :
    a.value <:+ arg := by
  obtain ⟨value, hvalue, rfl⟩ := Option.map_eq_some_iff.1 h
  have hbehind := List.dropWhile_suffix (l := arg) (· != '=')
  cases hrest : arg.dropWhile (· != '=') with
  | nil =>
    rw [hrest] at hvalue
    cases hvalue
  | cons c rest =>
    rw [hrest] at hvalue hbehind
    obtain rfl := Option.some.inj hvalue
    exact (List.suffix_cons c rest).trans hbehind

/-- What an argument may stand for has its name in the table of the options, and its value at the
end of the argument. -/
theorem mem_table_of_candidates {arg : List Char} {found : Switch × String × Option Attached}
    (h : found ∈ candidates arg) :
    (found.2.1, found.1) ∈ Switch.table ∧ ∀ a ∈ found.2.2, a.value <:+ arg := by
  unfold candidates at h
  split at h
  · simp only [List.mem_map, List.mem_filter] at h
    obtain ⟨entry, ⟨hentry, -⟩, rfl⟩ := h
    exact ⟨hentry, fun a ha => suffix_of_cutAtEquals ha⟩
  · rw [List.mem_filterMap] at h
    obtain ⟨entry, hentry, hfound⟩ := h
    dsimp only at hfound
    split at hfound
    · cases hfound
      refine ⟨hentry, fun a ha => ?_⟩
      obtain rfl := Option.some.inj ha
      exact (List.suffix_cons _ _).trans (List.suffix_cons _ _)
    · split at hfound
      · cases hfound
        exact ⟨hentry, nofun⟩
      · cases hfound
  · cases h

/-- A piece whose value, if it has one, stands at the end of an argument. -/
def Piece.EndsIn (arg : String) : Piece → Prop
  | option _ _ attached => ∀ a ∈ attached, a.value <:+ arg.toList
  | _ => True

/-- The value of an option is the end of its argument. -/
theorem endsIn_of_classify {arg : String} {piece : Piece} (h : classify arg = .ok piece) :
    piece.EndsIn arg := by
  unfold classify at h
  dsimp only at h
  split at h
  · cases h
    trivial
  · split at h
    · cases h
      exact nofun
    · split at h
      · cases h
        trivial
      · split at h
        · rename_i hattached _
          cases h
          intro a ha
          obtain rfl := Option.some.inj ha
          exact suffix_of_cutAtEquals hattached
        · split at h
          · rename_i switch name attached hfound
            cases h
            have hmem : (switch, name, attached) ∈ candidates arg.toList := by
              rw [hfound]
              exact List.mem_singleton_self _
            exact (mem_table_of_candidates hmem).2
          · split at h <;> cases h <;> trivial
          · cases h

/-- An argument that is refused by itself is shown as it is. -/
theorem shows_of_classify {arg : String} (h : classify arg = .error fault) (harg : arg ∈ args) :
    fault.Shows args := by
  have hlines : ∀ entry ∈ Switch.table, IsLine entry.1 := by decide
  unfold classify at h
  dsimp only at h
  split at h
  · cases h
  · split at h
    · cases h
    · split at h
      · cases h
      · split at h
        · cases h
        · split at h
          · cases h
          · split at h <;> cases h
          · -- Several options may be meant; their names are those of the table.
            obtain rfl := Except.error.inj h
            refine ⟨harg, fun name hname => ?_⟩
            obtain ⟨found, hfound, rfl⟩ := List.mem_map.1 hname
            exact hlines _ (mem_table_of_candidates hfound).1

/-- Arguments that are told apart are still the same. Where they are not, one of them is shown. -/
theorem classifyAll_cases {given : List String} (hgiven : given ⊆ args) :
    (∃ pieces, classifyAll given = .ok pieces ∧
      ∀ piece ∈ pieces, piece.1 ∈ args ∧ piece.2.EndsIn piece.1) ∨
      ∃ fault : UsageFault, fault.Shows args ∧ classifyAll given = .error fault := by
  induction given with
  | nil => exact .inl ⟨[], rfl, List.forall_mem_nil _⟩
  | cons arg rest ih =>
    obtain ⟨harg, hrest⟩ := List.cons_subset.1 hgiven
    unfold classifyAll
    split
    · refine .inl ⟨_, rfl, List.forall_mem_cons.2 ⟨⟨harg, trivial⟩, fun piece hpiece => ?_⟩⟩
      obtain ⟨plain, hplain, rfl⟩ := List.mem_map.1 hpiece
      exact ⟨hrest hplain, trivial⟩
    · cases hclassify : classify arg with
      | error fault => exact .inr ⟨fault, shows_of_classify hclassify harg, rfl⟩
      | ok piece =>
        obtain ⟨pieces, hpieces, hall⟩ | ⟨fault, hshows, hfault⟩ := ih hrest
        · rw [hpieces]
          exact .inl ⟨(arg, piece) :: pieces, rfl,
            List.forall_mem_cons.2 ⟨⟨harg, endsIn_of_classify hclassify⟩, hall⟩⟩
        · rw [hfault]
          exact .inr ⟨fault, hshows, rfl⟩

/-! ## Going through the arguments -/

namespace Draft

variable {d d' : Draft}

/-- All that is known was taken from arguments. -/
structure From (args : List String) (d : Draft) : Prop where
  /-- The expression is an argument. -/
  expression : ∀ text ∈ d.expression, text ∈ args
  /-- The images are arguments. -/
  images : ∀ paths ∈ d.images, paths ⊆ args
  /-- The plain arguments since the last option are arguments. -/
  run : d.run.map (·.1) ⊆ args
  /-- What has no place was given. -/
  extras : ∀ text ∈ d.extras, Given args text

theorem from_start : Draft.start.From args :=
  ⟨nofun, nofun, nofun, List.forall_mem_nil _⟩

theorem From.takeImages (h : d.From args) {taken : List String} (htaken : taken ⊆ args) :
    (d.takeImages taken).From args := by
  refine ⟨h.expression, ?_, h.run, h.extras⟩
  rintro paths hpaths
  obtain rfl := Option.some.inj hpaths
  exact fun path hpath => htaken (List.mem_of_mem_erase hpath)

theorem From.takeExpression (h : d.From args) {taken : List String} (htaken : taken ⊆ args) :
    (d.takeExpression taken).From args := by
  refine ⟨?_, h.images, h.run, h.extras⟩
  intro text htext
  exact htaken (List.mem_of_mem_erase (List.mem_of_mem_head? htext))

theorem From.dropRun (h : d.From args) : Draft.From args { d with run := [] } :=
  ⟨h.expression, h.images, nofun, h.extras⟩

/-- A run that has no place is made of arguments. -/
theorem From.spare (h : d.From args) :
    Draft.From args { d with run := [], extras := d.extras ++ d.run.map (·.1) } :=
  ⟨h.expression, h.images, nofun,
    List.forall_mem_append.2 ⟨h.extras, fun _ htext => .inl (h.run htext)⟩⟩

theorem From.closeRun (h : d.From args) : d.closeRun.From args := by
  have htake (n : Nat) : (d.run.map (·.1)).take n ⊆ args := fun arg harg =>
    h.run (List.mem_of_mem_take harg)
  have hdrop (n : Nat) : (d.run.map (·.1)).drop n ⊆ args := fun arg harg =>
    h.run (List.mem_of_mem_drop harg)
  unfold Draft.closeRun
  dsimp only
  split
  · split
    · exact h.spare
    · split
      · exact h.dropRun.takeExpression h.run
      · exact (h.dropRun.takeExpression (htake _)).takeImages (hdrop _)
  · split
    · exact h.spare
    · exact h.dropRun.takeImages h.run
  · exact h.spare

theorem From.set (h : d.From args) (s : Switch) : (d.set s).From args := by
  cases s <;> exact ⟨h.expression, h.images, h.run, h.extras⟩

theorem From.keepLog (h : d.From args) (name : String) : (d.keepLog dialect name).From args :=
  ⟨h.expression, h.images, h.run, h.extras⟩

/-- A draft that was taken from arguments, or a refusal that shows them. -/
def Drawn (args : List String) : Except UsageFault Draft → Prop
  | .ok d => d.From args
  | .error fault => fault.Shows args

/-- The letters behind a short option are the end of an argument. -/
theorem From.setShort (h : d.From args) (s : Switch) {arg : String} (harg : arg ∈ args)
    {letters : List Char} (hletters : letters <:+ arg.toList) :
    Drawn args (d.setShort dialect s letters) := by
  induction letters generalizing d s with
  | nil => exact h.set s
  | cons c rest ih =>
    unfold Draft.setShort
    cases Switch.ofName? (String.ofList ['-', c]) with
    | none =>
      dsimp only
      split
      · have hset := h.set s
        have hextras : ∀ text ∈ d.extras, Given args text := h.extras
        exact ⟨hset.expression, hset.images, hset.run, List.forall_mem_append.2
          ⟨hextras, List.forall_mem_singleton.2 (.inr ⟨arg, harg, c :: rest, hletters, rfl⟩)⟩⟩
      · trivial
    | some next =>
      dsimp only
      split
      · trivial
      · exact ih (h.set s) next ((List.suffix_cons c rest).trans hletters)

theorem From.takeOption (h : d.From args) (s : Switch) (name : String) {arg : String}
    (harg : arg ∈ args) {attached : Option Attached}
    (hattached : ∀ a ∈ attached, a.value <:+ arg.toList) :
    Drawn args (d.takeOption dialect s name attached) := by
  unfold Draft.takeOption
  cases attached with
  | none =>
    dsimp only
    split
    · exact ⟨h.expression, h.images, h.run, h.extras⟩
    · exact h.set s
  | some a =>
    dsimp only
    split
    · exact h.keepLog _
    · split
      · trivial
      · exact h.setShort s harg (hattached a rfl)

/-- A plain argument joins the run. -/
theorem From.join (h : d.From args) {arg : String} (harg : arg ∈ args) (ends : Bool) :
    Draft.From args { d with run := d.run ++ [(arg, ends)] } := by
  refine ⟨h.expression, h.images, ?_, h.extras⟩
  rw [List.map_append]
  exact List.append_subset.2 ⟨h.run, List.cons_subset.2 ⟨harg, List.nil_subset _⟩⟩

/-- One argument after another. -/
theorem From.take (h : d.From args) {piece : String × Piece}
    (hpiece : piece.1 ∈ args ∧ piece.2.EndsIn piece.1) : Drawn args (d.take dialect piece) := by
  obtain ⟨arg, piece⟩ := piece
  unfold Draft.take
  dsimp only
  split
  · exact h
  · split
    · cases piece with
      | plain => exact h.keepLog arg
      | terminator | option | unknown => trivial
    · cases piece with
      | plain => exact h.join hpiece.1 false
      | terminator => exact h.join hpiece.1 true
      | option s name attached => exact h.closeRun.takeOption s name hpiece.1 hpiece.2
      | unknown =>
        have hclosed := h.closeRun
        exact ⟨hclosed.expression, hclosed.images, hclosed.run, List.forall_mem_append.2
          ⟨hclosed.extras, List.forall_mem_singleton.2 (.inl hpiece.1)⟩⟩

/-- All arguments in order. -/
theorem From.foldlM (h : d.From args) {pieces : List (String × Piece)}
    (hpieces : ∀ piece ∈ pieces, piece.1 ∈ args ∧ piece.2.EndsIn piece.1) :
    Drawn args (pieces.foldlM (Draft.take dialect) d) := by
  induction pieces generalizing d with
  | nil => exact h
  | cons piece pieces ih =>
    have htake : Drawn args (d.take dialect piece) := h.take (hpieces piece List.mem_cons_self)
    rw [List.foldlM_cons]
    cases hd : d.take dialect piece with
    | error fault =>
      rw [hd] at htake
      exact htake
    | ok d' =>
      rw [hd] at htake
      exact ih htake fun piece hpiece => hpieces piece (List.mem_cons_of_mem _ hpiece)

end Draft

/-! ## The request -/

/-- What is asked for is settled by a draft that was taken from the arguments, unless these are
refused before. -/
theorem ofArgs_cases (dialect : Dialect) (args : List String) :
    (∃ d : Draft, d.From args ∧ Request.ofArgs dialect args = d.finish) ∨
      ∃ fault : UsageFault, fault.Shows args ∧ Request.ofArgs dialect args = .error fault := by
  unfold Request.ofArgs
  obtain ⟨pieces, hclassify, hpieces⟩ | ⟨fault, hshows, hfault⟩ :=
    classifyAll_cases (List.Subset.refl args)
  · have hdrawn : Draft.Drawn args (pieces.foldlM (Draft.take dialect) .start) :=
      Draft.from_start.foldlM hpieces
    rw [hclassify]
    cases hd : pieces.foldlM (Draft.take dialect) .start with
    | error fault =>
      rw [hd] at hdrawn
      exact .inr ⟨fault, hdrawn, by simp [hd, bind, Except.bind]⟩
    | ok d =>
      rw [hd] at hdrawn
      exact .inl ⟨d, hdrawn, by simp [hd, bind, Except.bind]⟩
  · rw [hfault]
    exact .inr ⟨fault, hshows, rfl⟩

namespace Draft

variable {d : Draft}

/-- The names of what is missing are on one line. -/
theorem isLine_of_missing {name : String} (h : name ∈ d.missing) : IsLine name := by
  have hlines : ∀ name ∈ ["expression", "image"], IsLine name := by decide
  unfold missing at h
  refine hlines name ?_
  split at h <;> split at h <;> simp_all

/-- A draft is refused by showing nothing but texts that were given, and names on one line. -/
theorem From.shows_of_finish (h : d.From args) (hfinish : d.finish = .error fault) :
    fault.Shows args := by
  unfold finish at hfinish
  split at hfinish
  · cases hfinish
  · split at hfinish
    · obtain rfl := Except.error.inj hfinish
      trivial
    · dsimp only at hfinish
      split at hfinish
      · split at hfinish
        · cases hfinish
        · obtain rfl := Except.error.inj hfinish
          exact h.closeRun.extras
      · obtain rfl := Except.error.inj hfinish
        exact fun name hname => isLine_of_missing hname

/-- A draft asks for an expression and images that are arguments. -/
theorem From.mem_of_finish (h : d.From args) {expression : String} {images : List String}
    {verbose tree : Bool} {logFile : Option String}
    (hfinish : d.finish = .ok (.compose expression images verbose tree logFile)) :
    expression ∈ args ∧ images ⊆ args := by
  unfold finish at hfinish
  split at hfinish
  · cases hfinish
  · split at hfinish
    · cases hfinish
    · dsimp only at hfinish
      split at hfinish
      · rename_i hexpression himages
        split at hfinish
        · cases hfinish
          exact ⟨h.closeRun.expression _ hexpression, h.closeRun.images _ himages⟩
        · cases hfinish
      · cases hfinish

end Draft

/-- A refusal shows nothing but texts that were given, and names on one line. -/
theorem shows_of_ofArgs (h : Request.ofArgs dialect args = .error fault) : fault.Shows args := by
  obtain ⟨d, hd, hfinish⟩ | ⟨fault', hshows, hfault⟩ := ofArgs_cases dialect args
  · exact hd.shows_of_finish (hfinish.symm.trans h)
  · obtain rfl := Except.error.inj (hfault.symm.trans h)
    exact hshows

/-- A request asks for an expression and images that are arguments. -/
theorem mem_of_ofArgs {expression : String} {images : List String} {verbose tree : Bool}
    {logFile : Option String}
    (h : Request.ofArgs dialect args = .ok (.compose expression images verbose tree logFile)) :
    expression ∈ args ∧ images ⊆ args := by
  obtain ⟨d, hd, hfinish⟩ | ⟨fault, -, hfault⟩ := ofArgs_cases dialect args
  · exact hd.mem_of_finish (hfinish.symm.trans h)
  · cases hfault.symm.trans h

end Montage.CommandLine
