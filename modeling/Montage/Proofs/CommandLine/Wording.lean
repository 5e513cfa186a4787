import Montage.CommandLine.Run
import Montage.Proofs.CommandLine.Taken
import Montage.Proofs.Expression.Soundness
import Montage.Proofs.Picture.Tree
import Montage.Proofs.Text.Lines

/-!
# Faults in words

The words for a fault have no line end of their own. Numbers and names have none, and most of what
was given by the user is put between quotes. Only an expression, the path of an image, arguments
that are not understood, and the reasons that a decoder or a device gives are shown as they are
(`RunFault.verbatim`), and with them whatever line ends they have. So a fault takes one line exactly
where all of these are on one line; `RunFault.Worded` says so of a fault, and the lemmas show it for
each kind that is reported. What a console shows is one such line only if nothing but a fault is
shown (`isDiagnosticLine_shown_iff`).
-/

namespace Montage

open Text

/-! ## Expressions -/

namespace Rejection

variable {r : Rejection} {text detail : String}

theorem isLine_of_shown {n : Int} (h : shown n = .ok text) : IsLine text := by
  unfold shown Numeral.written at h
  split at h
  · obtain rfl := Except.ok.inj h
    exact isLine_int n
  · cases h

/-- The description of an offset shows at most one character of the text. -/
theorem isLine_of_locate {cs : List Char} {offset : Int} (hcs : '\n' ∉ cs)
    (h : locate cs offset = .ok detail) : IsLine detail := by
  unfold locate at h
  cases hcolumn : column offset with
  | error fault =>
    rw [hcolumn] at h
    split at h
    · cases h
    · split at h <;> cases h
  | ok shownColumn =>
    have hline : IsLine shownColumn := isLine_of_shown hcolumn
    rw [hcolumn] at h
    split at h
    · obtain rfl := Except.ok.inj h
      exact isLine_append.2 ⟨by decide, hline⟩
    · split at h
      · cases h
      · rename_i place _
        obtain rfl := Except.ok.inj h
        have hchar : cs[place] ≠ '\n' := fun heq => hcs (heq ▸ List.getElem_mem _)
        simp only [isLine_append, isLine_char]
        exact ⟨⟨⟨by decide, hchar⟩, by decide⟩, hline⟩

/-- The words of a note are on one line. -/
def Plain (note : List Piece) : Prop :=
  ∀ text, .words text ∈ note → IsLine text

/-- A note is on one line if its words are, since its numbers are. -/
theorem isLine_of_wording {note : List Piece} (hplain : Plain note)
    (h : wording note = .ok detail) : IsLine detail := by
  induction note generalizing detail with
  | nil =>
    obtain rfl := Except.ok.inj h
    exact show IsLine "" by decide
  | cons piece rest ih =>
    have hrest : Plain rest := fun text htext => hplain text (List.mem_cons_of_mem _ htext)
    have hbehind {text : String} (htext : IsLine text)
        (h : (wording rest).map (text ++ ·) = .ok detail) : IsLine detail := by
      cases hwording : wording rest with
      | error fault =>
        rw [hwording] at h
        cases h
      | ok behind =>
        rw [hwording] at h
        obtain rfl := Except.ok.inj h
        exact isLine_append.2 ⟨htext, ih hrest hwording⟩
    cases piece with
    | words text => exact hbehind (hplain text List.mem_cons_self) h
    | number n =>
      cases hshown : shown n with
      | error fault =>
        rw [wording, hshown] at h
        cases h
      | ok text =>
        rw [wording, hshown] at h
        exact hbehind (isLine_of_shown hshown) h

/-- What is wrong is said on one line, if the text and the note are on one line. -/
theorem isLine_detail (htext : IsLine r.expression) (hnote : Plain r.note) : IsLine r.detail := by
  unfold detail
  cases hdescribe : r.describe with
  | error fault => exact show IsLine "" by decide
  | ok detail =>
    unfold describe at hdescribe
    split at hdescribe
    · exact isLine_of_locate htext hdescribe
    · exact isLine_of_wording hnote hdescribe

/-- A rejection shows its text as it is, and nothing else that has a line end. -/
theorem isLine_message_iff (hnote : Plain r.note) : IsLine r.message ↔ IsLine r.expression := by
  unfold message
  dsimp only
  have hstart : IsLine "illegal expression '" := by decide
  have hend : IsLine "'" := by decide
  have hcolon : IsLine ": " := by decide
  split
  · simp only [isLine_append, hstart, hend, and_true, true_and]
  · simp only [isLine_append, hstart, hend, hcolon, and_true, true_and]
    exact ⟨And.left, fun h => ⟨h, isLine_detail h hnote⟩⟩

end Rejection

/-- The note of a rejection has no line ends. -/
theorem Task.plain_note (t : Task) (capacity place : Nat) (kind : Rejection.Kind) :
    Rejection.Plain (t.rejection capacity place kind).note := by
  intro text htext
  cases kind with
  | ungrammatical => cases htext
  | tooLong =>
    have hwords : .words text ∈ [Rejection.Piece.words (Buffer.overflow capacity)] := htext
    rw [List.mem_singleton, Rejection.Piece.words.injEq] at hwords
    rw [hwords]
    unfold Buffer.overflow
    simp only [isLine_append, isLine_int]
    decide
  | tooDeep =>
    simp only [rejection, Rejection.tooDeep, List.mem_cons, Rejection.Piece.words.injEq,
      List.not_mem_nil, reduceCtorEq, or_false, false_or] at htext
    rcases htext with rfl | rfl <;> decide
  | numberTooLarge =>
    simp only [rejection, Rejection.numberTooLarge, List.mem_cons, Rejection.Piece.words.injEq,
      List.not_mem_nil, reduceCtorEq, or_false, false_or] at htext
    rcases htext with rfl | rfl <;> decide
  | indexOutOfRange index count =>
    simp only [rejection, Rejection.indexOutOfRange, List.mem_cons, Rejection.Piece.words.injEq,
      List.not_mem_nil, reduceCtorEq, or_false, false_or] at htext
    rcases htext with rfl | rfl | rfl | rfl
    · decide
    · decide
    · decide
    · split <;> decide

/-! ## Files and rasters -/

/-- The path of a file is quoted in a reason. -/
theorem PathFault.isLine_reason (path : String) (fault : PathFault) :
    IsLine (fault.reason path) := by
  cases fault with
  | missing => exact show IsLine "no such file" by decide
  | nullCharacter => exact show IsLine "embedded null byte" by decide
  | throughFile | isFolder | tooLong => exact isLine_append.2 ⟨by decide, isLine_quote path⟩

/-- A reason for which an image file in a folder cannot be decoded. -/
def Folder.Tells (f : Folder) (reason : String) : Prop :=
  ∃ remarks, f.Holds remarks (.refused reason)

namespace LoadFault

/-- The texts that a fault shows as they are: the path, and the reason why a file cannot be
decoded. -/
def verbatim : LoadFault → List String
  | unreachable path _ => [path]
  | noImage path => [path]
  | undecodable path reason => [path, reason]
  | broken _ => []

/-- Whether there is an image but the library breaks off. -/
def IsBroken (fault : LoadFault) : Prop :=
  ∃ message, fault = broken message

/-- A fault is on one line exactly where the texts that it shows are. -/
theorem isLine_message_iff {fault : LoadFault} (h : ¬ fault.IsBroken) :
    IsLine fault.message ↔ ∀ text ∈ fault.verbatim, IsLine text := by
  have habout (path reason : String) :
      IsLine (message.about path reason) ↔ IsLine path ∧ IsLine reason := by
    have hstart : IsLine "cannot decode image '" := by decide
    have hbetween : IsLine "': " := by decide
    unfold message.about
    simp only [isLine_append, hstart, hbetween, true_and, and_true]
  cases fault with
  | unreachable path fault =>
    rw [message, habout, and_iff_left (PathFault.isLine_reason path fault)]
    exact List.forall_mem_singleton.symm
  | noImage path =>
    have hreason : IsLine ("cannot identify image file " ++ Text.quote path) :=
      isLine_append.2 ⟨by decide, isLine_quote path⟩
    rw [message, habout, and_iff_left hreason]
    exact List.forall_mem_singleton.symm
  | undecodable path reason =>
    rw [message, habout, verbatim, List.forall_mem_cons, List.forall_mem_singleton]
  | broken message => exact absurd ⟨message, rfl⟩ h

end LoadFault

/-- The path of an image that cannot be read is shown, and perhaps a reason that its file gives. -/
theorem Folder.verbatim_of_load {files : Folder} {path : String} {fault : LoadFault}
    (h : (files.load path).2 = .error fault) :
    ∀ text ∈ fault.verbatim, text = path ∨ files.Tells text := by
  obtain ⟨remarks, decoding, hholds, hload⟩ | ⟨reason, hload⟩ | hload := files.load_cases path
  · rw [hload] at h
    cases decoding with
    | done decoded => cases h
    | refused reason =>
      obtain rfl := Except.error.inj h
      exact List.forall_mem_cons.2 ⟨.inl rfl, List.forall_mem_singleton.2 (.inr ⟨remarks, hholds⟩)⟩
    | broken message =>
      obtain rfl := Except.error.inj h
      exact List.forall_mem_nil _
  · rw [hload] at h
    obtain rfl := Except.error.inj h
    exact List.forall_mem_singleton.2 (.inl rfl)
  · rw [hload] at h
    obtain rfl := Except.error.inj h
    exact List.forall_mem_singleton.2 (.inl rfl)

/-- A raster has one of the modes that the standard format has, or it has no mode. -/
theorem exists_encodeAs_png [Imaging] {channels : Option Nat} {mode : ImageFile.Mode} (r : Raster)
    (hmode : ImageFile.Mode.ofChannels? channels = some mode) :
    ∃ image, encodeAs "PNG" mode r = .ok image := by
  have hname : "PNG" ∈ ["PNG", "TIFF", "BMP"] := by decide
  obtain ⟨codec, hcodec, -, hmodes⟩ := Imaging.exists_codec? hname
  have hknown : mode ∈ [.grey, .greyAlpha, .rgb, .rgba] := by
    unfold ImageFile.Mode.ofChannels? at hmode
    split at hmode <;> cases hmode <;> decide
  have hmode : codec.modes.contains mode = true :=
    List.contains_iff_mem.2 ((hmodes mode hknown).2 fun h => absurd h.2 (by decide))
  unfold encodeAs
  rw [if_neg (by decide), hcodec]
  dsimp only
  rw [if_pos hmode]
  exact ⟨_, rfl⟩

/-- The words for a raster that cannot be written in the standard format. -/
theorem isLine_of_encode [Imaging] {r : Raster} {fault : EncodeFault}
    (h : r.encode losslessFormats "PNG" = .error fault) : IsLine fault.message := by
  have hformat : Text.uppercase "PNG" = "PNG" := by decide
  unfold Raster.encode at h
  dsimp only at h
  rw [hformat, if_neg (by decide)] at h
  split at h
  · obtain rfl := Except.error.inj h
    have hshape : IsLine (", ".intercalate ([1, 1, r.depth].map toString)) := by
      rw [isLine_intercalate (by decide)]
      intro part hpart
      obtain ⟨n, -, rfl⟩ := List.mem_map.1 hpart
      exact isLine_nat n
    show IsLine ("cannot encode image as " ++ "PNG" ++ ": " ++ ("Cannot handle this data type: " ++
      ("(" ++ ", ".intercalate ([1, 1, r.depth].map toString) ++ ")") ++ ", |u1"))
    simp only [isLine_append, hshape]
    decide
  · rename_i mode hmode
    obtain ⟨image, himage⟩ := exists_encodeAs_png r hmode
    rw [himage] at h
    dsimp only at h
    split at h
    · obtain rfl := Except.error.inj h
      exact show IsLine "cannot encode image as PNG: cannot write empty image" by decide
    · cases h

namespace CommandLine

variable {args : List String} {P : String → Prop}

/-! ## Arguments -/

/-- The names of an option are on one line. -/
theorem Switch.isLine_label (s : Switch) : IsLine s.label := by
  cases s <;> decide

namespace UsageFault

/-- The texts that a refusal shows as they were given. -/
def verbatim : UsageFault → List String
  | ambiguous arg _ => [arg]
  | unrecognized rest => rest
  | _ => []

/-- What a refusal shows as it was given was given. -/
theorem Shows.given {fault : UsageFault} (h : fault.Shows args) :
    ∀ text ∈ fault.verbatim, Given args text := by
  cases fault with
  | ambiguous arg names => exact List.forall_mem_singleton.2 (.inl h.1)
  | unrecognized rest => exact h
  | expectedValue | ignoredValue | missing => exact List.forall_mem_nil _

/-- A refusal is on one line exactly where the texts that it shows are. -/
theorem Shows.isLine_message_iff {fault : UsageFault} (h : fault.Shows args) :
    IsLine fault.message ↔ ∀ text ∈ fault.verbatim, IsLine text := by
  have hcomma : IsLine ", " := by decide
  have hargument : IsLine "argument " := by decide
  cases fault with
  | ambiguous arg names =>
    show IsLine ("ambiguous option: " ++ arg ++ " could match " ++ ", ".intercalate names) ↔
      ∀ text ∈ [arg], IsLine text
    have hnames := (isLine_intercalate hcomma).2 h.2
    have hbefore : IsLine "ambiguous option: " := by decide
    have hbetween : IsLine " could match " := by decide
    simp only [isLine_append, hbefore, hbetween, hnames, true_and, and_true,
      List.forall_mem_singleton]
  | unrecognized rest =>
    show IsLine ("unrecognized arguments: " ++ " ".intercalate rest) ↔ ∀ text ∈ rest, IsLine text
    have hblank : IsLine " " := by decide
    have hbefore : IsLine "unrecognized arguments: " := by decide
    simp only [isLine_append, hbefore, true_and, isLine_intercalate hblank]
  | expectedValue s =>
    refine iff_of_true ?_ (List.forall_mem_nil _)
    show IsLine ("argument " ++ s.label ++ ": expected one argument")
    exact isLine_append.2 ⟨isLine_append.2 ⟨hargument, s.isLine_label⟩, by decide⟩
  | ignoredValue s value =>
    refine iff_of_true ?_ (List.forall_mem_nil _)
    show IsLine ("argument " ++ s.label ++ ": ignored explicit argument " ++ Text.quote value)
    simp only [isLine_append]
    exact ⟨⟨⟨hargument, s.isLine_label⟩, by decide⟩, isLine_quote value⟩
  | missing names =>
    refine iff_of_true ?_ (List.forall_mem_nil _)
    show IsLine ("the following arguments are required: " ++ ", ".intercalate names)
    exact isLine_append.2 ⟨by decide, (isLine_intercalate hcomma).2 h⟩

end UsageFault

/-! ## Runs -/

namespace RunFault

/-- The texts that a fault shows as they are. -/
def verbatim : RunFault → List String
  | usage fault => fault.verbatim
  | composition (.compile (.rejected r)) => [r.expression]
  | composition (.load fault) => fault.verbatim
  | output (.refused fault) => [fault.reason]
  | _ => []

/-- A fault shows only certain texts as they are, and if it is reported, its words are on one line
exactly where these are. -/
structure Worded (P : String → Prop) (fault : RunFault) : Prop where
  /-- What is shown as it is. -/
  verbatim : ∀ text ∈ fault.verbatim, P text
  /-- The words have no line end of their own. -/
  isLine_iff : fault.isReported = true →
    (IsLine fault.message ↔ ∀ text ∈ fault.verbatim, IsLine text)

/-- The words for a refusal of the arguments. -/
theorem worded_usage {fault : UsageFault} (h : fault.Shows args)
    (hgiven : ∀ text, Given args text → P text) : (usage fault).Worded P := by
  refine ⟨fun text htext => hgiven text (h.given text htext), fun _ => ?_⟩
  have hstart : IsLine "error: " := by decide
  have hend : IsLine " (usage: imfx <expression> <image>...)" := by decide
  show IsLine ("error: " ++ fault.message ++ " (usage: imfx <expression> <image>...)") ↔
    ∀ text ∈ fault.verbatim, IsLine text
  simp only [isLine_append, hstart, hend, true_and, and_true, h.isLine_message_iff]

/-- The words for a text that is not compiled. -/
theorem worded_compile {r : Rejection} (hexpression : P r.expression)
    (hnote : Rejection.Plain r.note) : (composition (.compile (.rejected r))).Worded P := by
  refine ⟨List.forall_mem_singleton.2 hexpression, fun hreported => ?_⟩
  have hdescribe : r.describe.isOk = true := hreported
  have hmessage : (Fault.rejected r).message = r.message := by
    cases h : r.describe with
    | ok detail => simp only [Fault.message, h]
    | error fault =>
      rw [h] at hdescribe
      cases hdescribe
  show IsLine (Fault.rejected r).message ↔ ∀ text ∈ [r.expression], IsLine text
  rw [hmessage, List.forall_mem_singleton, Rejection.isLine_message_iff hnote]

/-- The words for an image that cannot be read. -/
theorem worded_load {fault : LoadFault} (h : ∀ text ∈ fault.verbatim, P text) :
    (composition (.load fault)).Worded P := by
  refine ⟨h, fun hreported => ?_⟩
  have hread : ¬ fault.IsBroken := by
    rintro ⟨message, rfl⟩
    cases hreported
  exact LoadFault.isLine_message_iff hread

/-- The words for a picture that is too large. The other faults of an evaluation are not
reported. -/
theorem worded_evaluate (fault : EvalFault Raster.Fault) :
    (composition (.evaluate fault)).Worded P := by
  refine ⟨List.forall_mem_nil _, fun hreported => iff_of_true ?_ (List.forall_mem_nil _)⟩
  cases fault with
  | words => cases hreported
  | operation error =>
    cases error with
    | tooLarge width height limit =>
      show IsLine s!"result of {width}x{height} pixels exceeds the limit of {limit} pixels"
      simp only [isLine_append, isLine_int]
      decide
    | factor | sigma | divisionByZero | quotientTooLarge | strengthTooLarge | infiniteSize
    | radiusNotANumber | shape => cases hreported

/-- The words for a result that cannot be encoded. -/
theorem worded_encode {fault : EncodeFault} (h : IsLine fault.message) :
    (composition (.encode fault)).Worded P :=
  ⟨List.forall_mem_nil _, fun _ => iff_of_true h (List.forall_mem_nil _)⟩

/-- The words for a result that is refused. -/
theorem worded_refused {fault : DeviceFault} (h : P fault.reason) :
    (output (.refused fault)).Worded P := by
  refine ⟨List.forall_mem_singleton.2 h, fun _ => ?_⟩
  have hstart : IsLine "cannot write result: " := by decide
  show IsLine ("cannot write result: " ++ fault.reason) ↔ ∀ text ∈ [fault.reason], IsLine text
  simp only [isLine_append, hstart, true_and, List.forall_mem_singleton]

/-- A fault that is not reported and shows nothing as it is. -/
theorem worded_of_not_reported {fault : RunFault} (hreported : fault.isReported = false)
    (hverbatim : fault.verbatim = []) : fault.Worded P := by
  refine ⟨?_, fun h => ?_⟩
  · rw [hverbatim]
    exact List.forall_mem_nil _
  · rw [hreported] at h
    cases h

end RunFault

/-! ## Lines on the console -/

/-- A text that is one line, which names the program first. -/
def IsDiagnosticLine (text : String) : Prop :=
  ∃ line, IsLine line ∧ text = "imfx: " ++ line ++ "\n"

/-- What follows the name of the program is the line, without its end. -/
theorem isDiagnosticLine_append {line : String} :
    IsDiagnosticLine ("imfx: " ++ line ++ "\n") ↔ IsLine line := by
  refine ⟨?_, fun h => ⟨line, h, rfl⟩⟩
  rintro ⟨other, hother, heq⟩
  rw [String.append_left_inj, String.append_right_inj] at heq
  rwa [heq]

/-- A run that breaks off leaves no such line. -/
theorem not_isDiagnosticLine_trace (fault : RunFault) : ¬ IsDiagnosticLine fault.trace := by
  rintro ⟨line, -, heq⟩
  have hfirst := congrArg (fun text : String => text.toList.head?) heq
  unfold RunFault.trace at hfirst
  simp at hfirst

/-- The console shows a fault as one such line exactly if the fault is reported, and its words are
on one line. -/
theorem isDiagnosticLine_diagnostic_iff (fault : RunFault) :
    IsDiagnosticLine fault.diagnostic ↔ fault.isReported = true ∧ IsLine fault.message := by
  unfold RunFault.diagnostic
  split
  · rename_i hreported
    rw [isDiagnosticLine_append]
    exact ⟨fun h => ⟨hreported, h⟩, And.right⟩
  · rename_i hreported
    exact ⟨fun h => absurd h (not_isDiagnosticLine_trace fault), fun h => absurd h.1 hreported⟩

/-- The number of line ends in a text. -/
def lineEnds (text : String) : Nat :=
  text.toList.count '\n'

@[simp]
theorem lineEnds_append (s t : String) : lineEnds (s ++ t) = lineEnds s + lineEnds t := by
  unfold lineEnds
  rw [String.toList_append, List.count_append]

/-- A text has the line ends of all its parts. -/
theorem lineEnds_le_join {part : String} {parts : List String} (h : part ∈ parts) :
    lineEnds part ≤ lineEnds (String.join parts) := by
  induction parts with
  | nil => cases h
  | cons first rest ih =>
    rw [String.join_cons, lineEnds_append]
    obtain rfl | hrest := List.mem_cons.1 h
    · exact Nat.le_add_right _ _
    · exact Nat.le_trans (ih hrest) (Nat.le_add_left _ _)

theorem lineEnds_of_isDiagnosticLine {text : String} (h : IsDiagnosticLine text) :
    lineEnds text = 1 := by
  obtain ⟨line, hline, rfl⟩ := h
  have hnone : lineEnds line = 0 := List.count_eq_zero.2 hline
  have hstart : lineEnds "imfx: " = 0 := by decide
  have hend : lineEnds "\n" = 1 := by decide
  rw [lineEnds_append, lineEnds_append, hnone, hstart, hend]

/-- A fault ends its line. -/
theorem one_le_lineEnds_diagnostic (fault : RunFault) : 1 ≤ lineEnds fault.diagnostic := by
  have hend : lineEnds "\n" = 1 := by decide
  unfold RunFault.diagnostic RunFault.trace
  split
  · rw [lineEnds_append, hend]
    exact Nat.le_add_left _ _
  · rw [lineEnds_append, hend]
    exact Nat.le_add_left _ _

/-- A report of bytes that were refused when the run was over takes two lines. -/
theorem two_le_lineEnds_notice (fault : DeviceFault) : 2 ≤ lineEnds fault.notice := by
  have hfirst : lineEnds
      "Exception ignored in: <_io.TextIOWrapper name='<stdout>' mode='w' encoding='utf-8'>\n"
        = 1 := by
    decide
  have hend : lineEnds "\n" = 1 := by decide
  unfold DeviceFault.notice
  simp only [lineEnds_append, hfirst, hend]
  omega

/-- What a console shows: remarks, a fault, and the reports of bytes that were refused when the run
was over. -/
def shown (remarks : List String) (fault : Option RunFault) (lost : List DeviceFault) : String :=
  String.join (remarks.map (· ++ "\n")) ++ (fault.map RunFault.diagnostic).getD "" ++
    String.join (lost.map DeviceFault.notice)

/-- That is one line that names the program first only where a fault is shown and nothing else, and
the fault is reported in words on one line. -/
theorem isDiagnosticLine_shown_iff {remarks : List String} {fault : Option RunFault}
    {lost : List DeviceFault} (hfailed : fault = none → lost ≠ []) :
    IsDiagnosticLine (shown remarks fault lost) ↔ remarks = [] ∧ lost = [] ∧
      ∃ reported, fault = some reported ∧ reported.isReported = true ∧ IsLine reported.message := by
  constructor
  · intro hline
    have hends := lineEnds_of_isDiagnosticLine hline
    unfold shown at hends
    rw [lineEnds_append, lineEnds_append] at hends
    have hlost : lost = [] := by
      refine List.eq_nil_iff_forall_not_mem.2 fun refused hrefused => ?_
      have htwo := two_le_lineEnds_notice refused
      have hle := lineEnds_le_join (List.mem_map_of_mem (f := DeviceFault.notice) hrefused)
      omega
    obtain ⟨reported, rfl⟩ : ∃ reported, fault = some reported :=
      Option.ne_none_iff_exists'.1 fun hnone => hfailed hnone hlost
    have hremarks : remarks = [] := by
      refine List.eq_nil_iff_forall_not_mem.2 fun remark hremark => ?_
      have hone := one_le_lineEnds_diagnostic reported
      have hle := lineEnds_le_join (List.mem_map_of_mem (f := (· ++ "\n")) hremark)
      have hend : lineEnds "\n" = 1 := by decide
      rw [lineEnds_append, hend] at hle
      simp only [Option.map_some, Option.getD_some] at hends
      omega
    subst hremarks hlost
    refine ⟨rfl, rfl, reported, rfl, (isDiagnosticLine_diagnostic_iff reported).1 ?_⟩
    simpa [shown] using hline
  · rintro ⟨rfl, rfl, reported, rfl, hreported⟩
    simpa [shown] using (isDiagnosticLine_diagnostic_iff reported).2 hreported

end CommandLine

end Montage
