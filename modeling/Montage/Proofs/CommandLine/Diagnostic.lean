import Montage.Imaging.Standard
import Montage.Proofs.CommandLine.Silence
import Montage.Proofs.CommandLine.Wording
import Montage.Proofs.Evaluation.Safety
import Montage.Proofs.Expression.Refusal
import Montage.Proofs.Expression.Room
import Montage.Proofs.Raster.Target

/-!
# What a failing run prints

A run that is asked neither for the records of all single steps nor for the drawing of the
expression, and fails, prints the remarks on its image files, what its fault shows on the console,
and what is said of bytes that were refused when it was over. That is one line where there are no
remarks, no such bytes, the fault is reported, and the texts that it shows as they were given are on
one line. A line end in an expression, in the path of an image or in an argument that is not
understood breaks the line. Where the images have moderate sizes, only the surroundings of a run can
break it off: a file for the records that cannot be made, an output that is missing or does not take
the help, and a library that breaks off (`run_diagnostic`).
-/

namespace Montage

open Text

/-! ## Compiling -/

/-- A text that is not compiled within the standard settings is refused. The words of the refusal
are on one line, and it is described if indexes reach the text. -/
theorem exists_rejection_of_standard {text : String} {count : Nat} {fault : Fault}
    (h : (Settings.standard.compile text (some (count : Int))).1 = .error fault) :
    ∃ r, fault = .rejected r ∧ r.expression = text ∧ Rejection.Plain r.note ∧
      (text.length < Index.wordBound → ∃ detail, r.describe = .ok detail) := by
  have hcapacity : 1 ≤ Settings.standard.bufferCapacity := by decide
  have hlegible : (Settings.standard.limits (some (count : Int))).Legible :=
    Settings.legible_limits_load (fun _ => none) _
  rw [Settings.compile_fst] at h
  obtain ⟨kind, place, rfl⟩ :=
    exists_kind_of_compile (t := ⟨text, _⟩) hcapacity hlegible h
  refine ⟨_, rfl, (Task.rejection_names kind).1, Task.plain_note _ _ _ kind, fun hlength => ?_⟩
  have hdepth : 0 ≤ Settings.standard.maxDepth := by decide
  have hsayable : (Settings.standard.limits (some (count : Int))).Sayable := by
    refine ⟨fun given hgiven => .inl ?_, .inl hdepth⟩
    rw [← Option.some.inj hgiven]
    exact Int.natCast_nonneg count
  obtain ⟨encoded, hencoded⟩ | ⟨r, hr, hstated⟩ :=
    compile_stated (t := ⟨text, _⟩) hcapacity hlegible hsayable hlength
  · cases hencoded.symm.trans h
  · obtain rfl := Fault.rejected.inj (Except.error.inj (hr.symm.trans h))
    exact hstated.describe

/-! ## Reading images -/

/-- Images that are not all read fail at one of their paths. -/
theorem exists_of_loadAll {files : Folder} {printed : List String} {index : Nat}
    {paths : List String} {fault : LoadFault}
    (h : (loadAll files printed index paths).result = .error fault) :
    ∃ path ∈ paths, (files.load path).2 = .error fault := by
  induction paths generalizing printed index with
  | nil => cases h
  | cons path rest ih =>
    rw [loadAll_cons] at h
    cases hload : (files.load path).2 with
    | error fault' =>
      rw [hload] at h
      obtain rfl := Except.error.inj h
      exact ⟨path, List.mem_cons_self, hload⟩
    | ok decoded =>
      rw [hload] at h
      dsimp only at h
      cases hothers : (loadAll files (printed ++ (files.load path).1.filter (!printed.contains ·))
          (index + 1) rest).result with
      | ok others =>
        rw [hothers] at h
        cases h
      | error fault' =>
        rw [hothers] at h
        obtain rfl := Except.error.inj h
        obtain ⟨path', hpath', hload'⟩ := ih hothers
        exact ⟨path', List.mem_cons_of_mem _ hpath', hload'⟩

/-- The image files in a folder give images of moderate sizes. -/
def Folder.Moderate (f : Folder) : Prop :=
  ∀ remarks decoded, f.Holds remarks (.done decoded) → decoded.image.Moderate

/-- A raster as the images in a folder of moderate files are: with opacity, and of a moderate
size. -/
def Raster.Ordinary (r : Raster) : Prop :=
  r.channels = some 4 ∧ r.Moderate

/-- An image that was read has opacity, and is as moderate as those of all files. -/
theorem Folder.Moderate.of_reads {files : Folder} (hfiles : files.Moderate) {path : String}
    {image : Raster} (h : files.Reads path image) : image.Ordinary := by
  obtain ⟨decoded, hload, rfl⟩ := h
  refine ⟨decoded.channels_eq, ?_⟩
  obtain ⟨remarks, decoding, hholds, hloaded⟩ | ⟨fault, hloaded⟩ | hloaded :=
    files.load_cases path
  · rw [hloaded] at hload
    cases decoding with
    | done found =>
      obtain rfl := Except.ok.inj hload
      exact hfiles remarks found hholds
    | refused | broken => cases hload
  · rw [hloaded] at hload
    cases hload
  · rw [hloaded] at hload
    cases hload

/-- All images that were read are ordinary if those of the files are moderate. -/
theorem Folder.Moderate.of_loadAll {files : Folder} (hfiles : files.Moderate)
    {printed : List String} {index : Nat} {paths : List String} {images : List Raster}
    (h : (loadAll files printed index paths).result = .ok images) : ∀ r ∈ images, r.Ordinary := by
  have hloaded := forall₂_of_loadAll h
  clear h
  induction hloaded with
  | nil => exact List.forall_mem_nil _
  | cons hreads _ ih => exact List.forall_mem_cons.2 ⟨hfiles.of_reads hreads, ih⟩

/-! ## Evaluating -/

section Library

variable [Imaging]

/-- An evaluation that fails fails on a store that holds the images. -/
theorem exists_run_of_evaluateOn {limit : Int} {images : List Raster} {words : List Int}
    {fault : EvalFault Raster.Fault} (h : (evaluateOn limit images words).result = .error fault) :
    ∃ s, (Studio.evaluate limit (Array.range images.length) words).run ⟨images.toArray, #[]⟩ =
      (.error fault, s) := by
  unfold evaluateOn at h
  dsimp only at h
  generalize (Studio.evaluate limit (Array.range images.length) words).run ⟨images.toArray, #[]⟩ =
    run at h ⊢
  obtain ⟨result, s⟩ := run
  cases result with
  | ok p => cases h
  | error fault' =>
    obtain rfl := Except.error.inj h
    exact ⟨s, rfl⟩

/-- An expression that was compiled within the standard settings is evaluated on ordinary images
without a fault, unless a picture becomes too large. -/
theorem exists_tooLarge_of_evaluateOn {text : String} {images : List Raster} {encoded : Encoded}
    {fault : EvalFault Raster.Fault}
    (hcompile : (Settings.standard.compile text (some images.length)).1 = .ok encoded)
    (himages : ∀ r ∈ images, r.Ordinary)
    (h : (evaluateOn Settings.standard.maxPixels images encoded.words.toList).result =
      .error fault) :
    ∃ width height, fault = .operation (.tooLarge width height Settings.standard.maxPixels) := by
  rw [Settings.compile_fst] at hcompile
  obtain ⟨c, hwords, hcheck⟩ := exists_check_of_compile hcompile
  have hindex : ∀ i ∈ c.prune.images, 0 ≤ i ∧ i < (Array.range images.length).size := by
    rw [Array.size_range]
    exact c.images_of_check rfl hcheck
  have hlegible : (Settings.standard.limits (some (images.length : Int))).Legible :=
    Settings.legible_limits_load (fun _ => none) _
  have hoperand : ∀ k ∈ c.prune.operands, 0 ≤ k ∧ k < 2 ^ 31 := by
    have hmaximum := (Chain.within_of_check hcheck).forall_operands
      (P := (· ≤ Settings.standard.maxNumber))
      fun number hnumber => (Limits.allowsNumber_iff hlegible).1 hnumber
    have hbound : Settings.standard.maxNumber < 2 ^ 31 := by decide
    exact fun k hk => ⟨c.operands_prune_nonneg k hk, Int.lt_of_le_of_lt (hmaximum k hk) hbound⟩
  -- Each place of the store holds one of the images.
  have hbounded : ∀ p ∈ Array.range images.length,
      (Studio.picture ⟨images.toArray, #[]⟩ p).Bounded
        (Raster.reach Settings.standard.maxPixels 0) := by
    intro p hp
    have hlt : p < images.length := Array.mem_range.1 hp
    have hpicture : Studio.picture ⟨images.toArray, #[]⟩ p = images[p] := by
      simp [Studio.picture, hlt]
    obtain ⟨hchannels, hmoderate⟩ := himages _ (List.getElem_mem hlt)
    rw [hpicture]
    exact Raster.bounded_of_moderate hchannels ⟨hmoderate.height_pos, hmoderate.height_le⟩
      ⟨hmoderate.width_pos, hmoderate.width_le⟩
  obtain ⟨s, hrun⟩ := exists_run_of_evaluateOn h
  rw [hwords] at hrun
  exact Studio.tooLarge_of_evaluate hindex hoperand hbounded (.inr (by decide)) hrun

/-- What is evaluated and cannot be handed on has failed to be drawn, or to be encoded. -/
theorem exists_of_finish_eq_error {images : List Raster} {words : List Int} {failure : Failure}
    (h : (finish .standard "PNG" images words).result = .error failure) :
    (∃ fault, failure = .evaluate fault ∧
      (evaluateOn Settings.standard.maxPixels images words).result = .error fault) ∨
    ∃ fault, failure = .encode fault ∧ IsLine fault.message := by
  unfold finish at h
  dsimp only at h
  cases hvalue : (evaluateOn Settings.standard.maxPixels images words).result with
  | error fault =>
    rw [hvalue] at h
    exact .inl ⟨fault, (Except.error.inj h).symm, rfl⟩
  | ok image =>
    rw [hvalue] at h
    dsimp only at h
    cases hencode : image.encode Settings.standard.formats "PNG" with
    | ok encoded =>
      rw [hencode] at h
      cases h
    | error fault =>
      rw [hencode] at h
      exact .inr ⟨fault, (Except.error.inj h).symm, isLine_of_encode hencode⟩

end Library

namespace CommandLine

/-! ## Faults -/

/-- The faults of the surroundings that break a run off. -/
def RunFault.IsOutside : RunFault → Prop
  | logFile _ _ => True
  | composition (.load fault) => fault.IsBroken
  | help _ => True
  | output fault => fault = .missing
  | _ => False

/-- A text that a fault may show as it is: one that was given as an argument, one that an image file
gives as the reason why it cannot be decoded, or the reason of the device. -/
def IsShown (files : Folder) (args : List String) (output : Output) (text : String) : Prop :=
  Given args text ∨ files.Tells text ∨
    ∃ refused, .refuses refused ∈ output.answers ∧ refused.reason = text

/-- Image files of moderate sizes, and arguments that indexes reach. -/
def IsOrdinary (files : Folder) (args : List String) : Prop :=
  files.Moderate ∧ ∀ arg ∈ args, arg.length < Index.wordBound

/-- What is known of a fault of a run. -/
structure IsExpected (files : Folder) (args : List String) (output : Output) (fault : RunFault) :
    Prop where
  /-- Its words have no line end of their own. -/
  worded : fault.Worded (IsShown files args output)
  /-- In the ordinary case it is reported, or it comes from the surroundings. -/
  outside : IsOrdinary files args → fault.isReported = true ∨ fault.IsOutside

/-- No fault of the surroundings is reported. -/
theorem RunFault.IsOutside.not_isReported {fault : RunFault} (h : fault.IsOutside) :
    fault.isReported = false := by
  cases fault with
  | usage fault => exact h.elim
  | logFile path fault => rfl
  | help fault => rfl
  | output fault =>
    obtain rfl : fault = .missing := h
    rfl
  | composition failure =>
    cases failure with
    | compile | evaluate | encode => exact h.elim
    | load fault =>
      obtain ⟨message, rfl⟩ := h
      rfl

variable {host : Host} {files : Folder} {args : List String} {output : Output} {d : Desk}
  {remarks : List String}

/-- A fault of the surroundings that shows nothing as it is. -/
theorem isExpected_of_isOutside {fault : RunFault} (h : fault.IsOutside)
    (hverbatim : fault.verbatim = []) : IsExpected files args output fault :=
  ⟨RunFault.worded_of_not_reported h.not_isReported hverbatim, fun _ => .inr h⟩

/-- What is known of a fault where there are more image files. -/
theorem IsExpected.of_holds {files' : Folder} {fault : RunFault}
    (h : IsExpected files' args output fault)
    (hholds : ∀ remarks decoding, files'.Holds remarks decoding → files.Holds remarks decoding) :
    IsExpected files args output fault := by
  refine ⟨⟨fun text htext => ?_, h.worded.isLine_iff⟩, fun hordinary => h.outside ⟨?_, hordinary.2⟩⟩
  · refine (h.worded.verbatim text htext).imp_right (Or.imp_left ?_)
    rintro ⟨remarks, hfile⟩
    exact ⟨remarks, hholds _ _ hfile⟩
  · exact fun remarks decoded hfile => hordinary.1 remarks decoded (hholds _ _ hfile)

/-! ## Composing -/

section Library

variable [Imaging]

/-- What is known of the reason why an image for a request could not be composed. -/
theorem isExpected_of_compose {expression : String} {paths : List String} {failure : Failure}
    (hexpression : expression ∈ args) (hpaths : paths ⊆ args)
    (h : (compose .standard files expression paths false "PNG").result = .error failure) :
    IsExpected files args output (.composition failure) := by
  rcases hdone : Settings.standard.compile expression (some paths.length) with ⟨compiled, events⟩
  have hcompile : (Settings.standard.compile expression (some paths.length)).1 = compiled := by
    rw [hdone]
  simp only [compose, hdone, drawing] at h
  cases compiled with
  | error fault =>
    obtain rfl := Except.error.inj h
    obtain ⟨r, rfl, rfl, hnote, hdescribe⟩ := exists_rejection_of_standard hcompile
    refine ⟨RunFault.worded_compile (.inl (.inl hexpression)) hnote, fun hordinary => .inl ?_⟩
    obtain ⟨detail, hdetail⟩ := hdescribe (hordinary.2 _ hexpression)
    show r.describe.isOk = true
    rw [hdetail]
    rfl
  | ok encoded =>
    cases hload : (loadAll files [] 0 paths).result with
    | error fault =>
      rw [hload] at h
      obtain rfl := Except.error.inj h
      obtain ⟨path, hpath, hfault⟩ := exists_of_loadAll hload
      refine ⟨RunFault.worded_load fun text htext => ?_, fun _ => ?_⟩
      · obtain rfl | htells := Folder.verbatim_of_load hfault text htext
        · exact .inl (.inl (hpaths hpath))
        · exact .inr (.inl htells)
      · cases fault with
        | broken message => exact .inr ⟨message, rfl⟩
        | unreachable | noImage | undecodable => exact .inl rfl
    | ok images =>
      rw [hload] at h
      obtain ⟨fault, rfl, hvalue⟩ | ⟨fault, rfl, hline⟩ := exists_of_finish_eq_error h
      · refine ⟨RunFault.worded_evaluate fault, fun hordinary => .inl ?_⟩
        rw [(forall₂_of_loadAll hload).length_eq] at hcompile
        obtain ⟨width, height, rfl⟩ :=
          exists_tooLarge_of_evaluateOn hcompile (hordinary.1.of_loadAll hload) hvalue
        rfl
      · exact ⟨RunFault.worded_encode hline, fun _ => .inl rfl⟩

end Library

/-! ## Running -/

/-- A request that asks neither for the records of all single steps nor for the drawing of the
expression. -/
def Request.IsQuiet : Request → Prop
  | help => True
  | compose _ _ verbose tree _ => verbose = false ∧ tree = false

instance : (request : Request) → Decidable request.IsQuiet
  | .help => inferInstanceAs (Decidable True)
  | .compose _ _ _ _ _ => inferInstanceAs (Decidable (_ ∧ _))

/-- What a run prints. -/
structure Prints (files : Folder) (args : List String) (output : Output) (e : Ending) : Prop where
  /-- The console shows remarks on image files, the fault, and the reports of bytes that were
  refused when the run was over, and nothing else. -/
  console : ∃ remarks : List String, (∀ remark ∈ remarks, files.Remarks remark) ∧
    e.desk.console = shown remarks e.fault e.lost
  /-- The fault is an expected one. -/
  expected : ∀ fault, e.fault = some fault → IsExpected files args output fault

namespace Host

/-- When a run is over, the reports of bytes that were refused come last. -/
theorem console_leave (d : Desk) (fault : Option RunFault) (queue : Queue) :
    (host.leave d fault queue).desk.console =
      d.console ++ String.join ((host.leave d fault queue).lost.map DeviceFault.notice) := by
  unfold leave
  dsimp only
  generalize (queue.settle host.attempts).1 = lost
  induction lost generalizing d with
  | nil => simp
  | cons refused lost ih =>
    rw [List.foldl_cons, ih]
    simp [Desk.print, String.append_assoc]

section Remarked

variable (hremarks : ∀ remark ∈ remarks, files.Remarks remark)
  (hconsole : d.console = String.join (remarks.map (· ++ "\n")))
include hremarks hconsole

/-- A run that ends well, after remarks. -/
theorem prints_leave (queue : Queue) : Prints files args output (host.leave d none queue) := by
  refine ⟨⟨remarks, hremarks, ?_⟩, nofun⟩
  rw [console_leave, hconsole]
  simp [shown, leave]

/-- A run that is abandoned, after remarks. -/
theorem prints_abandon {fault : RunFault} (hfault : IsExpected files args output fault)
    (queue : Queue) : Prints files args output (host.abandon d fault queue) := by
  refine ⟨⟨remarks, hremarks, ?_⟩, fun other hother => ?_⟩
  · rw [abandon, console_leave]
    simp [shown, leave, Desk.print, hconsole]
  · obtain rfl := Option.some.inj hother
    exact hfault

end Remarked

/-- A run that can be told from the start to end with a fault. -/
theorem prints_abandon_fresh {fault : RunFault} (hfault : IsExpected files args output fault)
    (queue : Queue) :
    Prints files args output (host.abandon (Desk.fresh files) fault queue) :=
  prints_abandon (List.forall_mem_nil _) rfl hfault queue

/-- The note that no image could be composed is no warning. -/
theorem noteFailure_eq (hlogger : d.logger.threshold = Log.warning) (fault : RunFault) :
    noteFailure d fault = d := by
  unfold noteFailure
  split
  · exact Desk.log_of_lt (by rw [hlogger]; exact show Log.debug < Log.warning by decide)
  · rfl

/-- Writing a result fails as the output does. -/
theorem isExpected_of_write {bytes : List UInt8} {fault : OutputFault}
    (h : (output.write bytes).1 = some fault) :
    IsExpected files args output (.output fault) := by
  cases fault with
  | missing => exact isExpected_of_isOutside rfl rfl
  | refused refused =>
    have hanswer := (output.wrote_write bytes).refuses refused h
    exact ⟨RunFault.worded_refused (.inr (.inr ⟨refused, hanswer, rfl⟩)), fun _ => .inl rfl⟩

/-- What a run for the help prints when it fails. -/
theorem prints_giveHelp (hcode : (host.giveHelp (Desk.fresh files) output).code ≠ 0) :
    Prints files args output (host.giveHelp (Desk.fresh files) output) := by
  unfold giveHelp at hcode ⊢
  generalize hwrote : output.writeText helpText = wrote at hcode ⊢
  obtain ⟨fault, queue⟩ := wrote
  cases fault with
  | none => exact prints_leave (List.forall_mem_nil _) rfl queue
  | some fault =>
    cases fault with
    | missing =>
      -- Without an output nothing is held back, so such a run does not fail.
      have hstart : queue = output.start := by
        have hmissing := output.start_of_writeText (congrArg Prod.fst hwrote)
        rwa [hwrote] at hmissing
      rw [hstart] at hcode
      dsimp only at hcode
      rw [leave_of_empty output.empty_start] at hcode
      exact absurd rfl hcode
    | refused refused =>
      have houtside : (RunFault.help refused).IsOutside := trivial
      dsimp only at hcode ⊢
      split
      · exact prints_leave (List.forall_mem_nil _) rfl queue
      · exact prints_abandon_fresh (isExpected_of_isOutside houtside rfl) queue

section Library

variable [Imaging]

/-- What a run prints when it comes to a result or to the reason why there is none. -/
theorem prints_conclude {result : Except Failure EncodedImage}
    (hremarks : ∀ remark ∈ remarks, files.Remarks remark)
    (hconsole : d.console = String.join (remarks.map (· ++ "\n")))
    (hlogger : d.logger.threshold = Log.warning)
    (hresult : ∀ failure, result = .error failure →
      IsExpected files args output (.composition failure)) :
    Prints files args output (host.conclude d output result) := by
  unfold conclude
  cases result with
  | error failure =>
    dsimp only
    rw [noteFailure_eq hlogger]
    exact prints_abandon hremarks hconsole (hresult failure rfl) _
  | ok image =>
    dsimp only
    generalize hwrote : output.write (Imaging.bytes image) = wrote
    obtain ⟨fault, queue⟩ := wrote
    cases fault with
    | none => exact prints_leave hremarks hconsole queue
    | some fault =>
      exact prints_abandon hremarks hconsole (isExpected_of_write (congrArg Prod.fst hwrote)) queue

/-- What a run that fails prints. -/
theorem run_prints
    (hquiet : ∀ request ∈ (Request.ofArgs host.dialect args).toOption, request.IsQuiet)
    (hcode : (host.run .standard files args output).code ≠ 0) :
    Prints files args output (host.run .standard files args output) := by
  cases hargs : Request.ofArgs host.dialect args with
  | error fault =>
    simp only [run, hargs]
    refine prints_abandon_fresh
      ⟨RunFault.worded_usage (shows_of_ofArgs hargs) ?_, fun _ => .inl rfl⟩ _
    exact fun text htext => .inl htext
  | ok request =>
    rw [hargs] at hquiet
    cases request with
    | help =>
      simp only [run, hargs] at hcode ⊢
      exact prints_giveHelp hcode
    | compose expression paths verbose tree logFile =>
      obtain ⟨rfl, rfl⟩ := hquiet _ rfl
      obtain ⟨hexpression, hpaths⟩ := mem_of_ofArgs hargs
      have hlevel : (if false then Log.debug else Settings.standard.logLevel) = Log.warning := rfl
      rw [run_of_compose hargs, hlevel]
      cases hsetUp : (Desk.fresh files).setUp Log.warning logFile with
      | error fault =>
        have houtside : (RunFault.logFile (logFile.getD "") fault).IsOutside := trivial
        exact prints_abandon_fresh (isExpected_of_isOutside houtside rfl) _
      | ok desk =>
        obtain ⟨hempty, hlogger⟩ := Desk.quiet_setUp hsetUp
        obtain ⟨remarks, hremarks, htold⟩ := Desk.foldl_tell_of_quiet hlogger
          (@quiet_compose _ _ desk.files _ _ _)
        -- No image file is new beside the file for the records.
        have hholds (remarks decoding) (h : desk.files.Holds remarks decoding) :
            files.Holds remarks decoding := Desk.holds_of_setUp hsetUp h
        have hremarked (remark) (h : remark ∈ remarks) : files.Remarks remark := by
          obtain ⟨all, decoding, hfile, hmem⟩ := hremarks remark h
          exact ⟨all, decoding, hholds all decoding hfile, hmem⟩
        dsimp only
        rw [htold]
        refine prints_conclude hremarked ?_ hlogger fun failure hfailure => ?_
        · rw [Desk.print, hempty]
          exact String.empty_append
        · exact (isExpected_of_compose hexpression hpaths hfailure).of_holds hholds

/-- What a run within the standard settings prints when it fails, and is asked neither for the
records of all single steps nor for the drawing of the expression. It prints remarks on image files,
what its fault shows on the console, and the reports of bytes that were refused when it was over,
and nothing else. That is exactly one line with the name of the program at its start just if there
are no remarks and no such bytes, and the fault is reported and the texts that it shows as they are,
all of them given to the run, are on one line. Where the images have moderate sizes and indexes
reach the arguments, the faults that are not reported are those of the surroundings. -/
theorem run_diagnostic
    (hquiet : ∀ request ∈ (Request.ofArgs host.dialect args).toOption, request.IsQuiet)
    (hcode : (host.run .standard files args output).code ≠ 0) :
    ∃ remarks : List String, (∀ remark ∈ remarks, files.Remarks remark) ∧
      (host.run .standard files args output).desk.console =
        shown remarks (host.run .standard files args output).fault
          (host.run .standard files args output).lost ∧
      (IsDiagnosticLine (host.run .standard files args output).desk.console ↔
        remarks = [] ∧ (host.run .standard files args output).lost = [] ∧
          ∃ fault, (host.run .standard files args output).fault = some fault ∧
            fault.isReported = true ∧ ∀ text ∈ fault.verbatim, IsLine text) ∧
      ∀ fault, (host.run .standard files args output).fault = some fault →
        (∀ text ∈ fault.verbatim, IsShown files args output text) ∧
        (IsOrdinary files args → (fault.isReported = false ↔ fault.IsOutside)) := by
  obtain ⟨⟨remarks, hremarks, hconsole⟩, hexpected⟩ := run_prints hquiet hcode
  generalize host.run .standard files args output = e at hcode hconsole hexpected ⊢
  have hfailed (hnone : e.fault = none) : e.lost ≠ [] := fun hlost =>
    hcode (code_eq_zero_iff.2 ⟨hnone, hlost⟩)
  refine ⟨remarks, hremarks, hconsole, ?_, fun fault hfault => ⟨?_, fun hordinary => ?_⟩⟩
  · rw [hconsole, isDiagnosticLine_shown_iff hfailed]
    refine and_congr_right fun _ => and_congr_right fun _ => exists_congr fun fault => ?_
    refine and_congr_right fun hfault => and_congr_right fun hreported => ?_
    exact (hexpected fault hfault).worded.isLine_iff hreported
  · exact (hexpected fault hfault).worded.verbatim
  · refine ⟨fun hunreported => ?_, RunFault.IsOutside.not_isReported⟩
    obtain hreported | houtside := (hexpected fault hfault).outside hordinary
    · cases hunreported.symm.trans hreported
    · exact houtside

end Library

attribute [local instance] Imaging.standard

/-- An image that is not given: the line for it holds no line end, as the arguments do not. -/
theorem run_diagnostic_missing_image :
    (∀ request ∈ (Request.ofArgs .older ["0.pi(1)", "a.png"]).toOption, request.IsQuiet) ∧
      (Host.run ⟨.older, [true]⟩ .standard [] ["0.pi(1)", "a.png"] (.queued 8 false [])).code ≠ 0 ∧
      IsDiagnosticLine (Host.run ⟨.older, [true]⟩ .standard [] ["0.pi(1)", "a.png"]
        (.queued 8 false [])).desk.console := by
  let host : Host := ⟨.older, [true]⟩
  have hquiet : ∀ request ∈ (Request.ofArgs host.dialect ["0.pi(1)", "a.png"]).toOption,
      request.IsQuiet := by
    decide +kernel
  have hcode : (host.run .standard [] ["0.pi(1)", "a.png"] (.queued 8 false [])).code ≠ 0 := by
    decide +kernel
  have hlost : (host.run .standard [] ["0.pi(1)", "a.png"] (.queued 8 false [])).lost = [] := by
    decide +kernel
  have hreported : (host.run .standard [] ["0.pi(1)", "a.png"]
      (.queued 8 false [])).fault.map RunFault.isReported = some true := by
    decide +kernel
  -- Without image files there are neither remarks nor reasons.
  have hnone (remarks decoding) : ¬ Folder.Holds [] remarks decoding := by
    rintro ⟨names, hentry⟩
    simp [Folder.entry?] at hentry
  have hlines : ∀ arg ∈ ["0.pi(1)", "a.png"], IsLine arg := by decide
  obtain ⟨remarks, hremarks, -, hline, hfault⟩ := run_diagnostic hquiet hcode
  obtain ⟨fault, heq, htrue⟩ := Option.map_eq_some_iff.1 hreported
  refine ⟨hquiet, hcode, hline.2 ⟨?_, hlost, fault, heq, htrue, fun text htext => ?_⟩⟩
  · refine List.eq_nil_iff_forall_not_mem.2 fun remark hremark => ?_
    obtain ⟨all, decoding, hholds, -⟩ := hremarks remark hremark
    exact hnone all decoding hholds
  · obtain hgiven | ⟨all, hholds⟩ | ⟨refused, hrefused, -⟩ := (hfault fault heq).1 text htext
    · exact hgiven.isLine hlines
    · exact absurd hholds (hnone all _)
    · cases hrefused

/-- An expression with a line end is printed on three lines: the line end is shown as it is, once in
the expression and once as the character that was not expected. -/
theorem run_diagnostic_line_end :
    (∀ request ∈ (Request.ofArgs .older ["0\nx", "a.png"]).toOption, request.IsQuiet) ∧
      (Host.run ⟨.older, [true]⟩ .standard [] ["0\nx", "a.png"] (.queued 8 false [])).code ≠ 0 ∧
      ¬ IsDiagnosticLine (Host.run ⟨.older, [true]⟩ .standard [] ["0\nx", "a.png"]
        (.queued 8 false [])).desk.console := by
  have hconsole : (Host.run ⟨.older, [true]⟩ .standard [] ["0\nx", "a.png"]
      (.queued 8 false [])).desk.console =
        "imfx: " ++ "illegal expression '0\nx': unexpected '\n' at column 2" ++ "\n" := by
    decide +kernel
  refine ⟨by decide +kernel, by decide +kernel, ?_⟩
  rw [hconsole, isDiagnosticLine_append]
  decide

end Host

end CommandLine

end Montage
