import Montage.Proofs.CommandLine.Atomic
import Montage.Proofs.Evaluation.Contract
import Montage.Proofs.Evaluation.Operations

/-!
# What the console is spared

The logger of the program takes warnings. What is told while an image is composed stays below that,
the drawing of the expression apart, which is shown only where it is wanted. So all that the way to
a result leaves on a desk are the remarks on the image files (`quiet_compose`,
`Desk.foldl_tell_of_quiet`).
-/

namespace Montage

open Effect

/-- An event that no warning is given of. -/
def Event.IsQuiet (e : Event) : Prop :=
  e.level < Log.warning

/-- Something told that is not seen where only warnings are, or a remark on an image file. -/
def Message.IsQuiet (files : Folder) : Message → Prop
  | .event e => e.IsQuiet
  | .shown text => ∃ remark, files.Remarks remark ∧ text = remark ++ "\n"

/-! ## The store -/

namespace Studio

variable {Error Result : Type} {limit : Int} {s : Studio}

/-- A store in which nothing happened that a warning is given of. -/
def Quiet (s : Studio) : Prop :=
  ∀ e ∈ s.events, e.IsQuiet

theorem Quiet.note (h : s.Quiet) {e : Event} (he : e.IsQuiet) : (s.note e).Quiet := by
  intro e' he'
  obtain hbefore | rfl := Array.mem_push.1 he'
  · exact h e' hbefore
  · exact he

theorem Quiet.timed (h : s.Quiet) (label : String) : (s.note (.timed label)).Quiet :=
  h.note (show Log.debug < Log.warning by decide)

/-- An operation that no warning is given of. -/
def Silent (action : Effect Studio Error Result) : Prop :=
  ∀ s : Studio, s.Quiet → (exec action s).2.Quiet

theorem silent_timed {action : Effect Studio Error Result} (h : Silent action) (label : String) :
    Silent (timed label action) := by
  intro s hs
  rw [exec_timed]
  exact (h s hs).timed label

theorem silent_copy (p : Place) : Silent (copy p) := by
  intro s hs
  rw [exec_copy]
  exact hs

variable [Imaging]

theorem silent_resize (p : Place) (factor : Binary64) : Silent (resize limit p factor) := by
  intro s hs
  rw [exec_resize]
  split
  · exact hs
  · exact hs
  · exact hs.note (show Log.debug < Log.warning by decide)

theorem silent_frame (how : Framing) (width height : Int) (p : Place) :
    Silent (frame limit how width height p) := by
  intro s hs
  rw [exec_frame]
  split
  · exact hs
  · exact silent_timed (silent_resize p _) _ s hs

omit [Imaging] in
/-- A calculation first. -/
theorem silent_attempt {α : Type} (result : Except Raster.Fault α) {f : α → Action Result}
    (h : ∀ a, Silent (f a)) : Silent (attempt result >>= f) := by
  intro s hs
  rw [exec_attempt_bind]
  cases result with
  | error e => exact hs
  | ok a => exact h a s hs

theorem silent_blur (p : Place) (sigma : Binary64) : Silent (blur p sigma) := by
  intro s hs
  rw [exec_blur]
  split <;> exact hs

theorem silent_overlay (p q : Place) : Silent (overlay p q) := by
  intro s hs
  rw [exec_overlay]
  split
  · exact hs
  · dsimp only
    split
    · exact hs
    · exact hs.note (show Log.debug < Log.warning by decide)

omit [Imaging] in
/-- What an operation that no warning is given of leaves, when it starts in a quiet store. -/
theorem Silent.meets {action : Effect Studio Error Result} (h : Silent action) {s₁ : Studio}
    (hleads : s.Quiet → s₁.Quiet) :
    Meets action s₁ (fun s₂ => s.Quiet → s₂.Quiet) fun _ _ => True := by
  intro answer s₂ hexec
  refine ⟨fun hs => ?_, fun _ _ => trivial⟩
  have hafter := h s₁ (hleads hs)
  rw [hexec] at hafter
  exact hafter

/-- The operations of an evaluation give no warning. -/
theorem silent_contract (images : Array Place) :
    Backend.Contract (backend limit) images (fun _ => True) (fun s s' => s.Quiet → s'.Quiet)
      fun _ _ _ => True where
  refl _ := id
  trans h h' := h' ∘ h
  ready _ _ := trivial
  copy _ _ := (silent_copy _).meets id
  frame how width height _ hleads _ := (silent_frame how width height _).meets hleads
  blur _ _ hleads _ :=
    (silent_timed (silent_attempt _ fun sigma => silent_blur _ sigma) _).meets hleads
  overlay _ hleads _ hleads' _ := (silent_timed (silent_overlay _ _) _).meets (hleads' ∘ hleads)

/-- An evaluation gives no warning. -/
theorem silent_evaluate (images : Array Place) (words : List Int) :
    Silent (evaluate limit images words) := by
  refine silent_timed (fun s hs => ?_) _
  exact ((silent_contract images).evaluate trivial words _ _ rfl).1 hs

end Studio

/-! ## Composing -/

/-- Compiling gives no warning. -/
theorem quiet_compile (s : Settings) (text : String) (imageCount : Option Int) :
    ∀ e ∈ (s.compile text imageCount).2, e.IsQuiet := by
  have hdebug : Log.debug < Log.warning := by decide
  have hchanges (journal : Array Buffer.Change) :
      ∀ e ∈ #[.compiling text] ++ journal.map .changed, Event.IsQuiet e := by
    intro e he
    rw [Array.mem_append, Array.mem_singleton, Array.mem_map] at he
    obtain rfl | ⟨change, -, rfl⟩ := he
    · exact hdebug
    · exact hdebug
  unfold Settings.compile
  dsimp only
  split
  · intro e he
    obtain hbefore | rfl := Array.mem_push.1 he
    · exact hchanges _ e hbefore
    · exact hdebug
  · exact hchanges _

/-- Reading images gives no warning. -/
theorem quiet_loadAll (files : Folder) (printed : List String) (index : Nat) (paths : List String) :
    ∀ m ∈ (loadAll files printed index paths).messages, m.IsQuiet files := by
  have hdebug : Log.debug < Log.warning := by decide
  induction paths generalizing printed index with
  | nil => nofun
  | cons path rest ih =>
    have hstart : ∀ m ∈ .event (.loading index path) ::
        showRemarks ((files.load path).1.filter (!printed.contains ·)), m.IsQuiet files := by
      refine List.forall_mem_cons.2 ⟨hdebug, fun m hm => ?_⟩
      obtain ⟨remark, hremark, rfl⟩ := List.mem_map.1 hm
      exact ⟨remark, Folder.remarks_of_load (List.mem_of_mem_filter hremark), rfl⟩
    rw [loadAll]
    dsimp only
    cases (files.load path).2 with
    | error fault => exact hstart
    | ok decoded =>
      exact List.forall_mem_append.2 ⟨hstart, List.forall_mem_cons.2 ⟨hdebug, ih _ _⟩⟩

section Library

variable [Imaging] {s : Settings} {files : Folder} {expression format : String}
  {paths : List String}

/-- Evaluating gives no warning. -/
theorem quiet_evaluateOn (limit : Int) (images : List Raster) (words : List Int) :
    ∀ m ∈ (evaluateOn limit images words).messages, m.IsQuiet files := by
  have hempty : Studio.Quiet ⟨images.toArray, #[]⟩ := nofun
  have hsilent : Studio.Silent (Studio.evaluate limit (Array.range images.length) words) :=
    Studio.silent_evaluate _ words
  have hafter := hsilent _ hempty
  intro m hm
  obtain ⟨e, he, rfl⟩ := List.mem_map.1 hm
  exact hafter e (Array.mem_toList_iff.1 he)

theorem quiet_finish (images : List Raster) (words : List Int) :
    ∀ m ∈ (finish s format images words).messages, m.IsQuiet files := by
  have hevaluate :
      ∀ m ∈ (evaluateOn s.maxPixels images words).messages, m.IsQuiet files :=
    quiet_evaluateOn s.maxPixels images words
  unfold finish
  dsimp only
  split
  · exact hevaluate
  · rw [List.forall_mem_append]
    exact ⟨hevaluate, List.forall_mem_singleton.2 (show Log.info < Log.warning by decide)⟩

/-- Where the drawing of the expression is not wanted, nothing is told that a warning is given of,
and nothing is shown but remarks on the image files. -/
theorem quiet_compose :
    ∀ m ∈ (compose s files expression paths false format).messages, m.IsQuiet files := by
  have hcompile := quiet_compile s expression (some paths.length)
  unfold compose
  generalize s.compile expression (some paths.length) = done at hcompile ⊢
  obtain ⟨compiled, events⟩ := done
  have htold : ∀ m ∈ events.toList.map Message.event, m.IsQuiet files := by
    intro m hm
    obtain ⟨e, he, rfl⟩ := List.mem_map.1 hm
    exact hcompile e (Array.mem_toList_iff.1 he)
  cases compiled with
  | error fault => exact htold
  | ok encoded =>
    -- Nothing is drawn.
    have hloaded := List.forall_mem_append.2
      ⟨List.forall_mem_append.2 ⟨htold, List.forall_mem_nil _⟩, quiet_loadAll files [] 0 paths⟩
    dsimp only [drawing]
    cases (loadAll files [] 0 paths).result with
    | error fault => exact hloaded
    | ok images => exact List.forall_mem_append.2 ⟨hloaded, quiet_finish images _⟩

end Library

/-! ## The desk -/

namespace Desk

variable {d d' : Desk}

/-- A record below the level of the logger leaves no mark. -/
theorem log_of_lt {r : Log.Record} (h : r.level < d.logger.threshold) : d.log r = d := by
  unfold Desk.log Log.Logger.targets
  rw [if_pos h]
  rfl

/-- What no warning is given of leaves no mark where the logger takes warnings; remarks are
shown. -/
theorem foldl_tell_of_quiet {files : Folder} {messages : List Message}
    (hlogger : d.logger.threshold = Log.warning) (h : ∀ m ∈ messages, m.IsQuiet files) :
    ∃ remarks : List String, (∀ remark ∈ remarks, files.Remarks remark) ∧
      messages.foldl CommandLine.tell d = d.print (String.join (remarks.map (· ++ "\n"))) := by
  induction messages generalizing d with
  | nil => exact ⟨[], List.forall_mem_nil _, by simp [print]⟩
  | cons m messages ih =>
    have hm := h m List.mem_cons_self
    have hrest := fun m hm => h m (List.mem_cons_of_mem _ hm)
    rw [List.foldl_cons]
    cases m with
    | shown text =>
      obtain ⟨remark, hremark, rfl⟩ := hm
      obtain ⟨remarks, hremarks, hfold⟩ := ih (d := d.print (remark ++ "\n")) hlogger hrest
      refine ⟨remark :: remarks, List.forall_mem_cons.2 ⟨hremark, hremarks⟩, ?_⟩
      rw [CommandLine.tell, hfold]
      simp [print, String.append_assoc]
    | event e =>
      rw [CommandLine.tell, log_of_lt (by rw [hlogger]; exact hm)]
      exact ih hlogger hrest

/-- Setting up a logger for warnings shows nothing. -/
theorem quiet_setUp {logFile : Option String} (h : d.setUp Log.warning logFile = .ok d') :
    d'.console = d.console ∧ d'.logger.threshold = Log.warning := by
  have hstarted {made : Desk} (hlogger : made.logger.threshold = Log.warning) :
      made.log (Event.started Log.warning).record = made :=
    log_of_lt (by rw [hlogger]; decide)
  by_cases hempty : ∀ path ∈ logFile, path = ""
  · rw [setUp_of_empty hempty, hstarted rfl] at h
    obtain rfl := Except.ok.inj h
    exact ⟨rfl, rfl⟩
  · obtain ⟨path, rfl, hpath⟩ := exists_of_not_empty hempty
    rw [setUp_of_path hpath] at h
    cases hcreate : d.files.createText path with
    | error fault =>
      rw [hcreate] at h
      cases h
    | ok made =>
      rw [hcreate] at h
      obtain rfl := Except.ok.inj h
      dsimp only
      rw [hstarted rfl]
      exact ⟨rfl, rfl⟩

end Desk

end Montage
