import Montage.Imaging.Standard
import Montage.Proofs.Evaluation.Preservation
import Montage.Proofs.Expression.RoundTrip
import Montage.Proofs.Raster.Extent

/-!
# A compiled expression is safe to evaluate

What a compilation answers never breaks the evaluator. Its words are those of a tree, so none is
missing, left over or unknown, and the indexes of the tree have been checked (`unrejected_draw`).
On rasters with opacity that are not empty the tree is drawn without a fault as well, unless a
raster becomes too large: along the tree the sides stay bounded, and only framings move the bound
(`exists_sized_draw`). `Studio.evaluate_safe` is the statement for a text and a store of pictures.
-/

namespace Montage

open Effect

/-! ## What a compilation has checked -/

section Checked

variable {t : Task} {capacity count : Nat}

/-- An index that passes its check names an image. -/
theorem Task.lt_of_checkIndex (hcount : t.limits.imageCount = some count) {index : Fin 10}
    {position : Nat} (h : t.checkIndex index position = .ok ()) : index.val < count := by
  unfold checkIndex at h
  rw [hcount] at h
  by_cases hout : (count : Int) ≤ index.val
  · simp [hout] at h
  · omega

/-- The indexes of a syntax tree that passes its checks name images. -/
theorem Chain.images_of_check (hcount : t.limits.imageCount = some count) {c : Chain}
    {opened position live : Nat} (h : c.check t capacity opened position live = .ok ()) :
    ∀ i ∈ c.prune.images, 0 ≤ i ∧ i < count := by
  have hroot {index : Fin 10} {position live : Nat}
      (h : t.checkImage capacity index position live = .ok ()) :
      ∀ i ∈ (Node.image index.val).images, 0 ≤ i ∧ i < count := by
    rw [Task.checkImage, Task.bind_eq_ok_iff] at h
    have hlt := Task.lt_of_checkIndex hcount h.1
    simp only [Node.images, List.mem_singleton]
    omega
  induction c generalizing opened position live with
  | root index => exact hroot h
  | image before index ih =>
    rw [check, Task.bind_eq_ok_iff] at h
    exact hroot h.2
  | frame how before width height ih =>
    rw [check, Task.bind_eq_ok_iff] at h
    exact ih h.1
  | blur before strength ih =>
    rw [check, Task.bind_eq_ok_iff] at h
    exact ih h.1
  | overlay before argument ih ih' =>
    simp only [check, Task.bind_eq_ok_iff] at h
    obtain ⟨hbefore, -, hargument, -⟩ := h
    simp only [prune, Node.images, List.mem_append]
    rintro i (hi | hi)
    · exact ih hbefore i hi
    · exact ih' hargument i hi

/-- A number of an expression has no sign. -/
theorem Chain.operands_prune_nonneg (c : Chain) : ∀ k ∈ c.prune.operands, 0 ≤ k := by
  induction c with
  | root index => simp [prune, Node.operands]
  | image before index ih => simp [prune, Node.operands]
  | frame how before width height ih =>
    simp only [prune, Node.operands, List.mem_append, List.mem_cons, List.not_mem_nil, or_false]
    rintro k (hk | rfl | rfl)
    · exact ih k hk
    · exact Int.natCast_nonneg _
    · exact Int.natCast_nonneg _
  | blur before strength ih =>
    simp only [prune, Node.operands, List.mem_append, List.mem_cons, List.not_mem_nil, or_false]
    rintro k (hk | rfl)
    · exact ih k hk
    · exact Int.natCast_nonneg _
  | overlay before argument ih ih' =>
    simp only [prune, Node.operands, List.mem_append]
    rintro k (hk | hk)
    · exact ih k hk
    · exact ih' k hk

/-- A compilation that returns answers the words of a tree that has passed all checks. -/
theorem exists_check_of_compile {capacity : Int} {e : Encoded}
    (h : (compile t capacity).result = .ok e) :
    ∃ c : Chain, e.words = c.prune.encode.toArray ∧ c.check t capacity.toNat 0 0 0 = .ok () := by
  obtain ⟨c, htext, rfl⟩ := exists_of_compile_eq_ok h
  exact ⟨c, rfl, check_of_compile htext h⟩

end Checked

namespace Node

/-- The operands of a tree are among its words. -/
theorem mem_encode_of_mem_operands {n : Node} {k : Int} (h : k ∈ n.operands) : k ∈ n.encode := by
  induction n with
  | image index => simp [operands] at h
  | frame how source width height ih =>
    simp only [operands, List.mem_append] at h
    simp only [encode, List.mem_append]
    refine h.imp ih fun hk => ?_
    simp only [List.mem_cons, List.not_mem_nil, or_false] at hk ⊢
    obtain rfl | rfl := hk <;> simp
  | blur source strength ih =>
    simp only [operands, List.mem_append] at h
    simp only [encode, List.mem_append]
    refine h.imp ih fun hk => ?_
    simp only [List.mem_cons, List.not_mem_nil, or_false] at hk ⊢
    exact .inl hk
  | overlay source argument ih ih' =>
    simp only [operands, List.mem_append] at h
    simp only [encode, List.mem_append]
    exact .inl (h.imp ih ih')

/-- The number of framings in a tree. -/
def framings : Node → Nat
  | image _ => 0
  | frame _ source _ _ => source.framings + 1
  | blur source _ => source.framings
  | overlay source argument => source.framings + argument.framings

/-- A framing has three words of its own. -/
theorem three_mul_framings_le (n : Node) : 3 * n.framings ≤ n.encode.length := by
  induction n with
  | image index => simp [framings]
  | frame how source width height ih =>
    simp [framings, encode]
    omega
  | blur source strength ih =>
    simp [framings, encode]
    omega
  | overlay source argument ih ih' =>
    simp [framings, encode]
    omega

end Node

/-! ## No fault of the words -/

namespace Effect

variable {State Error Result Result' : Type}

/-- An evaluation that does not fail because of its words, whatever the state is. -/
def Unrejected (action : Effect State (EvalFault Error) Result) : Prop :=
  ∀ s fault, (exec action s).1 ≠ .error (.words fault)

/-- An operation of the backend knows nothing about words. -/
theorem unrejected_lift (action : Effect State Error Result) :
    Unrejected (Backend.lift action) := by
  intro s fault
  rw [exec_lift]
  cases (exec action s).1 <;> exact nofun

/-- One evaluation after another. -/
theorem Unrejected.bind {action : Effect State (EvalFault Error) Result}
    {f : Result → Effect State (EvalFault Error) Result'} (h : Unrejected action)
    (hf : ∀ a, Unrejected (f a)) : Unrejected (action >>= f) := by
  intro s fault
  rw [exec_bind]
  have hs := h s fault
  generalize exec action s = run at hs ⊢
  obtain ⟨answer, s'⟩ := run
  cases answer with
  | ok a => exact hf a s' fault
  | error e =>
    intro heq
    cases heq
    exact hs rfl

end Effect

section Words

variable {State Error Picture : Type} (b : Backend State Error Picture) {images : Array Picture}

/-- A tree whose indexes name images is drawn without a fault of its words, whatever the operations
do. -/
theorem Node.unrejected_draw {n : Node} (h : ∀ i ∈ n.images, 0 ≤ i ∧ i < images.size) :
    Unrejected (n.draw b images) := by
  induction n with
  | image index =>
    obtain ⟨hnonneg, hlt⟩ := h index (List.mem_singleton_self index)
    obtain ⟨picture, -, hfetch⟩ := b.fetch_eq_lift hnonneg hlt
    rw [draw, hfetch]
    exact unrejected_lift _
  | frame how source width height ih => exact (ih h).bind fun _ => unrejected_lift _
  | blur source strength ih => exact (ih h).bind fun _ => unrejected_lift _
  | overlay source argument ih ih' =>
    simp only [Node.images, List.mem_append] at h
    exact (ih' fun i hi => h i (.inr hi)).bind fun _ =>
      (ih fun i hi => h i (.inl hi)).bind fun _ => unrejected_lift _

end Words

/-! ## No fault of the operations -/

namespace Effect

variable {Error Result Result' : Type}

/-- Faults may be wrapped one answer after another. -/
theorem mapError_bind {Error' : Type} (wrap : Error → Error') (answer : Except Error Result)
    (f : Result → Except Error Result') :
    (answer >>= f).mapError wrap = answer.mapError wrap >>= fun a => (f a).mapError wrap := by
  cases answer <;> rfl

end Effect

namespace Raster

variable [Imaging] {limit : Int} {images : Array Raster}

/-- A tree is drawn with rasters whose sides are bounded, as long as no raster becomes too large. -/
theorem exists_sized_draw {n : Node} (hindex : ∀ i ∈ n.images, 0 ≤ i ∧ i < images.size)
    (hoperand : ∀ k ∈ n.operands, 0 ≤ k ∧ k < 2 ^ 31)
    (himages : ∀ r ∈ images, r.Bounded (reach limit 0))
    (hroom : 3 * n.framings < 2 ^ 60 ∨ limit ≤ 2 ^ 256) :
    ∃ answer, value (n.draw (values limit) images) = answer.mapError .operation ∧
      Sized limit (reach limit n.framings) answer := by
  induction n with
  | image index =>
    obtain ⟨hnonneg, hlt⟩ := hindex index (List.mem_singleton_self index)
    obtain ⟨r, hr, hfetch⟩ := (values limit).fetch_eq_lift hnonneg hlt
    refine ⟨.ok r, ?_, .ok (himages r hr)⟩
    rw [Node.draw, hfetch]
    rfl
  | frame how source width height ih =>
    simp only [Node.operands, List.mem_append, List.mem_cons, List.not_mem_nil, or_false]
      at hoperand
    have hroom' := hroom.imp_left (lt_of_le_of_lt (Nat.mul_le_mul_left 3 (Nat.le_succ _)))
    obtain ⟨answer, hdraw, hsized⟩ := ih hindex (fun k hk => hoperand k (.inl hk)) hroom'
    obtain ⟨hwidth, hwidth_lt⟩ := hoperand width (.inr (.inl rfl))
    obtain ⟨hheight, hheight_lt⟩ := hoperand height (.inr (.inr rfl))
    obtain ⟨boxWidth, rfl⟩ := Int.eq_ofNat_of_zero_le hwidth
    obtain ⟨boxHeight, rfl⟩ := Int.eq_ofNat_of_zero_le hheight
    refine ⟨answer >>= fun r => r.framed limit how boxWidth boxHeight, ?_, ?_⟩
    · simp only [Node.draw, value_bind, hdraw, value_lift, value_frame, mapError_bind]
    · exact hsized.bind fun r h =>
        sized_framed how h (le_reach limit _) (reach_within hroom') (by omega) (by omega) (by omega)
  | blur source strength ih =>
    simp only [Node.operands, List.mem_append, List.mem_cons, List.not_mem_nil, or_false]
      at hoperand
    obtain ⟨answer, hdraw, hsized⟩ := ih hindex (fun k hk => hoperand k (.inl hk)) hroom
    obtain ⟨hstrength, hstrength_lt⟩ := hoperand strength (.inr rfl)
    obtain ⟨amount, rfl⟩ := Int.eq_ofNat_of_zero_le hstrength
    refine ⟨answer >>= fun r => r.blurred amount, ?_, ?_⟩
    · simp only [Node.draw, value_bind, hdraw, value_lift, value_blur, mapError_bind]
    · exact hsized.bind fun r h => sized_blurred h (by omega)
  | overlay source argument ih ih' =>
    simp only [Node.images, List.mem_append] at hindex
    simp only [Node.operands, List.mem_append] at hoperand
    have hle : source.framings ≤ (source.overlay argument).framings := Nat.le_add_right _ _
    have hle' : argument.framings ≤ (source.overlay argument).framings := Nat.le_add_left _ _
    obtain ⟨answer, hdraw, hsized⟩ :=
      ih (fun i hi => hindex i (.inl hi)) (fun k hk => hoperand k (.inl hk))
        (hroom.imp_left (lt_of_le_of_lt (Nat.mul_le_mul_left 3 hle)))
    obtain ⟨answer', hdraw', hsized'⟩ :=
      ih' (fun i hi => hindex i (.inr hi)) (fun k hk => hoperand k (.inr hk))
        (hroom.imp_left (lt_of_le_of_lt (Nat.mul_le_mul_left 3 hle')))
    refine ⟨answer' >>= fun above => answer >>= fun r => r.covered above, ?_, ?_⟩
    · simp only [Node.draw, value_bind, hdraw, hdraw', value_lift, value_overlay, mapError_bind]
    · exact hsized'.bind fun above habove => hsized.bind fun r h =>
        sized_covered (h.mono (reach_mono hle)) habove

end Raster

/-! ## Evaluating a compiled expression -/

namespace Studio

variable {limit : Int} {images : Array Place} {s : Studio}

/-- A picture with rows lies in the store. -/
theorem lt_size_of_height {p : Place} (h : 1 ≤ (s.picture p).height) : p < s.pictures.size := by
  by_contra hout
  rw [picture, Array.getElem?_eq_none (Nat.not_lt.1 hout)] at h
  exact absurd h (by decide)

/-- Evaluating the words of a tree on pictures with bounded sides fails only where a picture would
become too large. -/
theorem tooLarge_of_evaluate [Imaging] {n : Node} {fault : EvalFault Raster.Fault} {s' : Studio}
    (hindex : ∀ i ∈ n.images, 0 ≤ i ∧ i < images.size)
    (hoperand : ∀ k ∈ n.operands, 0 ≤ k ∧ k < 2 ^ 31)
    (himages : ∀ p ∈ images, (s.picture p).Bounded (Raster.reach limit 0))
    (hroom : n.encode.length < 2 ^ 60 ∨ limit ≤ 2 ^ 256)
    (hrun : (evaluate limit images n.encode).run s = (.error fault, s')) :
    ∃ width height, fault = .operation (.tooLarge width height limit) := by
  have hinside : ∀ p ∈ images, p < s.pictures.size := fun p hp =>
    lt_size_of_height (himages p hp).height_pos
  have hnames : ∀ i ∈ n.images, 0 ≤ i ∧ i < (images.map s.picture).size := by
    rwa [Array.size_map]
  have hbounded : ∀ r ∈ images.map s.picture, r.Bounded (Raster.reach limit 0) := by
    intro r hr
    obtain ⟨p, hp, rfl⟩ := Array.mem_map.1 hr
    exact himages p hp
  have hframings := hroom.imp_left (lt_of_le_of_lt n.three_mul_framings_le)
  obtain ⟨answer, hdraw, hsized⟩ := Raster.exists_sized_draw hnames hoperand hbounded hframings
  -- The store draws what values do.
  have hdraws : Draws s.pictures.size s (evaluate limit images n.encode)
      (value (n.draw (Raster.values limit) (images.map s.picture))) :=
    draws_evaluate n hinside
  obtain ⟨result, s₁, hexec, -, hholds⟩ := hdraws
  obtain ⟨rfl, rfl⟩ := Prod.mk.inj (hexec.symm.trans hrun)
  rw [hdraw] at hholds
  cases hsized with
  | ok bounded => cases hholds
  | tooLarge width height =>
    cases hholds
    exact ⟨width, height, rfl⟩

/-- A compiled expression never breaks the evaluator. Evaluated on as many images as it was compiled
for, its words are never malformed. If moreover no word is above `2147483647` and the images have
four channels and sides between one and that number, the only fault is that a picture would have
more pixels than the limit. The words are fewer than `2 ^ 60`, as those of every list are, or else
the limit is at most `2 ^ 256`. -/
theorem evaluate_safe [Imaging] {t : Task} {capacity : Int} {e : Encoded}
    (hcompile : (compile t capacity).result = .ok e)
    (hcount : t.limits.imageCount = some images.size) :
    (∀ fault s', (evaluate limit images e.words.toList).run s ≠ (.error (.words fault), s')) ∧
      (e.words.size < 2 ^ 60 ∨ limit ≤ 2 ^ 256 → (∀ word ∈ e.words, word ≤ 2147483647) →
        (∀ p ∈ images, (s.picture p).channels = some 4 ∧
          (1 ≤ (s.picture p).height ∧ (s.picture p).height ≤ 2147483647) ∧
          1 ≤ (s.picture p).width ∧ (s.picture p).width ≤ 2147483647) →
        ∀ fault s', (evaluate limit images e.words.toList).run s = (.error fault, s') →
          ∃ width height, fault = .operation (.tooLarge width height limit)) := by
  obtain ⟨c, hwords, hcheck⟩ := exists_check_of_compile hcompile
  have hindex := c.images_of_check hcount hcheck
  have hlist : e.words.toList = c.prune.encode := by rw [hwords]
  rw [hlist]
  refine ⟨fun fault s' hrun => ?_, fun hroom hmaximum himages fault s' hrun => ?_⟩
  · have hdraw := Node.unrejected_draw (backend limit) hindex s fault
    rw [← Backend.evaluate_encode] at hdraw
    exact hdraw (congrArg Prod.fst hrun)
  · have hoperand : ∀ k ∈ c.prune.operands, 0 ≤ k ∧ k < 2 ^ 31 := by
      intro k hk
      have hword : k ∈ e.words := by
        rw [hwords]
        exact List.mem_toArray.2 (Node.mem_encode_of_mem_operands hk)
      have hle := hmaximum k hword
      exact ⟨c.operands_prune_nonneg k hk, by omega⟩
    have hbounded : ∀ p ∈ images, (s.picture p).Bounded (Raster.reach limit 0) := by
      intro p hp
      obtain ⟨hchannels, hheight, hwidth⟩ := himages p hp
      exact Raster.bounded_of_moderate hchannels hheight hwidth
    rw [hwords, List.size_toArray] at hroom
    exact tooLarge_of_evaluate hindex hoperand hbounded hroom hrun

attribute [local instance] Imaging.standard

/-- A picture brought to an empty box and blurred with no strength. -/
theorem evaluate_safe_empty_box :
    (compile ⟨"0.fl(0x0).gb(0)", ⟨some 1, 64, 2147483647⟩⟩ 1024).result =
        .ok ⟨#[0, 4, 0, 0, 1, 0, 3], "0.fl(0x0).gb(0)"⟩ ∧
      ∀ fault s', (evaluate 100 #[0] [0, 4, 0, 0, 1, 0, 3]).run
          ⟨#[.generate 2 3 (some 4) fun _ _ _ => 0], #[]⟩ = (.error fault, s') →
        ∃ width height, fault = .operation (.tooLarge width height 100) := by
  have hcompile : (compile ⟨"0.fl(0x0).gb(0)", ⟨some 1, 64, 2147483647⟩⟩ 1024).result =
      .ok ⟨#[0, 4, 0, 0, 1, 0, 3], "0.fl(0x0).gb(0)"⟩ :=
    result_compile_eq_map
      (.blur (.frame .fill (.root 0) (.ofNat 0) (.ofNat 0)) (.ofNat 0)) (by decide) (by decide)
  exact ⟨hcompile, (evaluate_safe hcompile rfl).2 (.inl (by decide)) (by decide) (by decide)⟩

end Studio

end Montage
