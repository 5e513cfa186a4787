import Montage.Bench
import Montage.Imaging.Standard
import Montage.Proofs.Evaluation.Operations
import Montage.Proofs.Raster.Compositing
import Montage.Proofs.Raster.Target

/-!
# Pictures that are shared

Several slots of a bench may name one picture, because some operations answer the picture that they
were given. `Operation.Outcome` lists what an operation can do to the pictures of a store, and each
operation does one of these (`Operation.outcome_action`). So a call changes one picture at most, and
only by drawing on it (`Bench.framed_call`). A picture that differs after a run of calls was drawn
on by one of them (`Bench.exists_overlay_of_run`).
-/

namespace Montage

open Effect

namespace Raster

variable [Imaging] {r : Raster}

/-! ## Rasters that stay as they are -/

/-- A scaling leaves a raster as it is just for the factor one. -/
theorem eq_one_of_resize {limit : Int} {factor : Binary64} {made : Option Raster}
    (h : r.resize limit factor = .ok made) : factor = .one ↔ made = none := by
  constructor
  · rintro rfl
    rw [resize_one] at h
    exact (Except.ok.inj h).symm
  · rintro rfl
    obtain ⟨hone, -⟩ | ⟨height, width, -, -, -, zoomedHeight, zoomedWidth, -, -, hmade⟩ :=
      exists_of_resize h
    · exact hone
    · cases hmade

/-- A blur leaves a raster as it is just for the width zero. -/
theorem isZero_of_blur {sigma : Binary64} {made : Option Raster} (h : r.blur sigma = .ok made) :
    sigma.isZero = made.isNone := by
  unfold blur at h
  split at h
  · cases h
  · split at h
    · rename_i hzero
      cases h
      exact hzero
    · rename_i hzero
      obtain ⟨radius, -, h⟩ := Chain.bind_eq_ok_iff.1 h
      rw [Bool.eq_false_iff.2 hzero]
      cases h
      rfl

/-- Bringing to other colours leaves a raster as it is just where the colours are the same. -/
theorem colours_of_conform {reference : Raster} {made : Option Raster}
    (h : r.conform reference = .ok made) : r.colours = reference.colours ↔ made = none := by
  unfold conform at h
  obtain ⟨source, hsource, h⟩ := Chain.bind_eq_ok_iff.1 h
  obtain ⟨target, htarget, h⟩ := Chain.bind_eq_ok_iff.1 h
  rw [hsource, htarget]
  split at h
  · rename_i hsame
    cases h
    exact iff_of_true (congrArg _ hsame) rfl
  · rename_i hdiffers
    cases h
    exact iff_of_false (fun heq => hdiffers (Except.ok.inj heq)) nofun

omit [Imaging] in
/-- A raster that is drawn on itself stays as it is. -/
theorem overlay_self (r : Raster) : r.overlay r = r := by
  have hcovers {n i : Nat} (hi : i < n) : Covers n n i ∧ placeInPart n n i = i := by
    unfold Covers placeInPart centred
    omega
  refine ext_get rfl rfl rfl fun y (hy : y < r.height) x (hx : x < r.width) c hc => ?_
  obtain ⟨hrow, hrow_place⟩ := hcovers hy
  obtain ⟨hcolumn, hcolumn_place⟩ := hcovers hx
  rw [get_overlay_inside hy hx hc hrow hcolumn, hrow_place, hcolumn_place]

/-- Drawing a raster on itself changes nothing. -/
theorem covered_self {made : Raster} (h : r.covered r = .ok made) : made = r := by
  unfold covered at h
  cases hconform : r.conform r with
  | error e =>
    rw [hconform] at h
    cases h
  | ok given =>
    rw [hconform, (colours_of_conform hconform).1 rfl] at h
    cases h
    simp only [Option.getD_none, overlay_self, ite_self]

end Raster

namespace Operation

variable [Imaging] {Name Name' Error : Type} {limit : Int} {s s' : Studio} {p q : Place}
  {result : Except Raster.Fault Place}

/-! ## One operation -/

/-- The operations that answer the picture that they work on: a scaling by one, a blur of width
zero, bringing to the same colours, and each drawing. -/
def ReturnsSource (s : Studio) : Operation Place → Prop
  | copy _ => False
  | resize _ factor => factor = .one
  | blur _ sigma => sigma.isZero = true
  | overlay _ _ => True
  | conform p reference => (s.picture p).colours = (s.picture reference).colours

/-- What an operation can do to a store. -/
inductive Outcome (s : Studio) (operation : Operation Place) :
    Except Raster.Fault Place → Studio → Prop where
  /-- It fails, and nothing has happened. -/
  | failed (e : Raster.Fault) : Outcome s operation (.error e) s
  /-- It answers its own picture as it is, and draws nothing. -/
  | same (returns : operation.ReturnsSource s) (plain : ∀ p above, operation ≠ .overlay p above) :
    Outcome s operation (.ok operation.source) s
  /-- It answers a new picture. -/
  | made {s' : Studio} (returns : ¬operation.ReturnsSource s) (keeps : s.Keeps s.pictures.size s')
    (size : s'.pictures.size = s.pictures.size + 1) :
    Outcome s operation (.ok s.pictures.size) s'
  /-- It answers its own picture, on which another one is drawn now. -/
  | drawn {s' : Studio} {base above : Place} (overlays : operation = .overlay base above)
    (covered : (s.picture base).covered (s.picture above) = .ok (s'.picture base))
    (others : ∀ q, q ≠ base → s'.picture q = s.picture q)
    (size : s'.pictures.size = s.pictures.size) : Outcome s operation (.ok base) s'

/-- A new picture behind all others. -/
theorem outcome_of_add {operation : Operation Place} (h : ¬operation.ReturnsSource s)
    (r : Raster) : operation.Outcome s (.ok s.pictures.size) (s.add r).2 :=
  .made h (Studio.keeps_add (Nat.le_refl _) r) (by simp [Studio.add])

/-- Drawing changes the picture below, if there is any. -/
theorem outcome_overlay (hp : p < s.pictures.size)
    (hexec : exec (Studio.overlay p q) s = (result, s')) : (overlay p q).Outcome s result s' := by
  rw [Studio.exec_overlay] at hexec
  have hcovered : (s.picture p).covered (s.picture q) =
      ((s.picture q).conform (s.picture p)).map fun given =>
        if (s.picture p).meets (given.getD (s.picture q)) then
          (s.picture p).overlay (given.getD (s.picture q))
        else s.picture p := rfl
  cases hconform : (s.picture q).conform (s.picture p) with
  | error e =>
    rw [hconform] at hexec
    cases hexec
    exact .failed e
  | ok given =>
    rw [hconform] at hexec hcovered
    simp only [Except.map] at hexec hcovered
    split at hexec
    · rename_i hmeets
      cases hexec
      rw [if_pos hmeets] at hcovered
      refine .drawn rfl ?_ (fun other hne => ?_) (by simp [Studio.replace])
      · rw [Studio.picture_replace hp]
        exact hcovered
      · simp [Studio.replace, Studio.picture, Ne.symm hne]
    · rename_i hmeets
      cases hexec
      rw [if_neg hmeets] at hcovered
      exact .drawn rfl hcovered (fun _ _ => rfl) rfl

/-- An operation that makes a new raster or none has one of the outcomes that draw nothing, if it
makes none just where it answers its own picture. A raster may be noted before it is added. -/
theorem outcome_of_made {operation : Operation Place}
    {answer : Except Raster.Fault (Option Raster)} (noted : Raster → Studio)
    (hnoted : ∀ r, s.Keeps s.pictures.size (noted r) ∧ (noted r).pictures = s.pictures)
    (plain : ∀ p above, operation ≠ .overlay p above)
    (hexec : (match answer with
      | .error e => (.error e, s)
      | .ok none => (.ok operation.source, s)
      | .ok (some r) => (.ok s.pictures.size, ((noted r).add r).2)) = (result, s'))
    (hreturns : ∀ made, answer = .ok made → (operation.ReturnsSource s ↔ made = none)) :
    operation.Outcome s result s' := by
  cases answer with
  | error e =>
    cases hexec
    exact .failed e
  | ok made =>
    have hreturns := hreturns made rfl
    cases made with
    | none =>
      cases hexec
      exact .same (hreturns.2 rfl) plain
    | some r =>
      obtain ⟨hkeeps, hpictures⟩ := hnoted r
      have hadded : (noted r).Keeps s.pictures.size ((noted r).add r).2 :=
        Studio.keeps_add (Nat.le_of_eq (congrArg Array.size hpictures.symm)) r
      cases hexec
      refine .made (mt hreturns.1 (Option.some_ne_none r)) (hkeeps.trans hadded) ?_
      simp [Studio.add, hpictures]

/-- Each operation has one of these outcomes. -/
theorem outcome_action {operation : Operation Place} (h : operation.source < s.pictures.size)
    (hexec : exec (operation.action limit) s = (result, s')) :
    operation.Outcome s result s' := by
  have hsame (r : Raster) : s.Keeps s.pictures.size s ∧ s.pictures = s.pictures :=
    ⟨.refl _ _, rfl⟩
  cases operation with
  | copy p =>
    unfold action at hexec
    rw [Studio.exec_copy] at hexec
    cases hexec
    refine outcome_of_add ?_ _
    exact not_false
  | resize p factor =>
    unfold action at hexec
    rw [Studio.exec_resize] at hexec
    refine outcome_of_made
      (fun r => s.note (.resized (s.picture p).width (s.picture p).height factor r.width r.height))
      (fun r => ⟨Studio.keeps_note _ _ _, rfl⟩) nofun hexec fun made hmade => ?_
    exact Raster.eq_one_of_resize hmade
  | blur p sigma =>
    unfold action at hexec
    rw [Studio.exec_blur] at hexec
    refine outcome_of_made (fun _ => s) hsame nofun hexec fun made hmade => ?_
    rw [← Option.isNone_iff_eq_none, ← Raster.isZero_of_blur hmade]
    rfl
  | overlay p above => exact outcome_overlay h hexec
  | conform p reference =>
    unfold action at hexec
    rw [Studio.exec_conform] at hexec
    refine outcome_of_made (fun _ => s) hsame nofun hexec fun made hmade => ?_
    exact Raster.colours_of_conform hmade

/-- No place is given up. -/
theorem Outcome.size_le {operation : Operation Place} (h : operation.Outcome s result s') :
    s.pictures.size ≤ s'.pictures.size := by
  cases h with
  | failed | same => exact Nat.le_refl _
  | made _ _ size => omega
  | drawn _ _ _ size => omega

/-- The place that is answered lies in the store. -/
theorem Outcome.lt_size {operation : Operation Place} (h : operation.Outcome s (.ok p) s')
    (hsource : operation.source < s.pictures.size) : p < s'.pictures.size := by
  cases h with
  | same => exact hsource
  | made returns keeps size =>
    rw [size]
    exact Nat.lt_succ_self _
  | drawn overlays _ _ size =>
    subst overlays
    rw [size]
    exact hsource

/-- Only a drawing changes a picture, and it answers the place of that one. -/
theorem Outcome.eq_overlay {operation : Operation Place} (h : operation.Outcome s result s')
    (hp : p < s.pictures.size) (hne : s'.picture p ≠ s.picture p) :
    ∃ above, operation = .overlay p above ∧ result = .ok p := by
  cases h with
  | failed | same => exact absurd rfl hne
  | made _ keeps _ => exact absurd (keeps.picture p hp) hne
  | drawn overlays _ others _ =>
    obtain rfl := not_imp_comm.1 (others p) hne
    exact ⟨_, overlays, rfl⟩

/-- What a drawing that answers has drawn. -/
theorem Outcome.covered_of_ok {answer : Place}
    (h : (overlay p q).Outcome s (.ok answer) s') : answer = p ∧
      (s.picture p).covered (s.picture q) = .ok (s'.picture p) ∧
      (∀ other, other ≠ p → s'.picture other = s.picture other) ∧
      s'.pictures.size = s.pictures.size := by
  cases h with
  | same _ plain => exact absurd rfl (plain p q)
  | made returns _ _ => exact absurd trivial returns
  | drawn overlays covered others size =>
    cases overlays
    exact ⟨rfl, covered, others, size⟩

/-- What is answered is the operation's own picture just for those operations that say so; otherwise
it is a new one. -/
theorem Outcome.answer {operation : Operation Place} (h : operation.Outcome s (.ok p) s') :
    operation.ReturnsSource s ∧ p = operation.source ∨
      ¬operation.ReturnsSource s ∧ p = s.pictures.size := by
  cases h with
  | same returns _ => exact .inl ⟨returns, rfl⟩
  | made returns _ _ => exact .inr ⟨returns, rfl⟩
  | drawn overlays _ _ _ =>
    subst overlays
    exact .inl ⟨trivial, rfl⟩

omit [Imaging] in
/-- The picture that an operation works on is found under the name that it has. -/
theorem find_source {find : Name → Except Error Name'} {operation : Operation Name}
    {found : Operation Name'} (h : operation.resolve find = .ok found) :
    find operation.source = .ok found.source := by
  cases operation with
  | copy p | resize p _ | blur p _ =>
    obtain ⟨place, hplace, h⟩ := Chain.bind_eq_ok_iff.1 h
    cases h
    exact hplace
  | overlay p above | conform p reference =>
    obtain ⟨place, hplace, h⟩ := Chain.bind_eq_ok_iff.1 h
    obtain ⟨other, -, h⟩ := Chain.bind_eq_ok_iff.1 h
    cases h
    exact hplace

end Operation

namespace Bench

variable {limit : Int} {b start : Bench} {next : Operation Int} {index : Int} {p : Place}

section Library

variable [Imaging]

/-! ## Calls -/

/-- Each slot names a picture of the store. -/
def Sound (b : Bench) : Prop :=
  ∀ p ∈ b.slots, p < b.studio.pictures.size

omit [Imaging] in
theorem mem_of_find (h : b.find index = .ok p) : p ∈ b.slots := by
  unfold find at h
  cases hplace : Index.place b.slots.size index with
  | error e =>
    rw [hplace] at h
    cases h
  | ok i =>
    rw [hplace] at h
    cases h
    exact Array.getElem_mem i.isLt

/-- A call fails and leaves the bench as it is, or its operation answers a picture for a new
slot. -/
theorem call_cases (limit : Int) (hb : b.Sound) (next : Operation Int) :
    (∃ e, b.call limit next = (.error e, b)) ∨
    ∃ found p studio, next.resolve b.find = .ok found ∧
      found.source < b.studio.pictures.size ∧ found.Outcome b.studio (.ok p) studio ∧
      b.call limit next = (.ok p, ⟨studio, b.slots.push p⟩) := by
  unfold call
  cases hfound : next.resolve b.find with
  | error e => exact .inl ⟨.slot e, rfl⟩
  | ok found =>
    have hsource := hb _ (mem_of_find (Operation.find_source hfound))
    simp only
    generalize hexec : (found.action limit).run b.studio = run
    obtain ⟨result, studio⟩ := run
    have houtcome := Operation.outcome_action hsource hexec
    cases result with
    | error e =>
      cases houtcome
      exact .inl ⟨.operation e, rfl⟩
    | ok p => exact .inr ⟨found, p, studio, rfl, hsource, houtcome, rfl⟩

/-- After a call each slot still names a picture, and no picture is lost. -/
theorem sound_call (limit : Int) (hb : b.Sound) (next : Operation Int) :
    (b.call limit next).2.Sound ∧
      b.studio.pictures.size ≤ (b.call limit next).2.studio.pictures.size := by
  obtain ⟨e, hcall⟩ | ⟨found, p, studio, -, hsource, houtcome, hcall⟩ := call_cases limit hb next
  · rw [hcall]
    exact ⟨hb, Nat.le_refl _⟩
  · rw [hcall]
    refine ⟨fun q hq => ?_, houtcome.size_le⟩
    obtain hold | rfl := Array.mem_push.1 hq
    · exact Nat.lt_of_lt_of_le (hb q hold) houtcome.size_le
    · exact houtcome.lt_size hsource

/-- What a call does to the pictures that its bench knows. -/
structure Framed (limit : Int) (b : Bench) (next : Operation Int) : Prop where
  /-- The slots that there are keep naming the same pictures. -/
  slots : ∀ (i : Nat) (p : Place), b.slots[i]? = some p → (b.call limit next).2.slots[i]? = some p
  /-- Only a picture that is drawn on changes, and that is the one which is answered. -/
  changed : ∀ p < b.studio.pictures.size,
    (b.call limit next).2.studio.picture p ≠ b.studio.picture p →
    ∃ base above, next = .overlay base above ∧ b.find base = .ok p ∧
      (b.call limit next).1 = .ok p
  /-- All slots that name the picture below a drawing show the picture with the drawing on it. -/
  drawn : ∀ base above p, next = .overlay base above → b.find base = .ok p →
    ∀ answer, (b.call limit next).1 = .ok answer →
    ∃ q covered, b.find above = .ok q ∧
      (b.studio.picture p).covered (b.studio.picture q) = .ok covered ∧
      ∀ i : Nat, b.slots[i]? = some p → (b.call limit next).2.contents i = some covered
  /-- A call that fails changes nothing. -/
  failed : ∀ e, (b.call limit next).1 = .error e → (b.call limit next).2 = b
  /-- Drawing a picture on itself changes no picture. -/
  itself : ∀ base above p, next = .overlay base above → b.find base = .ok p →
    b.find above = .ok p → (b.call limit next).2.studio.pictures = b.studio.pictures
  /-- What is answered is named by the new slot. It is the picture that the operation works on, for
  a scaling by one, a blur of width zero, bringing to the same colours and a drawing; otherwise it
  is a picture that no older slot names. -/
  answered : ∀ p, (b.call limit next).1 = .ok p → (b.call limit next).2.slots = b.slots.push p ∧
    ∃ found, next.resolve b.find = .ok found ∧
      (found.ReturnsSource b.studio ∧ p = found.source ∨
        ¬found.ReturnsSource b.studio ∧ p ∉ b.slots)

omit [Imaging] in
/-- An overlay that is found. -/
theorem find_of_resolve_overlay {base above : Int} {found : Operation Place}
    (h : (Operation.overlay base above).resolve b.find = .ok found) :
    ∃ p q, b.find base = .ok p ∧ b.find above = .ok q ∧ found = .overlay p q := by
  obtain ⟨p, hp, h⟩ := Chain.bind_eq_ok_iff.1 h
  obtain ⟨q, hq, h⟩ := Chain.bind_eq_ok_iff.1 h
  cases h
  exact ⟨p, q, hp, hq, rfl⟩

omit [Imaging] in
/-- Only a call of a drawing is found as one. -/
theorem eq_overlay_of_resolve {q : Place} (h : next.resolve b.find = .ok (.overlay p q)) :
    ∃ base above, next = .overlay base above ∧ b.find base = .ok p := by
  cases next with
  | copy | resize | blur =>
    obtain ⟨_, -, h⟩ := Chain.bind_eq_ok_iff.1 h
    cases h
  | conform =>
    obtain ⟨_, -, h⟩ := Chain.bind_eq_ok_iff.1 h
    obtain ⟨_, -, h⟩ := Chain.bind_eq_ok_iff.1 h
    cases h
  | overlay base above => exact ⟨base, above, rfl, Operation.find_source h⟩

omit [Imaging] in
/-- Pictures that are all the same as before. -/
theorem pictures_eq_of_picture {s s' : Studio} (hsize : s'.pictures.size = s.pictures.size)
    (h : ∀ p, s'.picture p = s.picture p) : s'.pictures = s.pictures := by
  refine Array.ext hsize fun p hp hp' => ?_
  have hpicture := h p
  rw [Studio.picture, Studio.picture, Array.getElem?_eq_getElem hp,
    Array.getElem?_eq_getElem hp'] at hpicture
  exact hpicture

omit [Imaging] in
/-- A new slot leaves the older ones alone. -/
theorem getElem?_push_of_some {slots : Array Place} {i : Nat} (q : Place)
    (h : slots[i]? = some p) : (slots.push q)[i]? = some p := by
  obtain ⟨hi, -⟩ := Array.getElem?_eq_some_iff.1 h
  rw [Array.getElem?_push, if_neg hi.ne]
  exact h

/-- Each call frames a bench whose slots name pictures of its store. -/
theorem framed_call (limit : Int) (hb : b.Sound) (next : Operation Int) : b.Framed limit next := by
  obtain ⟨e, hcall⟩ | ⟨found, answer, studio, hfound, hsource, houtcome, hcall⟩ :=
    call_cases limit hb next
  · refine ⟨?_, ?_, ?_, ?_, ?_, ?_⟩ <;> rw [hcall]
    · exact fun _ _ h => h
    · exact fun _ _ hne => absurd rfl hne
    · exact fun _ _ _ _ _ _ h => nomatch h
    · exact fun _ _ => rfl
    · exact fun _ _ _ _ _ _ => rfl
    · exact fun _ h => nomatch h
  · refine ⟨?_, ?_, ?_, ?_, ?_, ?_⟩ <;> rw [hcall]
    · exact fun i p h => getElem?_push_of_some answer h
    · intro p hp hne
      obtain ⟨above, rfl, hanswer⟩ := houtcome.eq_overlay hp hne
      obtain ⟨base, above, hnext, hbase⟩ := eq_overlay_of_resolve hfound
      cases hanswer
      exact ⟨base, above, hnext, hbase, rfl⟩
    · rintro base above p rfl hbase - -
      obtain ⟨p', q, hp', hq, rfl⟩ := find_of_resolve_overlay hfound
      obtain rfl : p' = p := Except.ok.inj (hp'.symm.trans hbase)
      obtain ⟨-, hcovered, -, -⟩ := houtcome.covered_of_ok
      refine ⟨q, _, hq, hcovered, fun i hi => ?_⟩
      rw [contents, getElem?_push_of_some answer hi]
      rfl
    · exact fun _ h => nomatch h
    · rintro base above p rfl hbase habove
      obtain ⟨p', q, hp', hq, rfl⟩ := find_of_resolve_overlay hfound
      obtain rfl : p' = p := Except.ok.inj (hp'.symm.trans hbase)
      obtain rfl : q = p' := Except.ok.inj (hq.symm.trans habove)
      obtain ⟨-, hcovered, hothers, hsize⟩ := houtcome.covered_of_ok
      refine pictures_eq_of_picture hsize fun other => ?_
      by_cases hother : other = q
      · rw [hother]
        exact Raster.covered_self hcovered
      · exact hothers other hother
    · rintro p hp
      cases hp
      refine ⟨rfl, found, hfound, ?_⟩
      obtain hsame | ⟨hreturns, rfl⟩ := houtcome.answer
      · exact .inl hsame
      · exact .inr ⟨hreturns, fun hmem => (hb _ hmem).false⟩

/-! ## Runs -/

/-- After a run of calls each slot still names a picture, and no picture is lost. -/
theorem sound_run (limit : Int) (hstart : start.Sound) (calls : List (Operation Int)) :
    (start.run limit calls).Sound ∧
      start.studio.pictures.size ≤ (start.run limit calls).studio.pictures.size := by
  induction calls generalizing start with
  | nil => exact ⟨hstart, Nat.le_refl _⟩
  | cons next rest ih =>
    obtain ⟨hsound, hsize⟩ := sound_call limit hstart next
    obtain ⟨hsound', hsize'⟩ := ih hsound
    exact ⟨hsound', Nat.le_trans hsize hsize'⟩

/-- A picture that differs after a run was drawn on by one of the calls. -/
theorem exists_overlay_of_run (limit : Int) (hstart : start.Sound) (calls : List (Operation Int))
    (hp : p < start.studio.pictures.size)
    (hne : (start.run limit calls).studio.picture p ≠ start.studio.picture p) :
    ∃ before base above after, calls = before ++ .overlay base above :: after ∧
      (start.run limit before).find base = .ok p := by
  induction calls generalizing start with
  | nil => exact absurd rfl hne
  | cons next rest ih =>
    obtain ⟨hsound, hsize⟩ := sound_call limit hstart next
    by_cases hfirst : (start.call limit next).2.studio.picture p = start.studio.picture p
    · rw [← hfirst] at hne
      obtain ⟨before, base, above, after, rfl, hbase⟩ :=
        ih hsound (Nat.lt_of_lt_of_le hp hsize) hne
      exact ⟨next :: before, base, above, after, rfl, hbase⟩
    · obtain ⟨base, above, rfl, hbase, -⟩ := (framed_call limit hstart next).changed p hp hfirst
      exact ⟨[], base, above, rest, rfl, hbase⟩

/-- Operations have a frame. A bench starts with slots that name pictures of its store, also several
of them the same one, and operations are called with any arguments, some of which may fail. After
any such run the next call changes no picture that there is, unless it draws: then it changes the
picture below alone, and all slots that name that one show the same new picture. A call that fails
changes nothing, and neither does drawing a picture on itself. What a call answers is the picture
that its operation works on, just for a scaling by one, a blur of width zero, bringing to the same
colours and a drawing, or else a picture that no older slot names. Over the whole run a picture
stays as it is unless one of the calls draws on it. -/
theorem calls_framed (limit : Int) (hstart : start.Sound) (calls : List (Operation Int))
    (next : Operation Int) :
    (start.run limit calls).Sound ∧ (start.run limit calls).Framed limit next ∧
      ∀ p < start.studio.pictures.size,
        (start.run limit calls).studio.picture p ≠ start.studio.picture p →
        ∃ before base above after, calls = before ++ .overlay base above :: after ∧
          (start.run limit before).find base = .ok p :=
  have hsound := (sound_run limit hstart calls).1
  ⟨hsound, framed_call limit hsound next,
    fun _ hp hne => exists_overlay_of_run limit hstart calls hp hne⟩

end Library

attribute [local instance] Imaging.standard

/-- Two slots for a dark picture, to which a scaling by one adds a third one: all of them show the
bright picture that is drawn on it. -/
theorem calls_framed_twins :
    let dark : Raster := .generate 1 1 none fun _ _ _ => 0
    let bright : Raster := .generate 1 1 none fun _ _ _ => 7
    let start : Bench := ⟨⟨#[dark, bright], #[]⟩, #[0, 0, 1]⟩
    let b := start.run 100 [.resize 1 .one, .copy 9]
    start.Sound ∧ b.slots = #[0, 0, 1, 0] ∧ (b.call 100 (.overlay 3 2)).1 = .ok 0 ∧
      ∃ covered : Raster, covered.get 0 0 0 = 7 ∧
        ∀ i ∈ [0, 1, 3], (b.call 100 (.overlay 3 2)).2.contents i = some covered := by
  intro dark bright start b
  have hstart : start.Sound := by
    unfold Sound
    decide
  have hslots : b.slots = #[0, 0, 1, 0] := by decide +kernel
  have hanswer : (b.call 100 (.overlay 3 2)).1 = .ok 0 := by decide +kernel
  have hbase : b.find 3 = .ok 0 := by decide +kernel
  have habove : b.find 2 = .ok 1 := by decide +kernel
  have hbright : ((b.studio.picture 0).covered (b.studio.picture 1)).map (·.get 0 0 0) = .ok 7 := by
    decide +kernel
  have hnames : ∀ i ∈ [0, 1, 3], (#[0, 0, 1, 0] : Array Place)[i]? = some 0 := by decide
  obtain ⟨q, covered, hq, hcovered, hall⟩ :=
    (calls_framed 100 hstart [.resize 1 .one, .copy 9] (.overlay 3 2)).2.1.drawn 3 2 0 rfl hbase 0
      hanswer
  obtain rfl : 1 = q := Except.ok.inj (habove.symm.trans hq)
  refine ⟨hstart, hslots, hanswer, covered, ?_, fun i hi => hall i ?_⟩
  · have hvalue := hbright.symm.trans (congrArg (Except.map (·.get 0 0 0)) hcovered)
    exact (Except.ok.inj hvalue).symm
  · exact (congrArg (·[i]?) hslots).trans (hnames i hi)

end Bench

end Montage
