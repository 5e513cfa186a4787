import Montage.Picture.Folder

/-!
# Files and the tree that they lie in

Following a path only asks which names lead to folders. So folders that differ in what their files
hold are followed alike (`SameTree.follow_eq`), and a new text file changes the way of no path that
leads to an image: what is read after it was made could be read before, and is the same
(`WithText.load_eq`).
-/

namespace Montage

/-- Whether a folder lies under a name. -/
def Entry.isFolder : Entry → Bool
  | .folder => true
  | _ => false

namespace Folder

variable {f f' : Folder} {here names q : List String} {name : String} {entry : Entry}

/-! ## Following a path -/

/-- A path ends where nothing lies. -/
theorem follow_of_none (h : f.entry? here = none) (name : String) (rest : List String) :
    f.follow here (name :: rest) = .error .missing := by
  rw [follow, h]

/-- A file stops a path. -/
theorem follow_of_file (h : f.entry? here = some entry) (hfile : entry ≠ .folder) (name : String)
    (rest : List String) : f.follow here (name :: rest) = .error .throughFile := by
  rw [follow, h]
  cases entry with
  | folder => exact absurd rfl hfile
  | image remarks decoding => rfl
  | text contents => rfl

/-- From a folder a path goes on. -/
theorem follow_of_folder (h : f.entry? here = some .folder) (name : String) (rest : List String) :
    f.follow here (name :: rest) =
      if Path.isIdle name then f.follow here rest
      else if name = Path.above then f.follow (Path.parent here) rest
      else if Path.longestName < name.utf8ByteSize then .error .tooLong
      else f.follow (here ++ [name]) rest := by
  rw [follow, h]

/-- A path with another name only goes on from a folder. -/
theorem entry?_of_follow {rest : List String} (h : f.follow here (name :: rest) = .ok names) :
    f.entry? here = some .folder := by
  cases hentry : f.entry? here with
  | none =>
    rw [follow_of_none hentry] at h
    cases h
  | some entry =>
    by_cases hfolder : entry = .folder
    · rw [hfolder]
    · rw [follow_of_file hentry hfolder] at h
      cases h

/-! ## The same tree -/

/-- Two folders that have folders and files under the same names, whatever the files hold. -/
def SameTree (f f' : Folder) : Prop :=
  ∀ names, (f.entry? names).map Entry.isFolder = (f'.entry? names).map Entry.isFolder

namespace SameTree

/-- Nothing lies under the same names. -/
theorem entry?_eq_none (h : f.SameTree f') (hnone : f.entry? names = none) :
    f'.entry? names = none := by
  have hkind := h names
  rw [hnone] at hkind
  exact Option.map_eq_none_iff.1 hkind.symm

/-- What is a folder in one of them is one in the other, and so for files. -/
theorem exists_entry? (h : f.SameTree f') (hsome : f.entry? names = some entry) :
    ∃ entry', f'.entry? names = some entry' ∧ (entry' = .folder ↔ entry = .folder) := by
  have hkind := h names
  rw [hsome] at hkind
  obtain ⟨entry', hentry', heq⟩ := Option.map_eq_some_iff.1 hkind.symm
  refine ⟨entry', hentry', ?_⟩
  cases entry <;> cases entry' <;> simp_all [Entry.isFolder]

/-- Paths lead the same way. -/
theorem follow_eq (h : f.SameTree f') (here rest : List String) :
    f'.follow here rest = f.follow here rest := by
  -- Along the names of the path; each step asks what lies here.
  induction rest generalizing here with
  | nil => rfl
  | cons name rest ih =>
    cases hentry : f.entry? here with
    | none => rw [follow_of_none hentry, follow_of_none (h.entry?_eq_none hentry)]
    | some entry =>
      obtain ⟨entry', hentry', hfolder⟩ := h.exists_entry? hentry
      by_cases hkind : entry = .folder
      · rw [hkind] at hentry
        rw [hfolder.2 hkind] at hentry'
        rw [follow_of_folder hentry, follow_of_folder hentry', ih, ih, ih]
      · have hkind' : entry' ≠ .folder := fun heq => hkind (hfolder.1 heq)
        rw [follow_of_file hentry hkind, follow_of_file hentry' hkind']

/-- A text file is made under the same names, or refused for the same reason. -/
theorem createText_fst (h : f.SameTree f') (path : String) :
    (f'.createText path).map Prod.fst = (f.createText path).map Prod.fst := by
  unfold createText
  dsimp only
  rw [h.follow_eq]
  split
  · rfl
  · split
    · rfl
    · split
      · rfl
      · rename_i names _
        -- What lies there is asked for one thing only, whether it is a folder.
        cases hentry : f.entry? names with
        | none =>
          rw [h.entry?_eq_none hentry]
          rfl
        | some entry =>
          obtain ⟨entry', hentry', hfolder⟩ := h.exists_entry? hentry
          rw [hentry']
          cases entry <;> cases entry' <;> simp_all [Except.map]

end SameTree

/-! ## A text file more -/

/-- The folders above some names are all there. -/
def Rooted (f : Folder) (names : List String) : Prop :=
  ∀ q, q <+: names → q ≠ names → f.entry? q = some .folder

/-- A name in a folder. -/
theorem Rooted.concat (h : f.Rooted here) (hfolder : f.entry? here = some .folder) (name : String) :
    f.Rooted (here ++ [name]) := by
  intro q hprefix hne
  obtain heq | hbefore := List.prefix_concat_iff.1 hprefix
  · exact absurd heq hne
  · by_cases hhere : q = here
    · rw [hhere]
      exact hfolder
    · exact h q hbefore hhere

/-- The folder above a folder. -/
theorem Rooted.parent (h : f.Rooted here) (hfolder : f.entry? here = some .folder) :
    f.Rooted (Path.parent here) := by
  unfold Path.parent
  cases hlast : here.getLast? with
  | none =>
    obtain rfl := List.getLast?_eq_none_iff.1 hlast
    exact h.concat hfolder Path.above
  | some name =>
    simp only
    split
    · exact h
    · split
      · exact h.concat hfolder Path.above
      · intro q hprefix hne
        have hbefore : q <+: here := hprefix.trans (List.dropLast_prefix here)
        refine h q hbefore fun heq => ?_
        -- Without its last name the way is shorter.
        have hlength := hprefix.length_le
        have hnil : here ≠ [] := fun hnil => by simp [hnil] at hlast
        have hpos := List.length_pos_iff.2 hnil
        rw [heq, List.length_dropLast] at hlength
        omega

/-- The way along a path leads through folders. -/
theorem Rooted.follow {rest : List String} (h : f.Rooted here)
    (hfollow : f.follow here rest = .ok names) : f.Rooted names := by
  -- Along the names of the path.
  induction rest generalizing here with
  | nil =>
    obtain rfl := Except.ok.inj hfollow
    exact h
  | cons name rest ih =>
    have hfolder := entry?_of_follow hfollow
    rw [follow_of_folder hfolder] at hfollow
    split at hfollow
    · exact ih h hfollow
    · split at hfollow
      · exact ih (h.parent hfolder) hfollow
      · split at hfollow
        · cases hfollow
        · exact ih (h.concat hfolder name) hfollow

/-- Where a path starts, the folders above are there. -/
theorem rooted_origin (f : Folder) (path : String) : f.Rooted (Path.origin path) := by
  have hstart : f.entry? [] = some .folder := rfl
  intro q hprefix hne
  unfold Path.origin at hprefix hne
  split at hprefix
  · rename_i hroot
    rw [if_pos hroot] at hne
    have hnil : q = [] := by
      have hconcat : q <+: [] ++ [Path.root] := hprefix
      obtain heq | hbefore := List.prefix_concat_iff.1 hconcat
      · exact absurd heq hne
      · exact List.prefix_nil.1 hbefore
    rw [hnil]
    exact hstart
  · rw [List.prefix_nil.1 hprefix]
    exact hstart

/-- The folder `f'` is the folder `f` with a text file under some names, perhaps in place of another
file. -/
structure WithText (f : Folder) (names : List String) (f' : Folder) : Prop where
  /-- The folders above are there. -/
  rooted : f.Rooted names
  /-- The text file is there. -/
  text : ∃ contents, f'.entry? names = some (.text contents)
  /-- All else is as it was. -/
  entry?_of_ne : ∀ q, q ≠ names → f'.entry? q = f.entry? q

/-- Where no folder lies, nothing lies at the start of all paths. -/
theorem not_isOutermost (h : f.entry? names ≠ some .folder) : ¬ Path.isOutermost names = true := by
  intro houter
  exact h (if_pos houter)

/-- A text is written under names where no folder lies. -/
theorem withText_write (hrooted : f.Rooted names) (hfile : f.entry? names ≠ some .folder)
    (contents : String) : f.WithText names (f.write names contents) where
  rooted := hrooted
  text := by
    refine ⟨contents, ?_⟩
    rw [ entry?, if_neg (not_isOutermost hfile)]
    simp [write]
  entry?_of_ne := by
    intro q hne
    have hne' : ¬ names = q := fun heq => hne heq.symm
    unfold entry?
    by_cases houter : Path.isOutermost q = true
    · rw [if_pos houter, if_pos houter]
    · rw [if_neg houter, if_neg houter]
      -- The first entry under other names is found behind the new one.
      have hfind : List.find? (·.1 == q) (f.write names contents) = List.find? (·.1 == q) f := by
        rw [write, List.find?_cons_of_neg (by simpa using hne'), List.find?_filter]
        congr 1
        funext entry
        by_cases heq : entry.1 = q
        · simp [heq, hne]
        · simp [heq]
      rw [hfind]
      cases hfound : List.find? (·.1 == q) f with
      | some entry => rfl
      | none =>
        -- A name on the way to the new file is a folder already.
        by_cases hway : q <+: names
        · have hfolder := hrooted q hway hne
          rw [ entry?, if_neg houter, hfound] at hfolder
          have hway' : q.isPrefixOf names = true := List.isPrefixOf_iff_prefix.2 hway
          simp only at hfolder ⊢
          rw [hfolder]
          simp [write, hway']
        · have hway' : ¬ q.isPrefixOf names = true := fun h => hway (List.isPrefixOf_iff_prefix.1 h)
          have hany : List.any (f.write names contents) (fun entry => q.isPrefixOf entry.1) =
              List.any f (fun entry => q.isPrefixOf entry.1) := by
            rw [write, List.any_cons, Bool.eq_false_iff.2 hway', Bool.false_or, List.any_filter]
            congr 1
            funext entry
            by_cases heq : entry.1 = names
            · simp [heq, hway']
            · simp [heq]
          simp only [hany]

/-- A text file that was made. -/
theorem withText_of_createText {path : String} (h : f.createText path = .ok (names, f')) :
    f.WithText names f' := by
  unfold createText at h
  dsimp only at h
  split at h
  · cases h
  · split at h
    · cases h
    · split at h
      · cases h
      · rename_i found hfollow
        split at h
        · cases h
        · rename_i hfile
          obtain ⟨rfl, rfl⟩ := Prod.mk.inj (Except.ok.inj h)
          exact withText_write ((rooted_origin f path).follow hfollow) hfile ""

/-- More text in the text file. -/
theorem WithText.appendText (h : f.WithText names f') (more : String) :
    f.WithText names (f'.appendText names more) := by
  obtain ⟨contents, htext⟩ := h.text
  have hrooted : f'.Rooted names := fun q hprefix hne => by
    rw [h.entry?_of_ne q hne]
    exact h.rooted q hprefix hne
  have hfile : f'.entry? names ≠ some .folder := by
    rw [htext]
    nofun
  rw [Folder.appendText, htext]
  have hwrite := withText_write hrooted hfile (contents ++ more)
  exact ⟨h.rooted, hwrite.text, fun q hne => (hwrite.entry?_of_ne q hne).trans
    (h.entry?_of_ne q hne)⟩

/-- What is no text lies where it lay. -/
theorem WithText.entry?_eq (h : f.WithText names f') (hsome : f'.entry? q = some entry)
    (hkind : ∀ contents, entry ≠ .text contents) : f.entry? q = some entry := by
  by_cases heq : q = names
  · obtain ⟨contents, htext⟩ := h.text
    rw [heq, htext] at hsome
    exact absurd (Option.some.inj hsome).symm (hkind contents)
  · rw [← h.entry?_of_ne q heq]
    exact hsome

/-- What lies under a path is found by following it, unless its text is none of a path. -/
theorem resolve_eq_ok_iff {path : String} : f.resolve path = .ok entry ↔
    (¬ path.toList.contains '\x00' = true ∧ path ≠ "" ∧ ¬ Path.longest < path.utf8ByteSize) ∧
      ∃ names, f.follow (Path.origin path) (Path.split path) = .ok names ∧
        f.entry? names = some entry := by
  by_cases hpath : ¬ path.toList.contains '\x00' = true ∧ path ≠ "" ∧
      ¬ Path.longest < path.utf8ByteSize
  · obtain ⟨hnull, hempty, hlong⟩ := hpath
    rw [resolve, if_neg hnull, if_neg hempty, if_neg hlong]
    cases hfollow : f.follow (Path.origin path) (Path.split path) with
    | error fault => simp
    | ok names => cases hentry : f.entry? names <;> simp_all
  · refine ⟨fun h => absurd ?_ hpath, fun h => absurd h.1 hpath⟩
    unfold resolve at h
    split at h
    · cases h
    · split at h
      · cases h
      · split at h
        · cases h
        · exact ⟨‹_›, ‹_›, ‹_›⟩

/-- There is an image file in a folder, with these remarks, of which this comes when it is
decoded. -/
def Holds (f : Folder) (remarks : List String) (decoding : Decoding) : Prop :=
  ∃ names, f.entry? names = some (.image remarks decoding)

/-- A remark on an image file in a folder. -/
def Remarks (f : Folder) (remark : String) : Prop :=
  ∃ remarks decoding, f.Holds remarks decoding ∧ remark ∈ remarks

/-- No image file is new. -/
theorem WithText.holds {remarks : List String} {decoding : Decoding} (h : f.WithText names f')
    (hholds : f'.Holds remarks decoding) : f.Holds remarks decoding := by
  obtain ⟨q, hentry⟩ := hholds
  exact ⟨q, h.entry?_eq hentry (by nofun)⟩

/-- What is read is an image file in the folder, unless there is none under the path. -/
theorem load_cases (f : Folder) (path : String) :
    (∃ remarks decoding, f.Holds remarks decoding ∧
      f.load path = (remarks, decoding.image path)) ∨
    (∃ fault, f.load path = ([], .error (.unreachable path fault))) ∨
    f.load path = ([], .error (.noImage path)) := by
  unfold load
  split
  · exact .inr (.inl ⟨_, rfl⟩)
  · exact .inr (.inl ⟨_, rfl⟩)
  · exact .inr (.inr rfl)
  · rename_i remarks decoding hresolve
    obtain ⟨-, names, -, hentry⟩ := resolve_eq_ok_iff.1 hresolve
    exact .inl ⟨remarks, decoding, ⟨names, hentry⟩, rfl⟩

/-- The remarks that come with an image are remarks on a file in the folder. -/
theorem remarks_of_load {path remark : String} (h : remark ∈ (f.load path).1) :
    f.Remarks remark := by
  obtain ⟨remarks, decoding, hholds, hload⟩ | ⟨fault, hload⟩ | hload := f.load_cases path
  · rw [hload] at h
    exact ⟨remarks, decoding, hholds, h⟩
  · rw [hload] at h
    cases h
  · rw [hload] at h
    cases h

end Folder

end Montage
