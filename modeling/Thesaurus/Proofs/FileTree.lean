import Mathlib.Tactic.ByContra
import Mathlib.Tactic.SplitIfs
import Thesaurus.FileTree

/-!
# What is written is found

A path that a file was written to leads to the file. And however files and directories are added,
each of them lies in a directory, so that a tree of files is a tree.

- `walk?_add_file`: a new file does not change where steps lead.
- `look?_write`: the path that a file is written to leads to it.
- `Closed`: what there is lies in a directory.
- `Closed.createSteps`, `Closed.write`: the ways in which a tree grows keep to that.
- `closed_ofFiles`: so a tree of any files does.
-/

namespace Thesaurus

namespace FileTree

open FilePath (endsIdle fileName?)

variable {t t' : FileTree} {place : List String} {entry : FileEntry} {path text : String}

theorem entry?_add_self (h : isAround place = false) :
    FileTree.entry? (t.add place entry) place = some entry := by
  simp [ entry?, add, h]

theorem entry?_add_of_ne {other : List String} (h : other ≠ place) :
    FileTree.entry? (t.add place entry) other = t.entry? other := by
  simp [ entry?, add, List.lookup_cons, beq_false_of_ne h]

/-- A place where there is no directory is neither the directory of the tree nor one around it. -/
theorem isAround_of_not_directory (h : t.entry? place ≠ some .directory) :
    isAround place = false := by
  by_contra haround
  rw [Bool.not_eq_false] at haround
  exact h (by rw [ entry?, if_pos haround])

/-- A file in a place without a directory does not change where there are directories. -/
theorem entry?_add_file (h : t.entry? place ≠ some .directory) (other : List String) :
    FileTree.entry? (t.add place (.file text)) other = some .directory ↔
      t.entry? other = some .directory := by
  by_cases hsame : other = place
  · subst hsame
    rw [entry?_add_self (isAround_of_not_directory h)]
    simp [h]
  · rw [entry?_add_of_ne hsame]

/-- A file in a place without a directory does not change where steps lead. -/
theorem walk?_add_file (h : t.entry? place ≠ some .directory) (steps start : List String) :
    (t.add place (.file text)).walk? steps start = t.walk? steps start := by
  induction steps generalizing start with
  | nil => rfl
  | cons step steps ih =>
    rw [walk?, walk?, ih, ih]
    simp only [entry?_add_file h]

/-- The path that a file is written to leads to the file. -/
theorem look?_write (h : t.write? path text = some t') : t'.look? path = some (.file text) := by
  unfold write? at h
  split_ifs at h with hbarred
  rw [Bool.or_eq_true, Bool.not_eq_true', not_or, Bool.not_eq_false, Bool.not_eq_true] at hbarred
  split at h
  · next name place hname hplace =>
    split_ifs at h with htaken
    obtain rfl := Option.some.inj h
    rw [Bool.or_eq_true, decide_eq_true_eq, not_or] at htaken
    -- the empty path leads nowhere, but it has no name either
    have hnonempty : (path == "") = false := by
      by_contra hempty
      rw [Bool.not_eq_false, beq_iff_eq] at hempty
      subst hempty
      have hunnamed : fileName? "" = none := by decide
      exact absurd (hunnamed.symm.trans hname) (Option.some_ne_none name).symm
    rw [look?]
    simp [hnonempty, hbarred, hname, walk?_add_file htaken.1, hplace,
      entry?_add_self (isAround_of_not_directory htaken.1)]
  · cases h

/-! ## Trees -/

/-- What there is lies in a directory. -/
def Closed (t : FileTree) : Prop :=
  ∀ place, isAround place = false → t.entry? place ≠ none →
    t.entry? place.dropLast = some .directory

theorem entry?_around (h : isAround place = true) : t.entry? place = some .directory := by
  rw [ entry?, if_pos h]

theorem Closed.stepBack (h : Closed t) (hplace : t.entry? place = some .directory) :
    t.entry? (stepBack place) = some .directory := by
  unfold FileTree.stepBack
  split
  · next haround => exact entry?_around (by simpa [isAround] using haround)
  · next haround => exact h place (Bool.not_eq_true _ ▸ haround) (by simp [hplace])

/-- Steps from a directory lead to a directory. -/
theorem Closed.walk (h : Closed t) {steps start : List String}
    (hstart : t.entry? start = some .directory) (hwalk : t.walk? steps start = some place) :
    t.entry? place = some .directory := by
  induction steps generalizing start with
  | nil => exact Option.some.inj hwalk ▸ hstart
  | cons step steps ih =>
    rw [walk?] at hwalk
    split_ifs at hwalk with hback hdown
    · exact ih (h.stepBack hstart) hwalk
    · exact ih hdown hwalk

/-- A new entry in a directory keeps a tree closed, unless it hides a directory. -/
theorem Closed.add {name : String} (h : Closed t) (hplace : t.entry? place = some .directory)
    (hfresh : t.entry? (place ++ [name]) ≠ some .directory) :
    Closed (t.add (place ++ [name]) entry) := by
  -- a directory is still found where it was found before
  have hkeep {other : List String} (hother : t.entry? other = some .directory) :
      FileTree.entry? (t.add (place ++ [name]) entry) other = some .directory := by
    have hne : other ≠ place ++ [name] := by
      rintro rfl
      exact hfresh hother
    rw [entry?_add_of_ne hne]
    exact hother
  intro other haround hother
  by_cases heq : other = place ++ [name]
  · rw [heq, List.dropLast_concat]
    exact hkeep hplace
  · rw [entry?_add_of_ne heq] at hother
    exact hkeep (h other haround hother)

theorem Closed.createSteps {steps : List String} (h : Closed t)
    (hplace : t.entry? place = some .directory) (hcreate : createSteps? steps place t = some t') :
    Closed t' := by
  induction steps generalizing place t with
  | nil => exact Option.some.inj hcreate ▸ h
  | cons step steps ih =>
    rw [createSteps?] at hcreate
    split at hcreate
    · exact ih h (h.stepBack hplace) hcreate
    · split at hcreate
      · next hdirectory => exact ih h hdirectory hcreate
      · cases hcreate
      · next hmissing =>
        split_ifs at hcreate
        have hfresh : t.entry? (place ++ [step]) ≠ some .directory := by simp [hmissing]
        exact ih (h.add hplace hfresh) (entry?_add_self (isAround_of_not_directory hfresh)) hcreate

theorem Closed.write (h : Closed t) (hwrite : t.write? path text = some t') : Closed t' := by
  unfold write? at hwrite
  split_ifs at hwrite
  split at hwrite
  · next name place hname hwalk =>
    split_ifs at hwrite with hbarred
    rw [Bool.or_eq_true, decide_eq_true_eq, not_or] at hbarred
    exact Option.some.inj hwrite ▸ h.add (h.walk (entry?_around rfl) hwalk) hbarred.1
  · cases hwrite

theorem Closed.createDirectories (h : Closed t) (hcreate : t.createDirectories? path = some t') :
    Closed t' := by
  unfold createDirectories? at hcreate
  split_ifs at hcreate
  exact h.createSteps (entry?_around rfl) hcreate

/-- Whatever the files are, each of them lies in a directory, and so do the directories. -/
theorem closed_ofFiles (files : List (String × String)) : Closed (ofFiles files) := by
  refine List.foldlRecOn files _ (fun place haround h => ?_) fun t h file _ => ?_
  · exact absurd (by simp [ entry?, haround]) h
  -- a file that cannot be written leaves the tree as it is
  · obtain ⟨path, text⟩ := file
    generalize hgrown :
      ((FilePath.parent? path).bind t.createDirectories?).bind (·.write? path text) = grown
    cases grown with
    | none => simpa [hgrown] using h
    | some t' =>
      obtain ⟨t₁, hparent, hwrite⟩ := Option.bind_eq_some_iff.1 hgrown
      obtain ⟨parent, _, hcreate⟩ := Option.bind_eq_some_iff.1 hparent
      simpa [hgrown] using (h.createDirectories hcreate).write hwrite

end FileTree

end Thesaurus
