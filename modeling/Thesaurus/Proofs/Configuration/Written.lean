import Thesaurus.Configuration.Storage
import Thesaurus.Proofs.FileTree
import Thesaurus.Proofs.Toml.Document

/-!
# Written configurations are read again

Whatever the language, the switches and the way of sorting, a written configuration is read as the
same configuration, unless it can drive no transform, and then it is refused. All that has to be
known of the text layer is that it reads back the tables that it writes.

- `Toml.TextLayer`: a way of writing tables of settings that are read again.
- `Toml.textLayer`: the one of this development.
- `Configuration.lawful_settings`: what a configuration is written as can be written.
- `Configuration.ofTable?_entries`: the written table describes the configuration.
- `Configuration.ofTomlBy_write`: reading what was written comes to checking the configuration.
- `Configuration.loadBy_save`: so does loading it from where it was saved.
- `Configuration.settings_read_again`: what that means for both kinds of configurations.
-/

namespace Thesaurus

/-! ## Text layers -/

/-- A way of writing tables of settings, and of reading documents, such that a table that was
written is read again. -/
structure Toml.TextLayer where
  write : Settings → String
  readTable? : String → Option (List (String × Value))
  readTable?_write : ∀ {s : Settings}, s.Lawful → readTable? (write s) = some s.entries

/-- The text layer of `Toml.Settings.write` and `Toml.readTable?`. -/
def Toml.textLayer : TextLayer where
  write := Settings.write
  readTable? := Toml.readTable?
  readTable?_write := Toml.readTable?_write

namespace Configuration

open Toml (TextLayer)

variable {layer : TextLayer} {c : Configuration} {files files' : FileTree} {path : String}

/-! ## Tables -/

/-- The names of what a configuration is written as need no quotes and differ. -/
theorem lawful_settings (c : Configuration) : c.settings.Lawful := by
  have houter : Toml.AreNames ["primary_language", "concept_schemes", "collections",
      "resolve_urls", "notation"] := by decide
  have hinner : Toml.AreNames ["format", "default_axis"] := by decide
  obtain ⟨language, schemes, collections, urls, _ | s⟩ := c
  · exact { outer := houter.sublist (List.sublist_append_left _ ["notation"]), tables := nofun }
  · exact { outer := houter, tables := fun table htable => List.mem_singleton.1 htable ▸ hinner }

/-- The table that a configuration is written as describes it. -/
theorem ofTable?_entries (c : Configuration) : ofTable? c.settings.entries = some c := by
  obtain ⟨language, schemes, collections, urls, _ | ⟨format, axis⟩⟩ := c
  · rfl
  · cases format <;> cases axis <;> rfl

/-! ## Texts and files -/

/-- Reading a written configuration comes to checking it. -/
theorem ofTomlBy_write (layer : TextLayer) (c : Configuration) :
    ofTomlBy layer.readTable? (layer.write c.settings) = c.validate.map fun _ => c := by
  rw [ofTomlBy, layer.readTable?_write c.lawful_settings, Option.bind_some, ofTable?_entries]
  dsimp only
  cases c.validate <;> rfl

/-- Whether directories are missing or not, what is saved in the end is one file. -/
theorem exists_write_of_save {write : Toml.Settings → String}
    (h : saveBy write c files path = .ok files') :
    ∃ t : FileTree, t.write? path (write c.settings) = some files' := by
  unfold saveBy at h
  dsimp only at h
  -- a path without a parent is written to as it is, the others once their directories exist
  split at h
  · split at h
    · next hwrite =>
      cases h
      exact ⟨_, hwrite⟩
    · cases h
  · split at h
    · split at h
      · next hwrite =>
        cases h
        exact ⟨_, hwrite⟩
      · cases h
    · cases h

/-- Loading a configuration from where it was saved comes to checking it, too. -/
theorem loadBy_save (h : saveBy layer.write c files path = .ok files') :
    loadBy layer.readTable? files' path = c.validate.map fun _ => c := by
  obtain ⟨t, hwrite⟩ := exists_write_of_save h
  rw [loadBy, FileTree.look?_write hwrite, ofEntryBy, ofTomlBy_write]

theorem validate_eq_error (h : c.validate ≠ .ok ()) : c.validate = .error .blankLanguage := by
  unfold validate at h ⊢
  split at h
  · next hblank => rw [if_pos hblank]
  · exact absurd rfl h

/-- Whatever text layer reads back what it writes: a configuration that can drive a transform is
read again from its written form, and loaded again from where it was saved. One that cannot is
refused for its language by both, and never read as another. -/
theorem settings_read_again (layer : TextLayer) (c : Configuration) :
    (c.validate = .ok () →
      ofTomlBy layer.readTable? (layer.write c.settings) = .ok c ∧
      ∀ files path files', saveBy layer.write c files path = .ok files' →
        loadBy layer.readTable? files' path = .ok c) ∧
    (c.validate ≠ .ok () →
      ofTomlBy layer.readTable? (layer.write c.settings) = .error .blankLanguage ∧
      ∀ files path files', saveBy layer.write c files path = .ok files' →
        loadBy layer.readTable? files' path = .error .blankLanguage) := by
  constructor
  · intro hvalid
    have houtcome : (c.validate.map fun _ => c) = .ok c := by rw [hvalid]; rfl
    exact ⟨(ofTomlBy_write layer c).trans houtcome, fun _ _ _ hsave =>
      (loadBy_save hsave).trans houtcome⟩
  · intro hinvalid
    have houtcome : (c.validate.map fun _ => c) = .error .blankLanguage := by
      rw [validate_eq_error hinvalid]
      rfl
    exact ⟨(ofTomlBy_write layer c).trans houtcome, fun _ _ _ hsave =>
      (loadBy_save hsave).trans houtcome⟩

/-- A configuration whose language has quotes of both kinds, a backslash, a line break and a control
character. -/
def quoted : Configuration where
  primaryLanguage := "\x22\x22\x22\n\x27\x27\x27\\\x01é\x22"
  conceptSchemes := true
  notationSort := some ⟨.float, .byNotation⟩

/-- A configuration whose language is blank. -/
def blank : Configuration where
  primaryLanguage := " \n"
  collections := true

theorem settings_read_again_quoted :
    quoted.validate = .ok () ∧ ofToml quoted.toToml = .ok quoted ∧
    (∃ files, quoted.save {} "nested/transform.toml" = .ok files ∧
      load files "nested/transform.toml" = .ok quoted) ∧
    blank.validate ≠ .ok () ∧ ofToml blank.toToml = .error .blankLanguage ∧
    ∃ files, blank.save {} "transform.toml" = .ok files ∧
      load files "transform.toml" = .error .blankLanguage := by
  have hvalid : quoted.validate = .ok () := by decide
  have hinvalid : blank.validate ≠ .ok () := by decide
  obtain ⟨hread, hload⟩ := (settings_read_again Toml.textLayer quoted).1 hvalid
  obtain ⟨hrefuse, hrefuseFile⟩ := (settings_read_again Toml.textLayer blank).2 hinvalid
  have hsave : ∃ files, quoted.save {} "nested/transform.toml" = .ok files := ⟨_, rfl⟩
  have hsaveBlank : ∃ files, blank.save {} "transform.toml" = .ok files := ⟨_, rfl⟩
  obtain ⟨files, hsave⟩ := hsave
  obtain ⟨filesBlank, hsaveBlank⟩ := hsaveBlank
  exact ⟨hvalid, hread, ⟨files, hsave, hload _ _ _ hsave⟩, hinvalid, hrefuse,
    filesBlank, hsaveBlank, hrefuseFile _ _ _ hsaveBlank⟩

end Configuration

end Thesaurus
