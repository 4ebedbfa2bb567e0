import Thesaurus.CommandLine.Run
import Thesaurus.Proofs.CommandLine.Arguments
import Thesaurus.Proofs.Configuration.Written
import Thesaurus.Proofs.Rdf.Turtle

/-!
# How runs end

A run prints what it was asked for or complains, and its code tells which. Statements reach it as
they were written to the file, and a configuration leaves it in a form that another run reads.

- `Exit.Settled`: a code that agrees with what is printed and complained about.
- `settled_run`: every run ends like this.
- `code_run_eq_two_iff`: the code for misuse is that of wrong arguments.
- `Invocation.configured`: the configuration of a run.
- `reportOn_writeStatements`: a run reports on the statements that were written to its file.
- `run_config`: what is printed of a configuration is read as the configuration.
- `run_config_again`: a run with what was printed prints it again.
-/

namespace Thesaurus

namespace CommandLine

variable {look : String → Option FileEntry} {arguments : List String} {i : Invocation}
  {c : Configuration}

/-! ## Codes -/

/-- Either all went well and there is no complaint, or nothing is printed and there is one. -/
def Exit.Settled (e : Exit) : Prop :=
  (e.code = 0 ∧ e.complaint = "") ∨ (e.code ∈ [1, 2] ∧ e.output = "" ∧ e.complaint ≠ "")

theorem usage_ne_empty : usage ≠ "" := by
  decide +kernel

theorem settled_ofStop (stop : Stop) : (Exit.ofStop stop).Settled := by
  cases stop with
  | misuse => exact .inr ⟨by simp [Exit.ofStop], rfl, usage_ne_empty⟩
  | help => exact .inl ⟨rfl, rfl⟩
  | version => exact .inl ⟨rfl, rfl⟩

theorem settled_ofResult (result : Except String String) : (Exit.ofResult result).Settled := by
  cases result with
  | ok output => exact .inl ⟨rfl, rfl⟩
  | error reason => exact .inr ⟨by simp [Exit.ofResult], rfl, by simp [Exit.ofResult]⟩

theorem run_of_error {stop : Stop} (h : Invocation.ofArguments arguments = .error stop) :
    run (m := Id) look arguments = Exit.ofStop stop := by
  rw [run, h]
  rfl

theorem run_of_ok (h : Invocation.ofArguments arguments = .ok i) :
    run (m := Id) look arguments = Exit.ofResult (i.report (m := Id) look) := by
  rw [run, h]
  rfl

/-- Every run ends with a code that agrees with what is printed and complained about. -/
theorem settled_run (look : String → Option FileEntry) (arguments : List String) :
    (run (m := Id) look arguments).Settled := by
  cases h : Invocation.ofArguments arguments with
  | error stop =>
    rw [run_of_error h]
    exact settled_ofStop stop
  | ok i =>
    rw [run_of_ok h]
    exact settled_ofResult _

/-- The code for misuse is that of wrong arguments, whatever the files hold. -/
theorem code_run_eq_two_iff :
    (run (m := Id) look arguments).code = 2 ↔
      Invocation.ofArguments arguments = .error .misuse := by
  cases h : Invocation.ofArguments arguments with
  | error stop =>
    rw [run_of_error h]
    cases stop <;> simp [Exit.ofStop]
  | ok i =>
    rw [run_of_ok h]
    cases i.report (m := Id) look <;> simp [Exit.ofResult]

/-! ## Configurations -/

/-- A configuration that a run goes by can drive a transform. -/
theorem validate_effective {o : Overrides} {loaded : Except ConfigurationError Configuration}
    (h : effective o loaded = .ok c) : c.validate = .ok () := by
  unfold effective at h
  split at h
  · cases h
  · split at h
    · cases h
    · next hvalid =>
      cases h
      exact hvalid

/-- The configuration of a run: the default or a loaded one, with what the arguments change. -/
def Invocation.configured (look : String → Option FileEntry) (i : Invocation) :
    Except ConfigurationError Configuration :=
  effective i.overrides (i.configuration.elim (.ok {}) fun path =>
    Configuration.ofEntry path (look path))

/-- A run reports under its configuration. -/
theorem report_of_configured (h : i.configured look = .ok c) :
    i.report (m := Id) look = i.command.report (m := Id) look c := by
  obtain ⟨configuration, overrides, command⟩ := i
  cases configuration <;>
  · dsimp only [Invocation.configured, Option.elim] at h
    dsimp only [Invocation.report, bind, pure]
    rw [h]

/-- What is printed of a configuration is read as the configuration. -/
theorem run_config (hread : Invocation.ofArguments arguments = .ok i)
    (hcommand : i.command = .config) (h : i.configured look = .ok c) :
    (run (m := Id) look arguments).code = 0 ∧
      Configuration.ofToml (run (m := Id) look arguments).output = .ok c := by
  have hreport : i.report (m := Id) look = .ok c.toToml := by
    rw [report_of_configured h, hcommand]
    rfl
  have hwritten : Configuration.ofToml c.toToml = c.validate.map fun _ => c :=
    Configuration.ofTomlBy_write Toml.textLayer c
  rw [run_of_ok hread, hreport]
  refine ⟨rfl, ?_⟩
  rw [Exit.ofResult, hwritten, validate_effective h]
  rfl

/-- The arguments for the configuration in a file, without a change. -/
def configArguments (path : String) : Invocation :=
  ⟨some path, ⟨false, false, false, none, none⟩, .config⟩

theorem apply_unchanged (c : Configuration) :
    (Overrides.mk false false false none none).apply c = c := by
  simp [Overrides.apply]

/-- A run with a file that holds what was printed of a configuration prints it again. -/
theorem run_config_again {path : String} (hpath : path ≠ "") (hvalid : c.validate = .ok ())
    (hfile : look path = some (.file c.toToml)) :
    run (m := Id) look (configArguments path).arguments = { code := 0, output := c.toToml } := by
  have hlawful : (configArguments path).IsLawful := by
    simpa [Invocation.IsLawful, Invocation.settings, configArguments, Overrides.settings,
      Command.settings, Setting.IsLawful] using hpath
  have hwritten : Configuration.ofToml c.toToml = c.validate.map fun _ => c :=
    Configuration.ofTomlBy_write Toml.textLayer c
  have hconfigured : (configArguments path).configured look = .ok c := by
    have hloaded : Configuration.ofEntry path (look path) = .ok c := by
      rw [hfile]
      exact hwritten.trans (by rw [hvalid]; rfl)
    simp only [Invocation.configured, configArguments, Option.elim, hloaded, effective,
      apply_unchanged, hvalid]
  rw [run_of_ok (ofArguments_arguments hlawful), report_of_configured hconfigured]
  rfl

/-! ## Statements -/

/-- A run reports on the statements that were written to its file. -/
theorem reportOn_writeStatements {source : Source} {f : Rdf.Format} {triples : List Rdf.Triple}
    (report : List Rdf.Triple → Except String String) (h : ∀ t ∈ triples, t.IsWritable)
    (hf : f ∉ [.rdfXml, .jsonLd]) (hformat : Rdf.formatFor source.path source.format = .ok f)
    (hfile : look source.path = some (.file (String.ofList (Rdf.writeStatements triples)))) :
    reportOn (m := Id) look source report = report triples := by
  have hread := Rdf.Format.read?_of_isWritable h hf
  unfold reportOn
  rw [hformat]
  dsimp only [bind, pure]
  rw [hfile]
  simp only [Rdf.readEntry, Rdf.Format.read, hread]

end CommandLine

end Thesaurus
