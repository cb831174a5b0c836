import AttributeRegistry.Proofs.Command.Again
import AttributeRegistry.Proofs.Compilation.Spread
import AttributeRegistry.Proofs.Storage.Touched
import AttributeRegistry.Proofs.Validation.Accepted

/-!
# What stands before writing

The command that generates writes after everything else: after its arguments were told apart, the
settings loaded and found without problems, targets and versions read, the sources found and read, and
their registry found valid (`Cleared`).

Main statement: for all arguments, either everything stays as it was, or all this was in order, and
then nothing is touched but the places of the directory that was asked for and of those around it, and
of the files of the modules and of the manifest (`touches_of_run`).
-/

namespace AttributeRegistry.Command.Generate

open Codegen

variable {w : Workspace} {arguments : List String} {a : Arguments} {s : Settings} {r : Request}

/-! ## Settings and requests -/

/-- Settings with what the arguments ask for in place of what they say. -/
def asked (base : Settings) (a : Arguments) (targets : List Target) : Settings :=
  { base with
    source := { base.source with
      sources := if a.has "source" then a.all "source" else base.source.sources }
    output := ⟨targets, (a.last? "output").getD base.output.directory⟩
    strict := base.strict || a.has "warnings-as-errors" }

/-- The targets that are asked for, all of which have to be known, or those of the settings. -/
def TargetsAsked (base : Settings) (a : Arguments) (targets : List Target) : Prop :=
  if a.has "target" then parseTargets (a.parts "target") = .ok targets
  else targets = base.output.targets

/-- The version that is asked for, which has to be one, or that of the settings. -/
def VersionAsked (declared : Option Version) (a : Arguments) (version : Option Version) : Prop :=
  match a.last? "registry-version" with
  | some raw => ∃ v, Version.parse raw = .ok v ∧ version = some v
  | none => version = declared

theorem loaded_eq_ok_iff {loaded : Except String Settings} :
    Command.loaded loaded = .ok s ↔ loaded = .ok s := by
  rw [Command.loaded, doing, mapError_eq_ok_iff, mapError_eq_ok_iff]

theorem withSources_eq_ok_iff {base : Settings} :
    withSources base a = .ok s ↔ ∃ targets, TargetsAsked base a targets ∧
      s = { base with
        source := { base.source with
          sources := if a.has "source" then a.all "source" else base.source.sources }
        output := { base.output with targets } } := by
  have hsources : (if a.has "source" then
      { base with source := { base.source with sources := a.all "source" } } else base) =
      { base with source := { base.source with
        sources := if a.has "source" then a.all "source" else base.source.sources } } := by
    split <;> rfl
  unfold withSources TargetsAsked
  rw [hsources]
  by_cases htarget : a.has "target" = true
  · simp only [if_pos htarget, bind_eq_ok_iff, orFail, mapError_eq_ok_iff]
    refine exists_congr fun targets => and_congr_right fun _ => ?_
    exact ⟨fun h => (Except.ok.inj h).symm, fun h => congrArg Except.ok h.symm⟩
  · simp only [if_neg htarget, exists_eq_left]
    exact ⟨fun h => (Except.ok.inj h).symm, fun h => congrArg Except.ok h.symm⟩

/-- The settings are those that were loaded, with what was asked for. -/
theorem exists_of_settings {base : Settings} (h : settings base a = .ok s) :
    ∃ targets, TargetsAsked base a targets ∧ s = asked base a targets := by
  unfold settings at h
  obtain ⟨s', hsources, h⟩ := exists_of_bind_eq_ok h
  obtain ⟨targets, htargets, rfl⟩ := withSources_eq_ok_iff.mp hsources
  exact ⟨targets, htargets, (Except.ok.inj h).symm⟩

/-- Nothing is asked of a run by settings with problems, or in a version that is none. -/
theorem exists_of_request (h : request s a = .ok r) :
    s.problems = [] ∧ ∃ declared, s.version = .ok declared ∧ VersionAsked declared a r.version ∧
      r.targets = s.output.targets ∧ r.profiles = s.profiles ∧ r.strict = s.strict := by
  unfold request at h
  by_cases hproblems : s.problems = []
  · refine ⟨hproblems, ?_⟩
    unfold Settings.request at h
    cases hversion : s.version with
    | error e =>
      simp only [hproblems, hversion, Bind.bind, Except.bind] at h
      cases h
    | ok declared =>
      simp only [hproblems, hversion, Bind.bind, Except.bind] at h
      refine ⟨declared, rfl, ?_⟩
      unfold VersionAsked
      cases hraw : a.last? "registry-version" with
      | none =>
        simp only [hraw] at h
        cases h
        exact ⟨rfl, rfl, rfl, rfl⟩
      | some raw =>
        simp only [hraw] at h
        cases hparse : Version.parse raw with
        | error e =>
          simp only [hparse] at h
          cases h
        | ok v =>
          simp only [hparse] at h
          cases h
          exact ⟨⟨v, hparse, rfl⟩, rfl, rfl, rfl⟩
  · rw [← List.isEmpty_iff, Bool.not_eq_true] at hproblems
    simp only [hproblems] at h
    cases h

/-! ## Valid registries -/

/-- What is found about sources on the way to their registry, from loading to the last check. -/
def found (sources : List Source) (version : Option Version) : Report :=
  let (registry, prior) := (Loaded.ofSources sources).resolve version
  prior ++ registry.check

/-- Nothing that is found about the sources of a valid registry is an error, and nothing at all is
found if warnings count. -/
theorem noErrors_of_compile {sources : List Source} {version : Option Version} {strict : Bool}
    {v : ValidRegistry} (h : compile sources version strict = .ok v) :
    (found sources version).NoErrors ∧ (strict = true → found sources version = []) :=
  Registry.hasErrors_allFindings.mp (Registry.validate_eq_ok_iff.mp h).1

/-! ## In order -/

/-- Everything is in order that stands before writing. -/
structure Cleared (w : Workspace) (arguments : List String) (a : Arguments) (s : Settings) : Prop where
  arguments : Arguments.parse specs arguments = .ok a
  writes : a.has "dry-run" = false
  settings : ∃ base targets, w.loadSettings (a.last? "config") = .ok base ∧
    TargetsAsked base a targets ∧ s = asked base a targets
  problems : s.problems = []
  registry : ∃ declared version sources v, s.version = .ok declared ∧
    VersionAsked declared a version ∧
    w.files.readSources s.source.skipped s.source.sources = .ok sources ∧
    compile sources version s.strict = .ok v ∧
    (found sources version).NoErrors ∧ (s.strict = true → found sources version = [])

/-- The files that are asked for: one module for each target, and the manifest. -/
def paths (s : Settings) : List String :=
  (s.output.targets.map s.profiles.fileName ++ [manifestFile]).map (Path.join s.output.directory)

theorem Prepared.exists_generate {g : Run} (h : Prepared w arguments a s g) :
    (a.has "dry-run" = false → Cleared w arguments a s) ∧
      ∃ v, g.artifacts = generate v s.output.targets s.profiles := by
  obtain ⟨r, sources, hprepare, hread, hrun⟩ := h.exists_sources
  obtain ⟨base, hloaded, hprepare⟩ := exists_of_bind_eq_ok hprepare
  obtain ⟨s', hsettings, hprepare⟩ := exists_of_bind_eq_ok hprepare
  obtain ⟨r', hrequest, hprepare⟩ := exists_of_bind_eq_ok hprepare
  cases hprepare
  obtain ⟨hproblems, declared, hdeclared, hversion, htargets, hprofiles, hstrict⟩ :=
    exists_of_request hrequest
  obtain ⟨hcompile, hartifacts⟩ := Request.run_eq_ok_iff.mp hrun
  rw [Request.compile, hstrict] at hcompile
  obtain ⟨hclean, hnone⟩ := noErrors_of_compile hcompile
  have hasked := exists_of_settings hsettings
  refine ⟨fun hdry => ⟨h.parse, hdry, ?_, hproblems, declared, r.version, sources, g.registry,
    hdeclared, hversion, hread, hcompile, hclean, hnone⟩, g.registry, ?_⟩
  · obtain ⟨targets, htargets, hs⟩ := hasked
    exact ⟨base, targets, loaded_eq_ok_iff.mp hloaded, htargets, hs⟩
  rw [hartifacts, htargets, hprofiles]

/-- The files of a run are those that are asked for, each target's but once. -/
theorem mem_paths_iff {v : ValidRegistry} {path : String} :
    path ∈ ((generate v s.output.targets s.profiles).files s.output.directory).map Prod.fst ↔
      path ∈ paths s := by
  rw [map_fst_files]
  unfold paths Artifacts.fileNames generate
  simp only [List.mem_map, List.mem_append, List.map_map, List.mem_filter, List.mem_singleton,
    Function.comp_apply, List.contains_iff_mem]
  constructor
  · rintro ⟨name, ⟨target, ⟨-, htarget⟩, rfl⟩ | rfl, rfl⟩
    · exact ⟨_, .inl ⟨target, htarget, rfl⟩, rfl⟩
    · exact ⟨_, .inr rfl, rfl⟩
  · rintro ⟨name, ⟨target, htarget, rfl⟩ | rfl, rfl⟩
    · exact ⟨_, .inl ⟨target, ⟨by cases target <;> decide, htarget⟩, rfl⟩, rfl⟩
    · exact ⟨_, .inr rfl, rfl⟩

/-! ## Runs -/

/-- The files a run leaves are as they were unless all before writing was in order. -/
theorem exists_prepared_of_ne (h : (run w arguments).1 ≠ w.files) :
    ∃ a s g, Prepared w arguments a s g ∧ a.has "dry-run" = false := by
  unfold Generate.run runWith at h
  cases hparse : Arguments.parse specs arguments with
  | error message =>
    rw [hparse] at h
    exact absurd rfl h
  | ok a =>
    rw [hparse] at h
    dsimp only at h
    cases hprepare : prepare (w.loadSettings (a.last? "config")) a with
    | error f =>
      rw [hprepare] at h
      exact absurd rfl h
    | ok p =>
      obtain ⟨s, r⟩ := p
      rw [hprepare] at h
      dsimp only at h
      cases hsources : runSources r w s with
      | error e =>
        rw [hsources] at h
        cases e <;> exact absurd rfl h
      | ok g =>
        rw [hsources] at h
        dsimp only at h
        refine ⟨a, s, g, ⟨hparse, r, hprepare, hsources⟩, ?_⟩
        cases hdry : a.has "dry-run" with
        | true => exact absurd (deliver_dry hdry) h
        | false => rfl

theorem fst_deliver {g : Run} (hdry : a.has "dry-run" = false) :
    (deliver w a s g).1 = (g.artifacts.writeTo s.output.directory w.files).1 := by
  unfold deliver
  simp only [hdry, Bool.false_eq_true, if_false]
  rcases g.artifacts.writeTo s.output.directory w.files with ⟨t, written | written⟩ <;> rfl

/-- **Nothing is written unless everything before was in order**, and then nothing is touched but the
places of the directory that was asked for and of those around it, and of the files that were asked for;
these are there if the run ends without an error. -/
theorem touches_of_run (w : Workspace) (arguments : List String) :
    (run w arguments).1 = w.files ∨ ∃ a s, Cleared w arguments a s ∧
      FileTree.Touches
        (FileTree.Around w.files.workingDirectory (Path.components s.output.directory))
        ((run w arguments).1.Leads (paths s)) w.files (run w arguments).1 ∧
      ((run w arguments).2.code = 0 →
        ∀ path ∈ paths s, ∃ text, (run w arguments).1.read path = .ok text) := by
  by_cases hfiles : (run w arguments).1 = w.files
  · exact .inl hfiles
  obtain ⟨a, s, g, hprepared, hdry⟩ := exists_prepared_of_ne hfiles
  obtain ⟨hcleared, v, hartifacts⟩ := hprepared.exists_generate
  have htouches := g.artifacts.touches_writeTo s.output.directory w.files
  refine .inr ⟨a, s, hcleared hdry, ?_, ?_⟩
  · rw [hprepared.run_eq, fst_deliver hdry]
    refine htouches.mono (fun _ => id) ?_
    rintro l ⟨path, hpath, hl⟩
    rw [hartifacts, mem_paths_iff] at hpath
    exact ⟨path, hpath, hl⟩
  · intro hcode path hpath
    rw [hprepared.run_eq] at hcode ⊢
    obtain ⟨t, written, hwrite⟩ := exists_writeTo_of_code hdry hcode
    obtain ⟨t₁, -, hall⟩ := writeTo_eq_ok_iff.mp hwrite
    rw [← mem_paths_iff (v := v), ← hartifacts] at hpath
    obtain ⟨f, hf, rfl⟩ := List.mem_map.mp hpath
    rw [fst_deliver hdry, hwrite]
    exact FileTree.exists_read_writeAll hall f hf

end AttributeRegistry.Command.Generate
