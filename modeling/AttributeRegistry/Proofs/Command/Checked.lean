import AttributeRegistry.Command.Program
import AttributeRegistry.Proofs.Command.Cleared
import AttributeRegistry.Proofs.Json.Values
import AttributeRegistry.Proofs.Storage.Written

/-!
# What a check ends with

The command that checks for drift compares the modules of a fresh run with the files of a directory,
unless something fails before: loading the settings, reading the targets and the version that are asked
for, reading the sources, compiling the registry, reading the files or the manifest (`Compares`). Its
exit code tells these cases apart, and both forms of its report tell how many modules differ (`Tells`).

Main statement: for all arguments against a directory, `2` is the exit code of a check that compares
nothing, `1` that of a strict one that finds a module that differs, and `0` that of all others
(`code_exact`).
-/

namespace AttributeRegistry

open Codegen

/-! ## Reports in JSON -/

namespace Json

/-- **A value is the whole text that spells it.** -/
theorem parse_of_spells {v : Json} {text : String} {cs gap : List Char} (h : Readable maxDepth v)
    (hs : Spells v cs) (hgap : Gap gap) (htext : text.toList = cs ++ gap) : parse text = .ok v := by
  have hread := reads_value h gap_nil hs (ends_of_gap hgap ends_nil)
  have hskip := skipGap_append hgap []
  rw [List.append_nil] at hread hskip
  rw [List.nil_append] at hread
  unfold parse
  rw [htext, hread]
  simp only [Bind.bind, Except.bind, hskip]
  rfl

end Json

namespace DriftReport

/-- An entry of a report in JSON says that a module is as it was written. -/
def saysUnchanged (entry : Json) : Bool :=
  match entry.get? "status" with
  | some (.str status) => status == "unchanged"
  | _ => false

theorem saysUnchanged_itemJson (i : DriftItem) : saysUnchanged (itemJson i) = !i.isDrift := by
  obtain ⟨target, fileName, status⟩ := i
  cases status <;> rfl

theorem readable_itemJson (i : DriftItem) (depth : Nat) : Json.Readable (depth + 1) (itemJson i) := by
  obtain ⟨target, fileName, status⟩ := i
  refine .obj ?_
  cases status <;> simp [statusMembers, Json.Readable.str]

theorem readable_members (r : DriftReport) (depth : Nat) :
    ∀ m ∈ r.members, Json.Readable (depth + 2) m.2 := by
  have hitems : Json.Readable (depth + 2) (.arr (r.items.map itemJson)) := by
    refine .arr fun v hv => ?_
    obtain ⟨i, -, rfl⟩ := List.mem_map.mp hv
    exact readable_itemJson i depth
  unfold members
  cases r.writtenVersion <;> simp [Json.Readable.str, Json.Readable.bool, hitems]

end DriftReport

/-! ## Reading what was written -/

/-- The files in a directory differ from a module: there is none of its name, or one with another
text. -/
def FileTree.Differs (t : FileTree) (directory : String) (i : Artifact) : Prop :=
  ∀ text, t.read (Path.join directory i.fileName) = .ok text → text ≠ i.content

theorem FileTree.differs_iff {t : FileTree} {directory : String} {i : Artifact} :
    t.Differs directory i ↔ (t.read (Path.join directory i.fileName)).toOption ≠ some i.content := by
  unfold Differs
  cases t.read (Path.join directory i.fileName) with
  | error fault => simp [Except.toOption]
  | ok text => simp [Except.toOption]

instance (t : FileTree) (directory : String) (i : Artifact) : Decidable (t.Differs directory i) :=
  decidable_of_iff' _ FileTree.differs_iff

/-- The text of a file can be read, or there is no such file. -/
def FileTree.ReadsOrMisses (t : FileTree) (path : String) : Prop :=
  (∃ text, t.read path = .ok text) ∨ t.read path = .error .notFound

namespace Snapshot

variable {t : FileTree} {directory path : String} {a : Artifacts} {s : Snapshot}

theorem readOptional_eq_ok_iff {text : Option String} :
    t.readOptional path = .ok text ↔
      (∃ content, t.read path = .ok content ∧ text = some content) ∨
        t.read path = .error .notFound ∧ text = none := by
  unfold FileTree.readOptional
  cases t.read path with
  | ok content => simp [eq_comm]
  | error fault => cases fault <;> simp [eq_comm]

theorem exists_addFiles_iff {names : List String} :
    (∃ s', addFiles t directory s names = .ok s') ↔
      ∀ name ∈ names, t.ReadsOrMisses (Path.join directory name) := by
  induction names generalizing s with
  | nil => simp [addFiles]
  | cons name names ih =>
    rw [List.forall_mem_cons]
    constructor
    · rintro ⟨s', h⟩
      rw [addFiles] at h
      obtain ⟨text, hoptional, h⟩ := exists_of_bind_eq_ok h
      rcases readOptional_eq_ok_iff.mp hoptional with ⟨content, hread, rfl⟩ | ⟨hread, rfl⟩
      · exact ⟨.inl ⟨content, hread⟩, ih.mp ⟨s', h⟩⟩
      · exact ⟨.inr hread, ih.mp ⟨s', h⟩⟩
    · rintro ⟨⟨content, hread⟩ | hread, hmore⟩
      · obtain ⟨s', hs'⟩ := (ih (s := s.insert name content)).mpr hmore
        refine ⟨s', ?_⟩
        rw [addFiles, FileTree.readOptional, hread]
        exact hs'
      · obtain ⟨s', hs'⟩ := (ih (s := s)).mpr hmore
        refine ⟨s', ?_⟩
        rw [addFiles, FileTree.readOptional, hread]
        exact hs'

/-- **What was written can be read if no file is there that cannot, and the manifest is one.** -/
theorem exists_ofDirectory_iff :
    (∃ s, ofDirectory t directory a = .ok s) ↔
      (∀ i ∈ a.items, t.ReadsOrMisses (Path.join directory i.fileName)) ∧
        (t.read (Path.join directory manifestFile) = .error .notFound ∨
          ∃ text m, t.read (Path.join directory manifestFile) = .ok text ∧
            Manifest.parse text = .ok m) := by
  have hfiles : (∀ i ∈ a.items, t.ReadsOrMisses (Path.join directory i.fileName)) ↔
      ∀ name ∈ a.items.map Artifact.fileName, t.ReadsOrMisses (Path.join directory name) := by
    simp only [List.forall_mem_map]
  rw [hfiles, ← exists_addFiles_iff (s := .empty)]
  constructor
  · rintro ⟨s, h⟩
    obtain ⟨s₀, hs₀, h⟩ := exists_of_bind_eq_ok h
    obtain ⟨text, hoptional, h⟩ := exists_of_bind_eq_ok h
    refine ⟨⟨s₀, hs₀⟩, ?_⟩
    rcases readOptional_eq_ok_iff.mp hoptional with ⟨content, hread, rfl⟩ | ⟨hread, rfl⟩
    · cases hparse : Manifest.parse content with
      | ok m => exact .inr ⟨content, m, hread, hparse⟩
      | error message =>
        simp only [hparse] at h
        cases h
    · exact .inl hread
  · rintro ⟨⟨s₀, hs₀⟩, hread | ⟨text, m, hread, hparse⟩⟩
    · refine ⟨s₀, ?_⟩
      unfold ofDirectory FileTree.readOptional
      rw [hs₀, hread]
      rfl
    · refine ⟨{ s₀ with manifest := some m }, ?_⟩
      unfold ofDirectory FileTree.readOptional
      rw [hs₀, hread]
      simp only [Bind.bind, Except.bind, hparse]
      rfl

/-- What the check of a directory finds about a module. -/
theorem isDrift_iff (h : ofDirectory t directory a = .ok s) {i : Artifact} (hi : i ∈ a.items) :
    DriftItem.isDrift ⟨i.target, i.fileName, DriftReport.statusOf s i⟩ = true ↔
      t.Differs directory i := by
  unfold DriftItem.isDrift
  rw [decide_eq_true_eq, Ne, statusOf_eq_unchanged_iff, get?_ofDirectory h hi, FileTree.differs_iff]

/-- The number of modules a check of a directory finds to differ. -/
theorem count_compare (h : ofDirectory t directory a = .ok s) :
    (DriftReport.compare s a).count = a.items.countP fun i => t.Differs directory i := by
  unfold DriftReport.count DriftReport.drifted DriftReport.compare
  rw [← List.countP_eq_length_filter, List.countP_map]
  refine List.countP_congr fun i hi => ?_
  rw [decide_eq_true_eq]
  exact isDrift_iff h hi

theorem detected_compare (h : ofDirectory t directory a = .ok s) :
    (DriftReport.compare s a).detected = true ↔ ∃ i ∈ a.items, t.Differs directory i := by
  unfold DriftReport.detected DriftReport.compare
  rw [List.any_map, List.any_eq_true]
  exact exists_congr fun i => and_congr_right fun hi => isDrift_iff h hi

end Snapshot

namespace Command.Drift

open Generate (TargetsAsked loaded_eq_ok_iff withSources_eq_ok_iff)

variable {w : Workspace} {arguments : List String} {a : Arguments} {s : Settings} {now : String}

/-! ## Checks -/

/-- A check against a directory: no revision is named, by the arguments or in the settings. -/
def AgainstDirectory (w : Workspace) (a : Arguments) : Prop :=
  a.last? "git-revision" = none ∧
    ∀ base, w.loadSettings (a.last? "config") = .ok base → base.check.revision = none

/-- What a check compares: the modules of a fresh run with the files in a directory; and whether a
difference is an error. -/
structure Comparison where
  fresh : Artifacts
  directory : String
  strict : Bool

/-- Nothing fails before the files in a directory are compared: the settings are loaded, the targets and
the version that are asked for are read, the sources are read and their registry is valid, and so are
the files of the modules, as far as they are there, and the manifest. -/
structure Compares (w : Workspace) (a : Arguments) (c : Comparison) : Prop where
  made : ∃ base targets version sources v,
    w.loadSettings (a.last? "config") = .ok base ∧ TargetsAsked base a targets ∧
    base.version = .ok version ∧
    w.files.readSources base.source.skipped
      (if a.has "source" then a.all "source" else base.source.sources) = .ok sources ∧
    compile sources version base.strict = .ok v ∧
    c.fresh = generate v targets base.profiles ∧
    c.directory = (a.last? "baseline").getD (base.check.directory.getD base.output.directory) ∧
    c.strict = (base.check.strict || a.has "strict")
  files : ∀ i ∈ c.fresh.items, w.files.ReadsOrMisses (Path.join c.directory i.fileName)
  manifest : w.files.read (Path.join c.directory manifestFile) = .error .notFound ∨
    ∃ text m, w.files.read (Path.join c.directory manifestFile) = .ok text ∧
      Manifest.parse text = .ok m

/-- A report tells how many modules differ: in the last line of a text, and in JSON by the entries that
do not say `unchanged`. -/
def Tells (output : String) (n : Nat) : OutputFormat → Prop
  | .text => ∃ lines, output = lines ++ "\n   Drifted:   " ++ toString n ++ "\n"
  | .json => ∃ report entries, Json.parse output = .ok report ∧
    report.get? "artifacts" = some (.arr entries) ∧
    entries.countP (fun entry => !DriftReport.saysUnchanged entry) = n

/-! ## Before the comparison -/

/-- Settings with what the arguments ask for in place of what they say. -/
def asked (base : Settings) (a : Arguments) (targets : List Target) : Settings :=
  { base with
    source := { base.source with
      sources := if a.has "source" then a.all "source" else base.source.sources }
    output := { base.output with targets }
    check :=
      { strict := base.check.strict || a.has "strict"
        directory := a.last? "baseline" <|> base.check.directory
        revision := a.last? "git-revision" <|> base.check.revision
        repository := a.last? "git-repo" <|> base.check.repository } }

theorem settings_eq_ok_iff : settings w a = .ok s ↔ ∃ base targets,
    w.loadSettings (a.last? "config") = .ok base ∧ TargetsAsked base a targets ∧
      s = asked base a targets := by
  unfold settings Command.loadSettings
  simp only [bind_eq_ok_iff, loaded_eq_ok_iff, withSources_eq_ok_iff]
  constructor
  · rintro ⟨base, hload, _, ⟨targets, htargets, rfl⟩, h⟩
    exact ⟨base, targets, hload, htargets, (Except.ok.inj h).symm⟩
  · rintro ⟨base, targets, hload, htargets, rfl⟩
    exact ⟨base, hload, _, ⟨targets, htargets, rfl⟩, rfl⟩

/-- All a check makes of its arguments before it reports: the settings, the run for their sources, and
what was written before. -/
structure Checked (w : Workspace) (a : Arguments) (s : Settings) (g : Run) (written : Snapshot) :
    Prop where
  settings : settings w a = .ok s
  run : ∃ r, s.request = .ok r ∧ runSources r w s = .ok g
  baseline : s.baseline.read w.files g.artifacts = .ok written

theorem prepare_eq_ok_iff {r : Request} :
    prepare w a = .ok (s, r) ↔ settings w a = .ok s ∧ s.request = .ok r := by
  unfold prepare orFail
  simp only [bind_eq_ok_iff, mapError_eq_ok_iff]
  constructor
  · rintro ⟨s', hs, r', hr, h⟩
    cases h
    exact ⟨hs, hr⟩
  · rintro ⟨hs, hr⟩
    exact ⟨s, hs, r, hr, rfl⟩

theorem compare_eq_ok_iff {g : Run} {report : DriftReport} :
    compare w s g = .ok report ↔ ∃ written,
      s.baseline.read w.files g.artifacts = .ok written ∧ report = .compare written g.artifacts := by
  unfold compare doing orFail
  simp only [bind_eq_ok_iff, mapError_eq_ok_iff]
  exact exists_congr fun _ => and_congr_right fun _ =>
    ⟨fun h => (Except.ok.inj h).symm, fun h => congrArg Except.ok h.symm⟩

/-- What is checked is reported. -/
theorem Checked.run_eq {g : Run} {written : Snapshot}
    (hparse : Arguments.parse specs arguments = .ok a) (h : Checked w a s g written) :
    Drift.run now w arguments = outcome now a s (.compare written g.artifacts) := by
  obtain ⟨hsettings, ⟨r, hrequest, hsources⟩, hbaseline⟩ := h
  unfold Drift.run
  rw [hparse]
  dsimp only
  rw [prepare_eq_ok_iff.mpr ⟨hsettings, hrequest⟩]
  dsimp only
  rw [hsources]
  dsimp only
  rw [compare_eq_ok_iff.mpr ⟨written, hbaseline, rfl⟩]

/-- Arguments that are not taken end with the code of failures, and help with none. -/
theorem code_of_refused {refusal : Arguments.Refusal}
    (hparse : Arguments.parse specs arguments = .error refusal) :
    (Drift.run now w arguments).code = if refusal = .help then 0 else 2 := by
  unfold Drift.run
  rw [hparse]
  cases refusal <;> rfl

/-- What cannot be checked ends with the code of failures. -/
theorem code_of_not_checked (hparse : Arguments.parse specs arguments = .ok a)
    (h : ∀ s g written, ¬ Checked w a s g written) : (Drift.run now w arguments).code = 2 := by
  unfold Drift.run
  rw [hparse]
  dsimp only
  cases hprepare : prepare w a with
  | error f => rfl
  | ok p =>
    obtain ⟨s, r⟩ := p
    obtain ⟨hsettings, hrequest⟩ := prepare_eq_ok_iff.mp hprepare
    dsimp only
    cases hsources : runSources r w s with
    | error e => cases e <;> rfl
    | ok g =>
      dsimp only
      cases hcompare : compare w s g with
      | error f => rfl
      | ok report =>
        obtain ⟨written, hbaseline, -⟩ := compare_eq_ok_iff.mp hcompare
        exact absurd ⟨hsettings, ⟨r, hrequest, hsources⟩, hbaseline⟩ (h s g written)

theorem request_eq_ok_iff {r : Request} : s.request = .ok r ↔ ∃ version, s.version = .ok version ∧
    r = ⟨s.output.targets, version, s.profiles, s.strict⟩ := by
  unfold Settings.request
  simp only [bind_eq_ok_iff]
  exact exists_congr fun _ => and_congr_right fun _ =>
    ⟨fun h => (Except.ok.inj h).symm, fun h => congrArg Except.ok h.symm⟩

/-! ## Checks of a directory -/

/-- The directory and the strictness of a check with some settings. -/
def comparison (s : Settings) (g : Run) : Comparison :=
  ⟨g.artifacts, s.check.directory.getD s.output.directory, s.check.strict⟩

theorem baseline_asked (hdirectory : AgainstDirectory w a) {base : Settings}
    (hload : w.loadSettings (a.last? "config") = .ok base) (targets : List Target) :
    (asked base a targets).baseline =
      .directory ((asked base a targets).check.directory.getD base.output.directory) := by
  have hrevision : (asked base a targets).check.revision = none := by
    show (a.last? "git-revision" <|> base.check.revision) = none
    rw [hdirectory.1, hdirectory.2 base hload]
    rfl
  unfold Settings.baseline
  rw [hrevision]
  rfl

theorem Checked.ofDirectory_eq {g : Run} {written : Snapshot} (hdirectory : AgainstDirectory w a)
    (h : Checked w a s g written) :
    Snapshot.ofDirectory w.files (comparison s g).directory g.artifacts = .ok written := by
  obtain ⟨base, targets, hload, -, rfl⟩ := settings_eq_ok_iff.mp h.settings
  have hbaseline := h.baseline
  rw [baseline_asked hdirectory hload] at hbaseline
  exact hbaseline

/-- **A check of a directory is made iff nothing fails before the comparison.** -/
theorem compares_iff (hdirectory : AgainstDirectory w a) {c : Comparison} :
    Compares w a c ↔ ∃ s g written, Checked w a s g written ∧ c = comparison s g := by
  constructor
  · rintro ⟨⟨base, targets, version, sources, v, hload, htargets, hversion, hread, hcompile, hfresh,
      hpath, hstrict⟩, hfiles, hmanifest⟩
    have hc : c = comparison (asked base a targets) ⟨v, generate v targets base.profiles⟩ := by
      obtain ⟨fresh, directory, strict⟩ := c
      dsimp only at hfresh hpath hstrict
      rw [hfresh, hpath, hstrict, comparison, asked]
      cases a.last? "baseline" <;> rfl
    obtain ⟨written, hwritten⟩ := Snapshot.exists_ofDirectory_iff.mpr ⟨hfiles, hmanifest⟩
    refine ⟨asked base a targets, ⟨v, generate v targets base.profiles⟩, written, ⟨?_, ?_, ?_⟩, hc⟩
    · exact settings_eq_ok_iff.mpr ⟨base, targets, hload, htargets, rfl⟩
    · refine ⟨_, request_eq_ok_iff.mpr ⟨version, hversion, rfl⟩, ?_⟩
      exact runSources_eq_ok_iff.mpr ⟨sources, hread, Request.run_eq_ok_iff.mpr ⟨hcompile, rfl⟩⟩
    · rw [baseline_asked hdirectory hload, Baseline.read]
      rw [hc] at hwritten
      exact hwritten
  · rintro ⟨s, g, written, hchecked, rfl⟩
    obtain ⟨base, targets, hload, htargets, rfl⟩ := settings_eq_ok_iff.mp hchecked.settings
    obtain ⟨r, hrequest, hsources⟩ := hchecked.run
    obtain ⟨version, hversion, rfl⟩ := request_eq_ok_iff.mp hrequest
    obtain ⟨sources, hread, hrun⟩ := runSources_eq_ok_iff.mp hsources
    obtain ⟨hcompile, hartifacts⟩ := Request.run_eq_ok_iff.mp hrun
    obtain ⟨hfiles, hmanifest⟩ :=
      Snapshot.exists_ofDirectory_iff.mp ⟨written, hchecked.ofDirectory_eq hdirectory⟩
    refine ⟨⟨base, targets, version, sources, g.registry, hload, htargets, hversion, hread, hcompile,
      hartifacts, ?_, rfl⟩, hfiles, hmanifest⟩
    rw [comparison, asked]
    cases a.last? "baseline" <;> rfl

/-! ## Reports -/

theorem code_outcome (report : DriftReport) :
    (outcome now a s report).code = if report.detected && s.check.strict then 1 else 0 := by
  unfold outcome DriftReport.passes
  cases report.detected <;> cases s.check.strict <;> rfl

theorem output_text (h : outputFormat a = .text) (report : DriftReport) :
    (outcome now a s report).output = reportText s.baseline (a.has "verbose") report := by
  unfold outcome
  rw [h]
  dsimp only
  split
  · rfl
  · split <;> rfl

theorem output_json (h : outputFormat a = .json) (report : DriftReport) :
    (outcome now a s report).output =
      (reportJson now s.baseline s.check.strict report).toIndentedText ++ "\n" := by
  unfold outcome
  rw [h]
  dsimp only
  split
  · rfl
  · split <;> rfl

theorem readable_reportJson (b : Baseline) (strict : Bool) (report : DriftReport) :
    Json.Readable Json.maxDepth (reportJson now b strict report) := by
  have hothers : ∀ m ∈ [("checked_at", Json.str now), ("baseline", .str b.describe),
      ("strict", .bool strict)], Json.Readable 126 m.2 := by
    simp [Json.Readable.str, Json.Readable.bool]
  show Json.Readable (126 + 1) _
  exact .obj (List.forall_mem_append.mpr ⟨hothers, report.readable_members 124⟩)

/-- **Either form of a report tells how many modules differ.** -/
theorem tells_outcome (report : DriftReport) :
    Tells (outcome now a s report).output report.count (outputFormat a) := by
  cases hformat : outputFormat a with
  | text =>
    rw [output_text hformat]
    exact ⟨_, rfl⟩
  | json =>
    rw [output_json hformat]
    refine ⟨reportJson now s.baseline s.check.strict report, report.items.map DriftReport.itemJson,
      ?_, ?_, ?_⟩
    · refine Json.parse_of_spells (readable_reportJson _ _ _) (Json.spells_indented 0 _)
        (Json.gap_newLine 0) ?_
      rw [String.toList_append, Json.toIndentedText, String.toList_ofList]
      rfl
    · unfold reportJson DriftReport.members
      cases report.writtenVersion <;> rfl
    · rw [List.countP_map, DriftReport.count, DriftReport.drifted, ← List.countP_eq_length_filter]
      refine List.countP_congr fun i _ => ?_
      rw [Function.comp_apply, DriftReport.saysUnchanged_itemJson, Bool.not_not]

/-- **The exit code of a check tells what came of it, and nothing is changed.** Against a directory it
is `2` if nothing could be compared; otherwise it is `1` if a difference is an error and a module
differs from what was written, and `0` if not, and the report tells how many modules differ. Arguments
that are not taken end with `2` too, unless they ask for help. -/
theorem code_exact (now : String) (w : Workspace) (arguments : List String) :
    (runProgram "semconv-drift" now w arguments).1 = w.files ∧
    (∀ refusal, Arguments.parse specs arguments = .error refusal →
      (runProgram "semconv-drift" now w arguments).2.code = if refusal = .help then 0 else 2) ∧
    ∀ a, Arguments.parse specs arguments = .ok a → AgainstDirectory w a →
      ((runProgram "semconv-drift" now w arguments).2.code = 2 ↔ ¬ ∃ c, Compares w a c) ∧
      ∀ c, Compares w a c →
        ((runProgram "semconv-drift" now w arguments).2.code = 1 ↔
          c.strict = true ∧ ∃ i ∈ c.fresh.items, w.files.Differs c.directory i) ∧
        ((runProgram "semconv-drift" now w arguments).2.code = 0 ↔
          ¬ (c.strict = true ∧ ∃ i ∈ c.fresh.items, w.files.Differs c.directory i)) ∧
        Tells (runProgram "semconv-drift" now w arguments).2.output
          (c.fresh.items.countP fun i => w.files.Differs c.directory i) (outputFormat a) := by
  refine ⟨rfl, fun refusal hparse => code_of_refused hparse, fun a hparse hdirectory => ?_⟩
  show ((Drift.run now w arguments).code = 2 ↔ _) ∧ ∀ c, Compares w a c →
    ((Drift.run now w arguments).code = 1 ↔ _) ∧ ((Drift.run now w arguments).code = 0 ↔ _) ∧
      Tells (Drift.run now w arguments).output _ _
  have hcompared : ∀ c, Compares w a c → ∃ s report,
      Drift.run now w arguments = outcome now a s report ∧ s.check.strict = c.strict ∧
      (report.detected = true ↔ ∃ i ∈ c.fresh.items, w.files.Differs c.directory i) ∧
      report.count = c.fresh.items.countP fun i => w.files.Differs c.directory i := by
    intro c hc
    obtain ⟨s, g, written, hchecked, rfl⟩ := (compares_iff hdirectory).mp hc
    have hwritten := hchecked.ofDirectory_eq hdirectory
    exact ⟨s, _, hchecked.run_eq hparse, rfl, Snapshot.detected_compare hwritten,
      Snapshot.count_compare hwritten⟩
  refine ⟨?_, fun c hc => ?_⟩
  · by_cases hc : ∃ c, Compares w a c
    · obtain ⟨c, hc⟩ := hc
      obtain ⟨s, report, hrun, -⟩ := hcompared c hc
      rw [hrun, code_outcome]
      refine iff_of_false ?_ (not_not_intro ⟨c, hc⟩)
      split <;> decide
    · refine iff_of_true (code_of_not_checked hparse fun s g written hchecked => hc ?_) hc
      exact ⟨_, (compares_iff hdirectory).mpr ⟨s, g, written, hchecked, rfl⟩⟩
  · obtain ⟨s, report, hrun, hstrict, hdetected, hcount⟩ := hcompared c hc
    rw [hrun, code_outcome, ← hdetected, ← hstrict, ← hcount]
    refine ⟨?_, ?_, tells_outcome report⟩
    · cases report.detected <;> cases s.check.strict <;> decide
    · cases report.detected <;> cases s.check.strict <;> decide

private theorem exists_compile_nothing : ∃ v, compile [] none false = .ok v := by
  unfold compile
  refine Registry.exists_validate_iff.mpr ?_
  decide +kernel

/-- A place to work in: a directory for sources, which is empty, and no settings. -/
private def bare : Workspace :=
  ⟨⟨[(["registry"], .directory)], []⟩, [], "/home/user"⟩

private theorem loadSettings_bare : bare.loadSettings none = .ok .default := by
  have hnothing : ∀ path ∈ bare.settingsPaths none,
      ((bare.files.follow (if path.startsWith "/" then [] else bare.files.workingDirectory)
        (Text.splitOn '/' path.toList)).toOption.bind bare.files.node?).isNone = true := by
    decide +kernel
  refine Workspace.loadSettings_eq_default (fun path hpath => Workspace.isFile_eq_false ?_) rfl
  exact FileTree.toOption_find_eq_none (Option.isNone_iff_eq_none.mp (hnothing path hpath))

private theorem readSources_bare : bare.files.readSources defaultSkipped ["registry"] = .ok [] := by
  have hregistry : bare.files.locate "registry" = .ok ["registry"] :=
    FileTree.locate_eq_ok_iff.mpr ⟨by decide, by decide +kernel⟩
  have hdocuments : bare.files.documentsAt defaultSkipped "registry" = .ok [] := by
    unfold FileTree.documentsAt
    rw [hregistry, FileTree.find_eq_ok_iff.mpr ⟨_, hregistry, rfl⟩]
    rfl
  unfold FileTree.readSources FileTree.discover
  rw [List.mapM_cons, List.mapM_nil, hdocuments]
  simp [Bind.bind, Except.bind, pure, Except.pure, Ordered.sort, FileTree.dropSame]

private theorem read_bare {name : String} (hname : name ∈ ["attributes.rs", manifestFile]) :
    bare.files.read (Path.join "out" name) = .error .notFound := by
  have hpath : ∀ name ∈ ["attributes.rs", manifestFile], '\x00' ∉ (Path.join "out" name).toList ∧
      (Path.join "out" name).utf8ByteSize < 4096 ∧ Path.join "out" name ≠ "" ∧
      (bare.files.follow (if (Path.join "out" name).startsWith "/" then []
        else bare.files.workingDirectory) (Text.splitOn '/' (Path.join "out" name).toList)) =
          .error .notFound := by
    decide +kernel
  obtain ⟨hnull, hlength, hne, hfollow⟩ := hpath name hname
  have hlocate := (FileTree.locate_eq_follow hnull hlength hne).trans hfollow
  unfold FileTree.read FileTree.readBytes FileTree.find
  rw [hlocate]
  rfl

/-- The arguments of a strict check of a module that was never written, told apart. -/
private def never : Arguments :=
  ⟨[("strict", ""), ("target", "rust"), ("baseline", "out")], []⟩

/-- A strict check ends with `1` where nothing was ever written, and tells of one module. -/
theorem code_exact_never :
    (runProgram "semconv-drift" "" bare ["--strict", "--target", "rust", "--baseline", "out"]).2.code
        = 1 ∧
      Tells (runProgram "semconv-drift" "" bare
        ["--strict", "--target", "rust", "--baseline", "out"]).2.output 1 .text := by
  have hdirectory : AgainstDirectory bare never := by
    refine ⟨rfl, fun base hload => ?_⟩
    rw [← Except.ok.inj (loadSettings_bare.symm.trans hload)]
    rfl
  obtain ⟨v, hv⟩ := exists_compile_nothing
  have hitems : (generate v [.rust] .default).items = [render v .default .rust] := rfl
  have hmissing : bare.files.read (Path.join "out" (render v .default .rust).fileName) =
      .error .notFound :=
    read_bare List.mem_cons_self
  have hcompares : Compares bare never ⟨generate v [.rust] .default, "out", true⟩ := by
    refine ⟨⟨.default, [.rust], none, [], v, loadSettings_bare, rfl, rfl, readSources_bare, hv, rfl,
      rfl, rfl⟩, ?_, .inl (read_bare (by decide))⟩
    rw [hitems]
    exact List.forall_mem_singleton.mpr (.inr hmissing)
  have hdiffers : bare.files.Differs "out" (render v .default .rust) := by
    intro text hread
    rw [hmissing] at hread
    cases hread
  obtain ⟨-, -, hexact⟩ := code_exact "" bare ["--strict", "--target", "rust", "--baseline", "out"]
  obtain ⟨hone, -, htells⟩ := (hexact never rfl hdirectory).2 _ hcompares
  rw [hitems, List.countP_singleton, if_pos (decide_eq_true hdiffers)] at htells
  exact ⟨hone.mpr ⟨rfl, _, by rw [hitems]; exact List.mem_singleton_self _, hdiffers⟩, htells⟩

end Command.Drift

end AttributeRegistry
