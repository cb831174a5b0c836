import AttributeRegistry.Proofs.Codegen.Contents
import AttributeRegistry.Proofs.Codegen.Manifest
import AttributeRegistry.Proofs.Storage.FileTree
import AttributeRegistry.Storage

/-!
# Checking what was just written

A run that was written into a directory is read back from it as the check does: every module under
the name of its file, and then the manifest. Paths are not compared before the files are written, so
two files of a run may lead to one location; the later text is then the one that is there.

Main statements: the check finds every module and the manifest as they were made iff no two files of
the run lead to one location (`exists_holds_iff`); the manifest is found as it was made in any case
(`manifest_reads_back`).
-/

namespace AttributeRegistry

open Codegen

/-! ## Snapshots of a directory -/

namespace Snapshot

variable {t : FileTree} {directory : String} {a : Artifacts} {s s' : Snapshot}

theorem get?_insert (s : Snapshot) (name content name' : String) :
    (s.insert name content).get? name' = if name' = name then some content else s.get? name' := by
  unfold get? insert
  dsimp only
  by_cases h : name' = name
  · rw [if_pos h, h, List.lookup_cons_self]
  · rw [if_neg h, List.lookup_cons, beq_false_of_ne h, FileTree.lookup_filter_ne h]

/-- A file is added with its text, or it is not there. -/
theorem addFiles_cons_eq_ok {name : String} {names : List String}
    (h : addFiles t directory s (name :: names) = .ok s') :
    (∃ text, t.read (Path.join directory name) = .ok text ∧
      addFiles t directory (s.insert name text) names = .ok s') ∨
    ((t.read (Path.join directory name)).toOption = none ∧
      addFiles t directory s names = .ok s') := by
  rw [addFiles, FileTree.readOptional] at h
  cases hread : t.read (Path.join directory name) with
  | ok text =>
    rw [hread] at h
    exact .inl ⟨text, rfl, h⟩
  | error fault =>
    rw [hread] at h
    refine .inr ⟨rfl, ?_⟩
    -- any fault but a missing file ends the reading
    cases fault
    case notFound => exact h
    all_goals cases h

theorem get?_addFiles {names : List String} (h : addFiles t directory s names = .ok s')
    (name : String) :
    s'.get? name = if name ∈ names then (t.read (Path.join directory name)).toOption <|> s.get? name
      else s.get? name := by
  induction names generalizing s with
  | nil =>
    cases h
    simp
  | cons n names ih =>
    rcases addFiles_cons_eq_ok h with ⟨text, hread, h⟩ | ⟨hread, h⟩
    · rw [ih h, get?_insert]
      by_cases hname : name = n
      · rw [hname, hread]
        simp [Except.toOption]
      · simp [hname]
    · rw [ih h]
      by_cases hname : name = n
      · rw [hname, hread]
        simp
      · simp [hname]

theorem exists_addFiles {names : List String}
    (h : ∀ name ∈ names, ∃ text, t.read (Path.join directory name) = .ok text) (s : Snapshot) :
    ∃ s', addFiles t directory s names = .ok s' := by
  induction names generalizing s with
  | nil => exact ⟨s, rfl⟩
  | cons name names ih =>
    rw [List.forall_mem_cons] at h
    obtain ⟨⟨text, hread⟩, h⟩ := h
    obtain ⟨s', hs'⟩ := ih h (s.insert name text)
    refine ⟨s', ?_⟩
    rw [addFiles, FileTree.readOptional, hread]
    exact hs'

theorem exists_addFiles_of_ofDirectory (h : ofDirectory t directory a = .ok s) :
    ∃ s₀, addFiles t directory .empty (a.items.map Artifact.fileName) = .ok s₀ ∧
      s.files = s₀.files := by
  unfold ofDirectory at h
  cases hs : addFiles t directory .empty (a.items.map Artifact.fileName) with
  | error e =>
    rw [hs] at h
    cases h
  | ok s₀ =>
    refine ⟨s₀, rfl, ?_⟩
    rw [hs] at h
    simp only [Bind.bind, Except.bind] at h
    cases hmanifest : t.readOptional (Path.join directory manifestFile) with
    | error e =>
      rw [hmanifest] at h
      cases h
    | ok text? =>
      rw [hmanifest] at h
      cases text? with
      | none =>
        cases h
        rfl
      | some text =>
        dsimp only at h
        cases hparse : Manifest.parse text with
        | error message =>
          rw [hparse] at h
          cases h
        | ok m =>
          rw [hparse] at h
          cases h
          rfl

/-- What is read from a directory: the files of a run under their names. -/
theorem get?_ofDirectory (h : ofDirectory t directory a = .ok s) {i : Artifact}
    (hi : i ∈ a.items) :
    s.get? i.fileName = (t.read (Path.join directory i.fileName)).toOption := by
  obtain ⟨s₀, hs₀, hfiles⟩ := exists_addFiles_of_ofDirectory h
  have hmem : i.fileName ∈ a.items.map Artifact.fileName := List.mem_map_of_mem hi
  have hget := get?_addFiles hs₀ i.fileName
  rw [if_pos hmem] at hget
  rw [get?, hfiles, ← get?, hget]
  cases (t.read (Path.join directory i.fileName)).toOption <;> rfl

theorem exists_ofDirectory (hfiles : ∀ i ∈ a.items,
      ∃ text, t.read (Path.join directory i.fileName) = .ok text)
    (hmanifest : t.read (Path.join directory manifestFile) = .ok a.manifest.toText) :
    ∃ s, ofDirectory t directory a = .ok s ∧ s.manifest = some a.manifest := by
  have hnames : ∀ name ∈ a.items.map Artifact.fileName,
      ∃ text, t.read (Path.join directory name) = .ok text := by
    intro name hname
    obtain ⟨i, hi, rfl⟩ := List.mem_map.mp hname
    exact hfiles i hi
  obtain ⟨s₀, hs₀⟩ := exists_addFiles hnames .empty
  refine ⟨{ s₀ with manifest := some a.manifest }, ?_, rfl⟩
  unfold ofDirectory FileTree.readOptional
  rw [hs₀, hmanifest]
  simp only [Bind.bind, Except.bind, Manifest.parse_toText]
  rfl

end Snapshot

/-! ## Clean checks -/

variable {s : Snapshot} {a : Artifacts}

theorem statusOf_eq_unchanged_iff {i : Artifact} :
    DriftReport.statusOf s i = .unchanged ↔ s.get? i.fileName = some i.content := by
  unfold DriftReport.statusOf
  cases s.get? i.fileName with
  | none => simp
  | some old => by_cases hold : old = i.content <;> simp [hold]

/-- A snapshot holds a run: every module under its name, and the manifest; and the check of it finds
nothing. -/
structure Holds (s : Snapshot) (a : Artifacts) : Prop where
  files : ∀ i ∈ a.items, s.get? i.fileName = some i.content
  manifest : s.manifest = some a.manifest
  detected : (DriftReport.compare s a).detected = false
  versionChanged : (DriftReport.compare s a).versionChanged = false
  unchanged : ∀ i ∈ (DriftReport.compare s a).items, i.status = .unchanged

/-- The check finds nothing if all is there. -/
theorem Holds.of_files (hfiles : ∀ i ∈ a.items, s.get? i.fileName = some i.content)
    (hmanifest : s.manifest = some a.manifest) : Holds s a := by
  have hunchanged : ∀ i ∈ (DriftReport.compare s a).items, i.status = .unchanged := by
    intro i hi
    obtain ⟨artifact, hartifact, rfl⟩ := List.mem_map.mp hi
    exact statusOf_eq_unchanged_iff.mpr (hfiles artifact hartifact)
  refine ⟨hfiles, hmanifest, ?_, ?_, hunchanged⟩
  · rw [DriftReport.detected, List.any_eq_false]
    intro i hi
    rw [DriftItem.isDrift, hunchanged i hi]
    decide
  · unfold DriftReport.versionChanged DriftReport.compare
    dsimp only
    rw [hmanifest]
    simp [Artifacts.manifest]

/-! ## After writing -/

variable {v : ValidRegistry} {targets : List Target} {p : Profiles} {directory : String}
  {t t' : FileTree} {written : List String}

/-- No two files of a run have one text. -/
theorem pairwise_text_files (v : ValidRegistry) (targets : List Target) (p : Profiles)
    (directory : String) :
    ((generate v targets p).files directory).Pairwise fun f g => f.2 ≠ g.2 := by
  unfold Artifacts.files
  rw [List.pairwise_append]
  refine ⟨?_, List.pairwise_singleton _ _, ?_⟩
  · -- one module for each target, however often it was asked for
    have htargets : (Target.all.filter targets.contains).Nodup :=
      List.Nodup.filter _ (by decide)
    rw [List.pairwise_map, generate, List.pairwise_map]
    exact htargets.imp fun hne h => hne (target_eq_of_content_eq h)
  · intro f hf g hg
    obtain ⟨i, hi, rfl⟩ := List.mem_map.mp hf
    obtain ⟨target, -, rfl⟩ := List.mem_map.mp hi
    rw [List.mem_singleton.mp hg]
    exact content_ne_toText v p target _

theorem writeTo_eq_ok_iff {a : Artifacts} : a.writeTo directory t = (t', .ok written) ↔
    ∃ t₁, t.makeDirectories directory = .ok t₁ ∧
      t₁.writeAll (a.files directory) = (t', .ok written) := by
  unfold Artifacts.writeTo
  cases t.makeDirectories directory <;> simp

/-- A check of a run that was written finds it whole iff each of its files reads back. -/
theorem exists_holds_iff_reads {a : Artifacts} (h : a.writeTo directory t = (t', .ok written)) :
    (∃ s, Baseline.read t' a (.directory directory) = .ok s ∧ Holds s a) ↔
      ∀ f ∈ a.files directory, t'.read f.1 = .ok f.2 := by
  obtain ⟨t₁, -, hall⟩ := writeTo_eq_ok_iff.mp h
  rw [Artifacts.files, List.forall_mem_append, List.forall_mem_map, List.forall_mem_singleton]
  constructor
  · rintro ⟨s, hs, hholds⟩
    -- the manifest is written last, so nothing can have taken its place
    refine ⟨fun i hi => ?_, FileTree.read_writeAll_last hall⟩
    have hget := Snapshot.get?_ofDirectory hs hi
    rw [hholds.files i hi] at hget
    cases hread : t'.read (Path.join directory i.fileName) with
    | error fault =>
      rw [hread] at hget
      cases hget
    | ok text =>
      rw [hread] at hget
      rw [Option.some.inj hget]
  · rintro ⟨hfiles, hmanifest⟩
    obtain ⟨s, hs, hm⟩ := Snapshot.exists_ofDirectory (fun i hi => ⟨_, hfiles i hi⟩) hmanifest
    refine ⟨s, hs, .of_files (fun i hi => ?_) hm⟩
    rw [Snapshot.get?_ofDirectory hs hi, hfiles i hi]
    rfl

/-- The files of a run read back iff they lead to different places. -/
theorem reads_iff_places (h : (generate v targets p).writeTo directory t = (t', .ok written)) :
    (∀ f ∈ (generate v targets p).files directory, t'.read f.1 = .ok f.2) ↔
      ((generate v targets p).files directory).Pairwise fun f g =>
        t'.locate f.1 ≠ t'.locate g.1 := by
  obtain ⟨t₁, -, hall⟩ := writeTo_eq_ok_iff.mp h
  have htexts := pairwise_text_files v targets p directory
  rw [FileTree.read_writeAll_iff hall]
  constructor
  · intro hpairwise
    exact (hpairwise.and htexts).imp fun ⟨hsame, hne⟩ hlocate => hne (hsame hlocate)
  · exact List.Pairwise.imp fun hne hsame => absurd hsame hne

/-- **A run that was just written is found as it was made iff its files lead to different places.** -/
theorem exists_holds_iff (h : (generate v targets p).writeTo directory t = (t', .ok written)) :
    (∃ s, Baseline.read t' (generate v targets p) (.directory directory) = .ok s ∧
        Holds s (generate v targets p)) ↔
      ((generate v targets p).files directory).Pairwise fun f g =>
        t'.locate f.1 ≠ t'.locate g.1 := by
  rw [exists_holds_iff_reads h, reads_iff_places h]

/-! ## Names of files -/

/-- The names of the files of a run. -/
def Codegen.Artifacts.fileNames (a : Artifacts) : List String :=
  a.items.map Artifact.fileName ++ [manifestFile]

theorem map_fst_files (a : Artifacts) (directory : String) :
    (a.files directory).map Prod.fst = a.fileNames.map (Path.join directory) := by
  unfold Artifacts.files Artifacts.fileNames
  simp

/-- **Plain names lead to different places if they differ.** -/
theorem pairwise_places {a : Artifacts} (h : a.writeTo directory t = (t', .ok written))
    (hplain : ∀ name ∈ a.fileNames, FileTree.PlainName name) (hnames : a.fileNames.Nodup) :
    (a.files directory).Pairwise fun f g => t'.locate f.1 ≠ t'.locate g.1 := by
  obtain ⟨t₁, -, hall⟩ := writeTo_eq_ok_iff.mp h
  have hlocated : ∀ path ∈ a.fileNames.map (Path.join directory), ∃ l, t'.locate path = .ok l := by
    rw [← map_fst_files, List.forall_mem_map]
    exact FileTree.exists_locate_of_writeAll hall
  rw [List.forall_mem_map] at hlocated
  have hpaths : (a.fileNames.map (Path.join directory)).Pairwise fun path path' =>
      t'.locate path ≠ t'.locate path' := by
    rw [List.pairwise_map]
    refine List.Pairwise.imp_of_mem ?_ hnames
    intro name name' hmem hmem' hne
    obtain ⟨l, hl⟩ := hlocated name hmem
    exact FileTree.locate_join_ne (hplain name hmem) (hplain name' hmem') hne hl
  rw [← map_fst_files, List.pairwise_map] at hpaths
  exact hpaths

/-! ## Two runs -/

/-- A registry with one attribute. -/
private def hostId : Registry :=
  { version := .release 1 0 0
    entries := [⟨.new "host.id" (.primitive (.scalar .string)) "The host." [.text "a1"], []⟩]
    ordered := by simp }

private theorem exists_validate_hostId : ∃ v, hostId.validate [] false = .ok v := by
  refine Registry.exists_validate_iff.mpr ?_
  decide +kernel

/-- An empty place to work in. -/
private def nowhere : FileTree :=
  ⟨[], []⟩

/-- The same place with a directory in it. -/
private def withOut : FileTree :=
  nowhere.insert ["out"] .directory

theorem makeDirectories_nowhere : nowhere.makeDirectories "out" = .ok withOut := by
  have hlocate : nowhere.locate "out" = .ok ["out"] := by
    rw [FileTree.locate_eq_follow (by decide) (by decide) (by decide)]
    decide +kernel
  have hmake : nowhere.makeDirectory "out" = .ok withOut := by
    unfold FileTree.makeDirectory
    rw [FileTree.withoutSlashes_eq (by decide +kernel), hlocate]
    rfl
  unfold FileTree.makeDirectories FileTree.ensureDirectory
  rw [if_neg (by decide), hmake]

/-- Files with ordinary names are written there. -/
theorem exists_writeTo_nowhere {a : Artifacts} (h : ∀ name ∈ a.fileNames,
      name ∈ ["attributes.rs", "attributes.py", "attributes.txt", manifestFile]) :
    ∃ t' written, a.writeTo "out" nowhere = (t', .ok written) := by
  have hpath : ∀ name ∈ ["attributes.rs", "attributes.py", "attributes.txt", manifestFile],
      (Path.join "out" name).endsWith "/" = false ∧ '\x00' ∉ (Path.join "out" name).toList ∧
        (Path.join "out" name).utf8ByteSize < 4096 ∧ Path.join "out" name ≠ "" ∧
        withOut.follow (if (Path.join "out" name).startsWith "/" then [] else [])
          (Text.splitOn '/' (Path.join "out" name).toList) = .ok ["out", name] := by
    decide +kernel
  have hfiles : ∀ path ∈ (a.files "out").map Prod.fst, path.endsWith "/" = false ∧
      ∃ l, withOut.locate path = .ok l ∧ withOut.node? l ≠ some .directory := by
    rw [map_fst_files, List.forall_mem_map]
    intro name hname
    obtain ⟨hend, hnull, hlength, hne, hfollow⟩ := hpath name (h name hname)
    refine ⟨hend, ["out", name], ?_, ?_⟩
    · rw [FileTree.locate_eq_follow hnull hlength hne]
      exact hfollow
    · have hnode : nowhere.node? ["out", name] = none := rfl
      rw [withOut, FileTree.node?_insert_of_ne (by simp), hnode]
      simp
  rw [List.forall_mem_map] at hfiles
  obtain ⟨t', written, hwritten⟩ := FileTree.exists_writeAll hfiles
  refine ⟨t', written, ?_⟩
  rw [Artifacts.writeTo, makeDirectories_nowhere]
  exact hwritten

/-- Modules under their usual names are found as they were made. -/
theorem holds_apart : ∃ v t' written, hostId.validate [] false = .ok v ∧
    (generate v [.rust, .python] .default).writeTo "out" nowhere = (t', .ok written) ∧
    ∃ s, Baseline.read t' (generate v [.rust, .python] .default) (.directory "out") = .ok s ∧
      Holds s (generate v [.rust, .python] .default) := by
  obtain ⟨v, hv⟩ := exists_validate_hostId
  have hnames : (generate v [.rust, .python] .default).fileNames =
      ["attributes.rs", "attributes.py", manifestFile] := rfl
  obtain ⟨t', written, hwritten⟩ :=
    @exists_writeTo_nowhere (generate v [.rust, .python] .default) (by rw [hnames]; simp)
  refine ⟨v, t', written, hv, hwritten, (exists_holds_iff hwritten).mpr ?_⟩
  refine pairwise_places hwritten ?_ ?_
  · rw [hnames]
    decide
  · rw [hnames]
    decide

/-- Settings with one file for two targets. -/
private def shared : Settings :=
  { Settings.default with
    output := ⟨[.rust, .python], "out"⟩
    profiles := { Profiles.default with
      rust := ⟨"attributes.txt"⟩
      python := ⟨"attributes.txt", defaultClass⟩ } }

/-- **Settings without problems may put two modules into one file, where only one of them is
found.** -/
theorem not_holds_shared : shared.problems = [] ∧
    ∃ v t' written, hostId.validate [] false = .ok v ∧
    (generate v shared.output.targets shared.profiles).writeTo shared.output.directory nowhere =
      (t', .ok written) ∧
    ¬ ∃ s, Baseline.read t' (generate v shared.output.targets shared.profiles) shared.baseline =
        .ok s ∧
      Holds s (generate v shared.output.targets shared.profiles) := by
  refine ⟨by decide, ?_⟩
  obtain ⟨v, hv⟩ := exists_validate_hostId
  have hnames : (generate v shared.output.targets shared.profiles).fileNames =
      ["attributes.txt", "attributes.txt", manifestFile] := rfl
  obtain ⟨t', written, hwritten⟩ := @exists_writeTo_nowhere
    (generate v shared.output.targets shared.profiles) (by rw [hnames]; simp)
  refine ⟨v, t', written, hv, hwritten, fun hholds => ?_⟩
  -- the one file would have to read as both modules
  have hreads := (exists_holds_iff_reads hwritten).mp hholds
  have hfile : ∀ target ∈ [Target.rust, Target.python],
      t'.read (Path.join "out" "attributes.txt") =
        .ok (render v shared.profiles target).content := by
    intro target htarget
    have hmem : render v shared.profiles target ∈
        (generate v shared.output.targets shared.profiles).items := by
      refine List.mem_map_of_mem ?_
      rcases List.mem_pair.mp htarget with rfl | rfl <;> decide
    have hread := hreads _ (List.mem_append_left _ (List.mem_map_of_mem hmem))
    rcases List.mem_pair.mp htarget with rfl | rfl
    all_goals exact hread
  have hrust := hfile .rust (by simp)
  rw [hfile .python (by simp)] at hrust
  exact absurd (target_eq_of_content_eq (Except.ok.inj hrust)) (by decide)

/-! ## Manifests -/

/-- **A manifest reads back as it was written**, whatever it says; and that of a run reads back from
the directory the run was written into, whatever the names of the run's files are. -/
theorem manifest_reads_back :
    (∀ m : Manifest, Manifest.parse m.toText = .ok m) ∧
      ∀ {a : Artifacts} {directory : String} {t t' : FileTree} {written : List String},
        a.writeTo directory t = (t', .ok written) →
          ∃ s, Baseline.read t' a (.directory directory) = .ok s ∧ s.manifest = some a.manifest := by
  refine ⟨Manifest.parse_toText, fun {a directory t t' written} h => ?_⟩
  obtain ⟨t₁, -, hall⟩ := writeTo_eq_ok_iff.mp h
  have hread := FileTree.exists_read_writeAll hall
  rw [Artifacts.files] at hread hall
  rw [List.forall_mem_append, List.forall_mem_map] at hread
  -- a module may be overwritten, but the manifest is written last
  exact Snapshot.exists_ofDirectory hread.1 (FileTree.read_writeAll_last hall)

/-- Settings of modules of which one is put where the manifest goes. -/
private def overwritten : Profiles :=
  { Profiles.default with rust := ⟨manifestFile⟩ }

/-- The manifest takes the place of a module of its name, and reads back. -/
theorem manifest_reads_back_overwritten : ∃ v t' written, hostId.validate [] false = .ok v ∧
    (generate v [.rust, .python] overwritten).writeTo "out" nowhere = (t', .ok written) ∧
    ∃ s, Baseline.read t' (generate v [.rust, .python] overwritten) (.directory "out") = .ok s ∧
      s.manifest = some (generate v [.rust, .python] overwritten).manifest := by
  obtain ⟨v, hv⟩ := exists_validate_hostId
  have hnames : (generate v [.rust, .python] overwritten).fileNames =
      [manifestFile, "attributes.py", manifestFile] := rfl
  obtain ⟨t', written, hwritten⟩ :=
    @exists_writeTo_nowhere (generate v [.rust, .python] overwritten) (by rw [hnames]; simp)
  exact ⟨v, t', written, hv, hwritten, manifest_reads_back.2 hwritten⟩

end AttributeRegistry
