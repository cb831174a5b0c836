import AttributeRegistry.Proofs.Settings.Inverted
import AttributeRegistry.Proofs.Settings.Layered
import AttributeRegistry.Proofs.Toml.Document

/-!
# Saved settings load as they were

The sections the settings are written in read back as one table each (`parse_toText`), which says each
setting that is set, and nothing about the others (`gives_toDatum`). So a file they were saved in is a
layer that says what they are, and without other layers it is what is loaded.

A file without the extension cannot be named: it is not loaded, whatever it holds.

Main statements: `loadSettings_saved`, `loadSettings_ne_ok`.
-/

namespace AttributeRegistry

open Settings Setting

namespace Settings

/-! ## As data -/

/-- What some settings are, each under its own name, if it is set. -/
def data (s : Settings) (fs : List Field) : List (Datum × Datum) :=
  fs.flatMap fun f => (f.get s).toList.map fun a => (.text (f.path.getLastD ""), f.toDatum a)

/-- The settings as a datum. -/
def toDatum (s : Settings) : Datum :=
  .dict [(.text "registry", .dict (s.data [.sources, .version, .skipped])),
    (.text "generate", .dict (s.data [.targets, .directory])),
    (.text "codegen", .dict [(.text "rust", .dict (s.data [.rustFile])),
      (.text "python", .dict (s.data [.pythonFile, .pythonClass])),
      (.text "java", .dict (s.data [.javaFile, .javaPackage, .javaClass]))]),
    (.text "validation", .dict (s.data [.strict])),
    (.text "check", .dict (s.data [.checkStrict, .baseline, .revision, .repository]))]

variable {s : Settings}

/-- The sections say what is set. -/
theorem toDatum_sections (s : Settings) : s.sections.map Toml.Section.toDatum =
    [.dict (s.data [.sources, .version, .skipped]), .dict (s.data [.targets, .directory]),
      .dict (s.data [.rustFile]), .dict (s.data [.pythonFile, .pythonClass]),
      .dict (s.data [.javaFile, .javaPackage, .javaClass]), .dict (s.data [.strict]),
      .dict (s.data [.checkStrict, .baseline, .revision, .repository])] := by
  obtain ⟨⟨sources, version, skipped⟩, ⟨targets, directory⟩, ⟨⟨rustFile⟩, ⟨pythonFile, pythonClass⟩,
    ⟨javaFile, javaPackage, javaClass⟩⟩, strict, ⟨checkStrict, baseline, revision, repository⟩⟩ := s
  have htargets : (Toml.Value.texts (targets.map Target.name)).toDatum =
      .list (targets.map fun t => .text t.name) := by
    rw [Toml.Value.toDatum, List.map_map]
    rfl
  simp only [sections, List.map_cons, List.map_nil, List.cons.injEq, and_true]
  refine ⟨?_, ?_, rfl, rfl, ?_, rfl, ?_⟩
  · cases version <;> rfl
  · show Datum.dict [(_, (Toml.Value.texts (targets.map Target.name)).toDatum), _] = _
    rw [htargets]
    rfl
  · cases javaFile <;> rfl
  · cases baseline <;> cases revision <;> cases repository <;> rfl

/-! ## As text -/

/-- The keys the sections may have. -/
def sectionKeys : List (List String) :=
  [["sources", "version", "skip_dirs"], ["targets", "output_dir"], ["file_name"],
    ["file_name", "class_name"], ["file_name", "package", "class_name"], ["warnings_as_errors"],
    ["strict", "baseline_dir", "git_revision", "git_repo"]]

theorem keys_optionalEntry (key : String) (value : Option String) :
    ((optionalEntry key value).map Prod.fst).Sublist [key] := by
  cases value <;> simp [optionalEntry]

theorem plain_of_keys {part : Toml.Section} {keys : List String} (hkeys : keys ∈ sectionKeys)
    (h : (part.entries.map Prod.fst).Sublist keys) : part.Plain := by
  have hall : ∀ keys ∈ sectionKeys, (∀ key ∈ keys, key ≠ "" ∧
      key.toList.all Toml.isBareKeyChar = true) ∧ keys.Nodup := by decide
  obtain ⟨hbare, hnodup⟩ := hall keys hkeys
  exact Toml.plain_iff.mpr ⟨fun key hkey => hbare key (h.subset hkey), hnodup.sublist h⟩

theorem plain_sections (s : Settings) : ∀ part ∈ s.sections, part.Plain := by
  simp only [sections, List.forall_mem_cons]
  refine ⟨plain_of_keys (show ["sources", "version", "skip_dirs"] ∈ sectionKeys by decide) ?_,
    plain_of_keys (by decide) (.refl ["targets", "output_dir"]),
    plain_of_keys (by decide) (.refl ["file_name"]),
    plain_of_keys (by decide) (.refl ["file_name", "class_name"]),
    plain_of_keys (show ["file_name", "package", "class_name"] ∈ sectionKeys by decide) ?_,
    plain_of_keys (by decide) (.refl ["warnings_as_errors"]),
    plain_of_keys (show ["strict", "baseline_dir", "git_revision", "git_repo"] ∈ sectionKeys by
      decide) ?_, List.forall_mem_nil _⟩
  · simp only [List.map_append]
    exact ((List.Sublist.refl ["sources"]).append (keys_optionalEntry _ _)).append (.refl _)
  · simp only [List.map_append]
    exact (keys_optionalEntry _ _).append (.refl ["package", "class_name"])
  · simp only [List.map_append]
    exact (((List.Sublist.refl ["strict"]).append (keys_optionalEntry _ _)).append
      (keys_optionalEntry _ _)).append (keys_optionalEntry _ _)

open Toml in
/-- The sections read back, those with two names in one table. -/
theorem parse_sections {parts : List Section}
    {registry generate rust python java validation check : Datum}
    (hplain : ∀ part ∈ parts, part.Plain)
    (hnames : parts.map Section.name = ["registry", "generate", "codegen.rust", "codegen.python",
      "codegen.java", "validation", "check"])
    (hdata : parts.map Section.toDatum =
      [registry, generate, rust, python, java, validation, check]) :
    Toml.parse (writeSections parts) = .ok (.dict [(.text "registry", registry),
      (.text "generate", generate), (.text "codegen", .dict [(.text "rust", rust),
        (.text "python", python), (.text "java", java)]),
      (.text "validation", validation), (.text "check", check)]) := by
  simp only [List.map_eq_cons_iff, List.map_eq_nil_iff] at hnames
  obtain ⟨part₁, _, rfl, hname₁, part₂, _, rfl, hname₂, part₃, _, rfl, hname₃, part₄, _, rfl, hname₄,
    part₅, _, rfl, hname₅, part₆, _, rfl, hname₆, part₇, _, rfl, hname₇, rfl⟩ := hnames
  simp only [List.map_cons, List.map_nil, List.cons.injEq] at hdata
  obtain ⟨rfl, rfl, rfl, rfl, rfl, rfl, rfl, -⟩ := hdata
  simp only [List.forall_mem_cons] at hplain
  obtain ⟨hregistry, hgenerate, hrust, hpython, hjava, hvalidation, hcheck, -⟩ := hplain
  have hbare : ∀ name ∈ ["registry", "generate", "codegen", "rust", "python", "java", "validation",
      "check"], name ≠ "" ∧ name.toList.all isBareKeyChar = true := by decide
  simp only [List.forall_mem_cons, ← isBare_iff] at hbare
  obtain ⟨bregistry, bgenerate, bcodegen, brust, bpython, bjava, bvalidation, bcheck, -⟩ := hbare
  refine parse_of_yields (by simp [writeSections, Section.write]) ?_
  rw [toList_writeSections_cons, toList_writeSections_cons, toList_writeSections_cons,
    toList_writeSections_cons, toList_writeSections_cons]
  have hstart : Progress.start.Shows [] := rfl
  refine yields_top hstart hregistry hname₁ bregistry (List.forall_mem_nil _) fun p at₁ t₁ h₁ hp => .feed ?_
  refine yields_top hp hgenerate hname₂ bgenerate (by simp) fun p at₂ t₂ h₂ hp => .feed ?_
  refine yields_under_new hp hrust (by simp [hname₃]) bcodegen brust (by simp)
    fun p at₃ at₄ t₃ h₃ hp => .feed ?_
  refine yields_under_last hp hpython (by simp [hname₄]) bcodegen bpython (by simp) (by simp)
    fun p at₅ t₄ h₄ hp => .feed ?_
  refine yields_under_last hp hjava (by simp [hname₅]) bcodegen bjava (by simp) (by simp)
    fun p at₆ t₅ h₅ hp => .feed ?_
  have hcodegen : (Item.table (.mk .implied none [(⟨"rust", at₄⟩, .table t₃),
      (⟨"python", at₅⟩, .table t₄), (⟨"java", at₆⟩, .table t₅)])).toDatum = .ok (.dict [
        (.text "rust", part₃.toDatum), (.text "python", part₄.toDatum),
        (.text "java", part₅.toDatum)]) := by
    rw [Item.toDatum]
    exact toDatum_of_entriesData (by simp [dateKey]) <| entriesData_cons (h₃.toDatum hrust) <|
      entriesData_cons (h₄.toDatum hpython) <| entriesData_cons (h₅.toDatum hjava) rfl
  have hsections := yields_sections (List.cons_ne_nil part₆ [part₇]) hp (by simp [dateKey])
    (entriesData_cons (h₁.toDatum hregistry) <| entriesData_cons (h₂.toDatum hgenerate) <|
      entriesData_cons hcodegen rfl)
    (by simp [hvalidation, hcheck, hname₆, hname₇, bvalidation, bcheck]) (by simp [hname₆, hname₇])
  rw [List.map_cons, List.map_cons, hname₆, hname₇] at hsections
  exact hsections

/-- **The written settings are the settings as a datum.** -/
theorem parse_toText (s : Settings) : Toml.parse s.toText = .ok s.toDatum :=
  parse_sections (plain_sections s) rfl (toDatum_sections s)

/-! ## What is said -/

/-- What the settings are, as a part. -/
def part (s : Settings) : Part :=
  fun f => f.get s

theorem nodes_value (f : Field) (a : f.Value) (path : List String) :
    (f.toDatum a).nodes path = [(path, f.toDatum a)] := by
  cases f <;> rfl

theorem nodesIn_append (path : List String) (es es' : List (Datum × Datum)) :
    Datum.nodesIn path (es ++ es') = Datum.nodesIn path es ++ Datum.nodesIn path es' := by
  induction es with
  | nil => rfl
  | cons e es ih => rw [List.cons_append, Datum.nodesIn, ih, Datum.nodesIn, List.append_assoc]

/-- The nodes of a section are the settings in it that are set. -/
theorem mem_nodesIn_data {path : List String} {fs : List Field}
    (hfs : ∀ f ∈ fs, f.path = path ++ [f.path.getLastD ""]) {node : List String × Datum} :
    node ∈ Datum.nodesIn path (s.data fs) ↔
      ∃ f ∈ fs, ∃ a, f.get s = some a ∧ node = (f.path, f.toDatum a) := by
  induction fs with
  | nil => simp [data, Datum.nodesIn]
  | cons f fs ih =>
    obtain ⟨hf, hfs⟩ := List.forall_mem_cons.mp hfs
    have hfirst : Datum.nodesIn path ((f.get s).toList.map fun a =>
        (.text (f.path.getLastD ""), f.toDatum a)) =
          (f.get s).toList.map fun a => (f.path, f.toDatum a) := by
      cases f.get s with
      | none => rfl
      | some a =>
        show Datum.nodes (path ++ [f.path.getLastD ""]) (f.toDatum a) ++ [] = _
        rw [← hf, nodes_value]
        rfl
    rw [data, List.flatMap_cons, nodesIn_append, hfirst, List.mem_append, ← data, ih hfs]
    simp [eq_comm]

theorem admits_toDatum {f : Field} {a : f.Value} (h : f.get s = some a) :
    Part.Admits s.part f.path (f.toDatum a) := by
  cases f <;> exact ⟨_, a, rfl, h, rfl⟩

theorem admits_data {path : List String} {fs : List Field} (hpath : path ∈ Field.sections)
    (hfs : ∀ f ∈ fs, f.path = path ++ [f.path.getLastD ""]) :
    ∀ node ∈ (Datum.dict (s.data fs)).nodes path,
      Part.Admits s.part node.1 node.2 := by
  refine List.forall_mem_cons.mpr ⟨hpath, fun node hnode => ?_⟩
  obtain ⟨f, -, a, ha, rfl⟩ := (mem_nodesIn_data hfs).mp hnode
  exact admits_toDatum ha

/-- The nodes of the settings are those of the sections, and what these are in. -/
theorem nodes_toDatum (s : Settings) : s.toDatum.nodes [] = ([], s.toDatum) ::
    ((Datum.dict (s.data [.sources, .version, .skipped])).nodes ["registry"] ++
    ((Datum.dict (s.data [.targets, .directory])).nodes ["generate"] ++
    ((["codegen"], .dict [(.text "rust", .dict (s.data [.rustFile])),
      (.text "python", .dict (s.data [.pythonFile, .pythonClass])),
      (.text "java", .dict (s.data [.javaFile, .javaPackage, .javaClass]))]) ::
    ((Datum.dict (s.data [.rustFile])).nodes ["codegen", "rust"] ++
    ((Datum.dict (s.data [.pythonFile, .pythonClass])).nodes ["codegen", "python"] ++
    ((Datum.dict (s.data [.javaFile, .javaPackage, .javaClass])).nodes ["codegen", "java"] ++ []))) ++
    ((Datum.dict (s.data [.strict])).nodes ["validation"] ++
    ((Datum.dict (s.data [.checkStrict, .baseline, .revision, .repository])).nodes ["check"] ++
      []))))) :=
  rfl

/-- The sections with settings in them. -/
def sectionFields : List (List String × List Field) :=
  [(["registry"], [.sources, .version, .skipped]), (["generate"], [.targets, .directory]),
    (["codegen", "rust"], [.rustFile]), (["codegen", "python"], [.pythonFile, .pythonClass]),
    (["codegen", "java"], [.javaFile, .javaPackage, .javaClass]), (["validation"], [.strict]),
    (["check"], [.checkStrict, .baseline, .revision, .repository])]

/-- **The written settings say what each setting is.** -/
theorem gives_toDatum (s : Settings) : s.toDatum.Gives s.part where
  admits := by
    have hsection : ∀ path ∈ Field.sections, ∀ es, Part.Admits s.part path (.dict es) :=
      fun _ hpath _ => hpath
    rw [nodes_toDatum]
    simp only [List.forall_mem_cons, List.forall_mem_append]
    exact ⟨hsection _ (by decide) _, admits_data (by decide) (by decide),
      admits_data (by decide) (by decide), ⟨hsection _ (by decide) _,
        admits_data (by decide) (by decide), admits_data (by decide) (by decide),
        admits_data (by decide) (by decide), List.forall_mem_nil _⟩,
      admits_data (by decide) (by decide), admits_data (by decide) (by decide), List.forall_mem_nil _⟩
  mentions := by
    intro f hf
    have hall : ∀ f ∈ Field.all, ∃ part ∈ sectionFields, f ∈ part.2 := by decide
    have hpaths : ∀ part ∈ sectionFields, ∀ f ∈ part.2, f.path = part.1 ++ [f.path.getLastD ""] := by
      decide
    have hnodes : ∀ part ∈ sectionFields,
        Datum.nodesIn part.1 (s.data part.2) ⊆ s.toDatum.nodes [] := by
      rw [nodes_toDatum]
      simp only [sectionFields, List.forall_mem_cons]
      refine ⟨?_, ?_, ?_, ?_, ?_, ?_, ?_, List.forall_mem_nil _⟩
      all_goals exact fun node hnode => by simp [Datum.nodes, hnode]
    obtain ⟨part, hpart, hmem⟩ := hall f (Field.mem_all f)
    obtain ⟨a, ha⟩ := Option.ne_none_iff_exists'.mp hf
    exact List.mem_map.mpr ⟨(f.path, f.toDatum a), hnodes part hpart <|
      (mem_nodesIn_data (hpaths part hpart)).mpr ⟨f, hmem, a, ha, rfl⟩, rfl⟩

/-! ## Layers -/

/-- A part says nothing about some settings but what they are. -/
def Agrees (q : Part) (s : Settings) : Prop :=
  ∀ f, q f = none ∨ q f = f.get s

theorem ofPart_part (s : Settings) : ofPart s.part = s :=
  rfl

/-- Over layers that say nothing else, what the settings are is what they stay. -/
theorem first_part {rest : List Part} (h : ∀ q ∈ rest, Agrees q s) :
    Part.first (s.part :: rest) = s.part := by
  rw [Part.first_cons]
  funext f
  cases hget : s.part f with
  | some a => rfl
  | none =>
    have hget' : f.get s = none := hget
    refine List.findSome?_eq_none_iff.mpr fun q hq => ?_
    have hq := h q hq f
    rwa [hget', or_self_iff] at hq

end Settings

namespace Workspace

open FileTree

variable {w : Workspace} {s : Settings} {path : String} {files : FileTree}

/-- Where no file is but the saved one, a layer says nothing but what the settings are. -/
theorem exists_fileGives (hread : ∀ file ∈ pathsOf path, w.files.isFile file = true →
    w.files.read file = .ok s.toText) : ∃ q, Agrees q s ∧ w.FileGives false path q := by
  cases hfile : w.settingsFile? path with
  | none => exact ⟨.nothing, fun _ => .inl rfl, .absent rfl hfile fun _ => rfl⟩
  | some file =>
    obtain ⟨hmem, hisFile⟩ := isFile_of_settingsFile? hfile
    exact ⟨s.part, fun _ => .inr rfl,
      .present hfile (hread file hmem hisFile) s.parse_toText s.gives_toDatum⟩

theorem exists_forall₂_fileGives : ∀ {paths : List String},
    (∀ path ∈ paths, ∃ q, Agrees q s ∧ w.FileGives false path q) →
      ∃ qs, (∀ q ∈ qs, Agrees q s) ∧ List.Forall₂ (w.FileGives false) paths qs
  | [], _ => ⟨[], List.forall_mem_nil _, .nil⟩
  | path :: paths, h => by
    obtain ⟨⟨q, hq, hfile⟩, hpaths⟩ := List.forall_mem_cons.mp h
    obtain ⟨qs, hqs, hfiles⟩ := exists_forall₂_fileGives hpaths
    exact ⟨q :: qs, List.forall_mem_cons.mpr ⟨hq, hqs⟩, .cons hfile hfiles⟩

/-- The saved settings are loaded where they are read from a file that is named and nothing else says
anything else. -/
theorem loadSettings_of_read {file : String} (hfile : w.settingsFile? path = some file)
    (hread : w.files.read file = .ok s.toText) (hlayers : ∀ other ∈ projectFiles ++ [w.userFile],
      ∃ q, Agrees q s ∧ w.FileGives false other q)
    (hvariables : ∀ e ∈ w.environment, ¬ variableStart.toList <+: (fold e.1).toList) :
    w.loadSettings (some path) = .ok s := by
  rw [List.forall_mem_append, List.forall_mem_singleton] at hlayers
  obtain ⟨hproject, q, hq, huser⟩ := hlayers
  obtain ⟨project, hagree, hproject⟩ := exists_forall₂_fileGives hproject
  -- The file of the user is a layer only if it is there.
  obtain ⟨user, hagreeUser, huser⟩ : ∃ user, Agrees user s ∧
      if w.files.exists? w.userFile then w.FileGives false w.userFile user
      else ∀ f, user f = none := by
    split
    · exact ⟨q, hq, huser⟩
    · exact ⟨.nothing, fun _ => .inl rfl, fun _ => rfl⟩
  have hgives : w.Gives (some path) project user s.part .nothing :=
    { project := hproject
      user := huser
      file := .present hfile hread s.parse_toText s.gives_toDatum
      environment := ⟨fun e he hstart => absurd hstart (hvariables e he), fun _ h => absurd rfl h⟩ }
  have hrest : ∀ q ∈ user :: project.reverse, Agrees q s :=
    List.forall_mem_cons.mpr ⟨hagreeUser, fun q hq => hagree q (List.mem_reverse.mp hq)⟩
  have hnothing : ∀ f, Part.nothing f = none := fun _ => rfl
  rw [hgives.loadSettings_eq, Part.first_cons_of_none hnothing, first_part hrest, ofPart_part]

/-- **Settings that are saved load as they were**: every text, list and flag, and what is not set is
not set. The path has the extension of settings files, no other settings file is there, and no variable
is one of those settings are read from, whose names count in any case. -/
theorem loadSettings_saved (hpath : Path.extension? path = some "toml")
    (hsave : w.files.write path s.toText = .ok files)
    (hfiles : ∀ other ∈ w.settingsPaths none, files.isFile other = true →
      files.locate other = files.locate path)
    (hvariables : ∀ e ∈ w.environment, ¬ variableStart.toList <+: (fold e.1).toList) :
    loadSettings { w with files := files } (some path) = .ok s := by
  obtain ⟨-, l, hlocate, hdirectory, rfl⟩ := write_eq_ok_iff.mp hsave
  have hl : (w.files.insert l (.file s.toText.toUTF8)).locate path = .ok l :=
    (locate_insert hdirectory path).mpr hlocate
  have hnode := node?_insert_self (t := w.files) (ne_nil_of_node?_ne_directory hdirectory)
    (.file s.toText.toUTF8)
  have hread := read_eq_of_locate hl hnode
  refine loadSettings_of_read (settingsFile?_eq_some hpath hl hnode) hread (fun other hother => ?_)
    hvariables
  exact exists_fileGives fun file hfile hisFile =>
    (read_congr (hfiles file (List.mem_flatMap.mpr ⟨other, hother, hfile⟩) hisFile)).trans hread

/-- A file whose name does not have the extension cannot be named. -/
theorem loadSettings_ne_ok (hfile : w.files.isFile path = true)
    (hpath : Path.extension? path ≠ some "toml") (s : Settings) : w.loadSettings (some path) ≠ .ok s := by
  intro hload
  have hnone : w.settingsFile? path = none := by
    unfold settingsFile?
    rw [if_pos hfile, if_neg hpath]
    rfl
  have hrefused : w.fileLayer true path = .error (w.noSettingsFile path) := by
    unfold fileLayer
    rw [hnone]
    rfl
  unfold loadSettings layered fileLayers at hload
  obtain ⟨t, ht, -⟩ := bind_eq_ok_iff.mp hload
  obtain ⟨layers, hlayers, -⟩ := bind_eq_ok_iff.mp ht
  obtain ⟨optional, -, hlayers⟩ := bind_eq_ok_iff.mp hlayers
  dsimp only at hlayers
  rw [hrefused] at hlayers
  cases hlayers

/-- A place with no files, where a variable is for something else. -/
private def bench : Workspace :=
  ⟨⟨[], []⟩, [("PATH", "/bin")], "/home/user"⟩

/-- Settings with empty lists, a version of two lines with quotes, and a package with control
characters. -/
private def benchSettings : Settings :=
  { Settings.default with
    source := ⟨[], some "one \"two\"\n'''three'''\\", []⟩
    profiles := ⟨.default, .default, ⟨none, "\x00\x7f", "Clé"⟩⟩
    strict := true }

/-- The place with the settings saved in it. -/
private def benchFiles : FileTree :=
  bench.files.insert ["bench.toml"] (.file benchSettings.toText.toUTF8)

/-- The place with the settings saved in it, in a file whose name is nothing but the extension. -/
private def hiddenFiles : FileTree :=
  bench.files.insert [".toml"] (.file benchSettings.toText.toUTF8)

private theorem isFile_bench {t : FileTree} (ht : t ∈ [benchFiles, hiddenFiles]) {path : String}
    (hpath : path ∈ bench.settingsPaths none) : t.isFile path = false := by
  have hfollow : ∀ t ∈ [benchFiles, hiddenFiles], ∀ path ∈ bench.settingsPaths none,
      ((t.follow (if path.startsWith "/" then [] else t.workingDirectory)
        (Text.splitOn '/' path.toList)).toOption.bind t.node?).isNone = true := by
    decide +kernel
  exact isFile_eq_false (toOption_find_eq_none (Option.isNone_iff_eq_none.mp (hfollow t ht path hpath)))

/-- The settings are saved where there was nothing, and load as they were. -/
theorem loadSettings_bench :
    bench.files.write "bench.toml" benchSettings.toText = .ok benchFiles ∧
      loadSettings { bench with files := benchFiles } (some "bench.toml") = .ok benchSettings := by
  have hlocate : bench.files.locate "bench.toml" = .ok ["bench.toml"] :=
    locate_eq_ok_iff.mpr ⟨by decide, by decide +kernel⟩
  have hnone : bench.files.node? ["bench.toml"] = none := rfl
  have hsave : bench.files.write "bench.toml" benchSettings.toText = .ok benchFiles :=
    write_eq_ok_iff.mpr ⟨by decide +kernel, _, hlocate, by simp [hnone], rfl⟩
  have hother : ¬ variableStart.toList <+: (fold "PATH").toList := by decide
  refine ⟨hsave, loadSettings_saved (by decide) hsave (fun other hmem hisFile => ?_)
    (List.forall_mem_singleton.mpr hother)⟩
  rw [isFile_bench List.mem_cons_self hmem] at hisFile
  cases hisFile

/-- A name that is nothing but the extension has none: the settings are saved under it where no other
file is, and are not loaded. -/
theorem not_loadSettings_hidden :
    ".toml".endsWith ".toml" = true ∧
      bench.files.write ".toml" benchSettings.toText = .ok hiddenFiles ∧
      (∀ other ∈ bench.settingsPaths none, hiddenFiles.isFile other = false) ∧
      (∀ e ∈ bench.environment, ¬ variableStart.toList <+: (fold e.1).toList) ∧
      ∀ s, loadSettings { bench with files := hiddenFiles } (some ".toml") ≠ .ok s := by
  have hlocate : bench.files.locate ".toml" = .ok [".toml"] :=
    locate_eq_ok_iff.mpr ⟨by decide, by decide +kernel⟩
  have hnone : bench.files.node? [".toml"] = none := rfl
  have hsave : bench.files.write ".toml" benchSettings.toText = .ok hiddenFiles :=
    write_eq_ok_iff.mpr ⟨by decide +kernel, _, hlocate, by simp [hnone], rfl⟩
  have hother : ¬ variableStart.toList <+: (fold "PATH").toList := by decide
  have hsaved : hiddenFiles.locate ".toml" = .ok [".toml"] :=
    (locate_insert (by simp [hnone]) ".toml").mpr hlocate
  have hisFile : hiddenFiles.isFile ".toml" = true :=
    isFile_iff.mpr ⟨_, find_eq_ok_iff.mpr ⟨_, hsaved, node?_insert_self (by decide) _⟩⟩
  exact ⟨by decide +kernel, hsave, fun other hmem => isFile_bench (by simp) hmem,
    List.forall_mem_singleton.mpr hother,
    loadSettings_ne_ok (w := { bench with files := hiddenFiles }) hisFile (by decide)⟩

end Workspace

end AttributeRegistry
