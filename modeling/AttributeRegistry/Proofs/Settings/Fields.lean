import AttributeRegistry.Settings.Layer
import AttributeRegistry.Settings.Basic
import Mathlib.Data.List.Infix

/-!
# The settings one by one

The settings are a record of records, but a layer says what each single setting is, or says nothing
about it (`Part`). Every setting has a path: the names of the sections it stands in, and its own. No
setting stands below another one (`eq_of_prefix_path`) or where a section is (`path_not_mem_sections`).
-/

namespace AttributeRegistry.Settings

/-- A setting. -/
inductive Field where
  | sources | version | skipped
  | targets | directory
  | rustFile | pythonFile | pythonClass | javaFile | javaPackage | javaClass
  | strict
  | checkStrict | baseline | revision | repository
deriving DecidableEq, Repr

namespace Field

/-- What a setting is if it is set. -/
def Value : Field → Type
  | sources | skipped => List String
  | targets => List Target
  | strict | checkStrict => Bool
  | _ => String

/-- The names that lead to a setting. -/
def path : Field → List String
  | sources => ["registry", "sources"]
  | version => ["registry", "version"]
  | skipped => ["registry", "skip_dirs"]
  | targets => ["generate", "targets"]
  | directory => ["generate", "output_dir"]
  | rustFile => ["codegen", "rust", "file_name"]
  | pythonFile => ["codegen", "python", "file_name"]
  | pythonClass => ["codegen", "python", "class_name"]
  | javaFile => ["codegen", "java", "file_name"]
  | javaPackage => ["codegen", "java", "package"]
  | javaClass => ["codegen", "java", "class_name"]
  | strict => ["validation", "warnings_as_errors"]
  | checkStrict => ["check", "strict"]
  | baseline => ["check", "baseline_dir"]
  | revision => ["check", "git_revision"]
  | repository => ["check", "git_repo"]

/-- The paths of the sections; the whole is one. -/
def sections : List (List String) :=
  [[], ["registry"], ["generate"], ["codegen"], ["codegen", "rust"], ["codegen", "python"],
    ["codegen", "java"], ["validation"], ["check"]]

/-- A setting of some settings; there is none if it is not set. -/
def get (s : Settings) : (f : Field) → Option f.Value
  | sources => some s.source.sources
  | version => s.source.version
  | skipped => some s.source.skipped
  | targets => some s.output.targets
  | directory => some s.output.directory
  | rustFile => some s.profiles.rust.fileName
  | pythonFile => some s.profiles.python.fileName
  | pythonClass => some s.profiles.python.className
  | javaFile => s.profiles.java.fileName
  | javaPackage => some s.profiles.java.package
  | javaClass => some s.profiles.java.className
  | strict => some s.strict
  | checkStrict => some s.check.strict
  | baseline => s.check.directory
  | revision => s.check.revision
  | repository => s.check.repository

/-- The shape of a setting. -/
def shape : (f : Field) → Shape f.Value
  | sources => .list Path.shape
  | version => .text
  | skipped => .list .text
  | targets => .list Target.shape
  | directory => Path.shape
  | rustFile => .text
  | pythonFile => .text
  | pythonClass => .text
  | javaFile => .text
  | javaPackage => .text
  | javaClass => .text
  | strict => .flag
  | checkStrict => .flag
  | baseline => Path.shape
  | revision => .text
  | repository => Path.shape

/-- A setting in a file. -/
def toDatum : (f : Field) → f.Value → Datum
  | sources, ss => .list (ss.map .text)
  | version, s => .text s
  | skipped, ss => .list (ss.map .text)
  | targets, ts => .list (ts.map fun t => .text t.name)
  | directory, s => .text s
  | rustFile, s => .text s
  | pythonFile, s => .text s
  | pythonClass, s => .text s
  | javaFile, s => .text s
  | javaPackage, s => .text s
  | javaClass, s => .text s
  | strict, b => .bool b
  | checkStrict, b => .bool b
  | baseline, s => .text s
  | revision, s => .text s
  | repository, s => .text s

/-! ## Paths -/

/-- All settings. -/
def all : List Field :=
  [sources, version, skipped, targets, directory, rustFile, pythonFile, pythonClass, javaFile,
    javaPackage, javaClass, strict, checkStrict, baseline, revision, repository]

theorem mem_all (f : Field) : f ∈ all := by
  cases f <;> decide

variable {f g : Field} {path path' : List String}

/-- What leads to a setting but is not its path leads to a section. -/
theorem mem_sections_of_path_eq (h : f.path = path ++ path') (hne : path' ≠ []) : path ∈ sections := by
  have hall : ∀ f ∈ all, ∀ path ∈ f.path.inits, path = f.path ∨ path ∈ sections := by decide
  have hmem : path ∈ f.path.inits := (List.mem_inits _ _).mpr ⟨path', h.symm⟩
  refine (hall f (mem_all f) path hmem).resolve_left fun heq => hne ?_
  rw [← heq] at h
  exact List.self_eq_append_right.mp h

/-- What leads to a section leads to one itself. -/
theorem mem_sections_of_append (h : path ++ path' ∈ sections) : path ∈ sections := by
  have hall : ∀ whole ∈ sections, ∀ path ∈ whole.inits, path ∈ sections := by decide
  exact hall _ h path ((List.mem_inits _ _).mpr (List.prefix_append _ _))

/-- No setting stands where a section is, or leads to one. -/
theorem path_append_not_mem_sections : f.path ++ path' ∉ sections := by
  have hall : ∀ f ∈ all, ∀ whole ∈ sections, ¬ f.path <+: whole := by decide
  exact fun h => hall f (mem_all f) _ h (List.prefix_append _ _)

theorem path_not_mem_sections : f.path ∉ sections := by
  rw [← List.append_nil f.path]
  exact path_append_not_mem_sections

/-- No setting stands below another one. -/
theorem eq_of_prefix_path (h : f.path <+: g.path) : f = g := by
  have hall : ∀ f ∈ all, ∀ g ∈ all, f.path <+: g.path → f = g := by decide
  exact hall f (mem_all f) g (mem_all g) h

theorem eq_of_path_eq (h : f.path = g.path) : f = g :=
  eq_of_prefix_path (h ▸ List.prefix_rfl)

/-- Every setting is in a section. -/
theorem one_lt_length_path (f : Field) : 1 < f.path.length := by
  cases f <;> decide

/-- The names of settings and sections are written in small letters. -/
theorem fold_of_mem_path {name : String} (h : name ∈ f.path) : Setting.fold name = name := by
  have hall : ∀ f ∈ all, ∀ name ∈ f.path, Setting.fold name = name := by decide
  exact hall f (mem_all f) name h

theorem fold_of_mem_section {name : String} (h : path ∈ sections) (hname : name ∈ path) :
    Setting.fold name = name := by
  have hall : ∀ path ∈ sections, ∀ name ∈ path, Setting.fold name = name := by decide
  exact hall path h name hname

end Field

/-- What is said about the settings: what each is, or nothing about it. -/
def Part : Type :=
  (f : Field) → Option f.Value

/-- The settings a part stands for; what it says nothing about is as by default. -/
def ofPart (p : Part) : Settings where
  source := ⟨(p .sources).getD SourceSettings.default.sources, p .version,
    (p .skipped).getD SourceSettings.default.skipped⟩
  output := ⟨(p .targets).getD OutputSettings.default.targets,
    (p .directory).getD OutputSettings.default.directory⟩
  profiles := ⟨⟨(p .rustFile).getD Codegen.RustProfile.default.fileName⟩,
    ⟨(p .pythonFile).getD Codegen.PythonProfile.default.fileName,
      (p .pythonClass).getD Codegen.defaultClass⟩,
    ⟨p .javaFile, (p .javaPackage).getD Codegen.defaultPackage,
      (p .javaClass).getD Codegen.defaultClass⟩⟩
  strict := (p .strict).getD false
  check := ⟨(p .checkStrict).getD false, p .baseline, p .revision, p .repository⟩

theorem get_ofPart (p : Part) (f : Field) : f.get (ofPart p) = (p f).or (f.get .default) := by
  cases f <;> cases h : p _ <;> simp [Field.get, ofPart, h] <;> rfl

end AttributeRegistry.Settings
