import AttributeRegistry.Proofs.Storage.Found
import AttributeRegistry.Settings.Order

/-!
# The files settings come from

Main statement: settings are loaded as they were if every path a settings file may have leads to what
it led to (`loadSettings_congr`).
-/

namespace AttributeRegistry.Workspace

open FileTree

variable {w : Workspace} {t : FileTree} {path : String}

/-- The paths a settings file may have: the one it is given by, and that with the extension. -/
def pathsOf (path : String) : List String :=
  [path, Path.ofComponents (Path.components path) ++ ".toml"]

/-- The paths of all settings files. -/
def settingsPaths (w : Workspace) (named : Option String) : List String :=
  (projectFiles ++ w.userFile :: named.toList).flatMap pathsOf

/-- Paths lead to what they led to, if to anything. -/
def Leads (w : Workspace) (t : FileTree) (paths : List String) : Prop :=
  ∀ path ∈ paths, (t.find path).toOption = (w.files.find path).toOption

theorem isFile_eq_toOption : t.isFile path = match (t.find path).toOption with
    | some (.file _) => true
    | _ => false := by
  unfold isFile
  cases t.find path with
  | error fault => rfl
  | ok n => cases n <;> rfl

theorem isFile_eq_false (h : (t.find path).toOption = none) : t.isFile path = false := by
  rw [isFile_eq_toOption, h]

theorem toOption_eq_some {ε α : Type} {x : Except ε α} {a : α} (h : x.toOption = some a) :
    x = .ok a := by
  cases x with
  | error e => cases h
  | ok b => rw [Option.some.inj h]

theorem isFile_congr (h : Leads w t (pathsOf path)) :
    ∀ p ∈ pathsOf path, t.isFile p = w.files.isFile p := by
  intro p hp
  rw [isFile_eq_toOption, isFile_eq_toOption, h p hp]

theorem settingsFile?_congr (h : Leads w t (pathsOf path)) :
    settingsFile? { w with files := t } path = w.settingsFile? path := by
  unfold settingsFile?
  dsimp only
  rw [isFile_congr h path (by simp [pathsOf]),
    isFile_congr h (Path.ofComponents (Path.components path) ++ ".toml") (by simp [pathsOf])]

/-- A file with the extension is the settings file of its path. -/
theorem settingsFile?_eq_some {l : Location} {content : ByteArray}
    (hextension : Path.extension? path = some "toml") (hl : w.files.locate path = .ok l)
    (hnode : w.files.node? l = some (.file content)) : w.settingsFile? path = some path := by
  have hisFile : w.files.isFile path = true :=
    isFile_iff.mpr ⟨content, find_eq_ok_iff.mpr ⟨l, hl, hnode⟩⟩
  unfold settingsFile?
  rw [if_pos hisFile, if_pos hextension]
  rfl

theorem isFile_of_settingsFile? {file : String} (h : w.settingsFile? path = some file) :
    file ∈ pathsOf path ∧ w.files.isFile file = true := by
  unfold settingsFile? at h
  split at h
  · next hisFile =>
    split at h
    · cases h
      exact ⟨by simp [pathsOf], hisFile⟩
    · cases h
  · cases hname : Path.fileName? path with
    | none =>
      rw [hname] at h
      cases h
    | some name =>
      rw [hname] at h
      simp only [Bind.bind, Option.bind] at h
      split at h
      · next hisFile =>
        cases h
        exact ⟨by simp [pathsOf], hisFile⟩
      · cases h

theorem fileLayer_congr (hstart : t.workingDirectory = w.files.workingDirectory)
    (h : Leads w t (pathsOf path)) (required : Bool) :
    fileLayer { w with files := t } required path = w.fileLayer required path := by
  unfold fileLayer
  rw [settingsFile?_congr h]
  cases hfile : w.settingsFile? path with
  | none =>
    unfold noSettingsFile fromRoot
    rw [isFile_congr h path (by simp [pathsOf])]
    dsimp only
    rw [hstart]
  | some file =>
    have hread : t.read file = w.files.read file := by
      obtain ⟨hmem, hisFile⟩ := isFile_of_settingsFile? hfile
      have hfind := h file hmem
      cases hthere : w.files.find file with
      | error fault =>
        unfold isFile at hisFile
        rw [hthere] at hisFile
        cases hisFile
      | ok n =>
        rw [hthere] at hfind
        unfold FileTree.read readBytes
        rw [hthere, toOption_eq_some hfind]
    dsimp only
    rw [hread]

/-- The files have the entries they had if their paths lead to what they led to. -/
theorem fileLayers_congr {named : Option String}
    (hstart : t.workingDirectory = w.files.workingDirectory)
    (h : Leads w t (w.settingsPaths named)) :
    fileLayers { w with files := t } named = w.fileLayers named := by
  have hlayer : ∀ path ∈ projectFiles ++ w.userFile :: named.toList, ∀ required,
      fileLayer { w with files := t } required path = w.fileLayer required path :=
    fun path hpath required => fileLayer_congr hstart
      (fun p hp => h p (List.mem_flatMap.mpr ⟨path, hpath, hp⟩)) required
  have huser : t.exists? w.userFile = w.files.exists? w.userFile := by
    unfold exists?
    rw [h w.userFile]
    exact List.mem_flatMap.mpr ⟨w.userFile, by simp, by simp [pathsOf]⟩
  have hoptional : ∀ user : List String, user ⊆ [w.userFile] →
      (projectFiles ++ user).mapM (fileLayer { w with files := t } false) =
        (projectFiles ++ user).mapM (w.fileLayer false) := by
    intro user huser
    refine mapM_congr fun path hpath => hlayer path ?_ false
    rw [List.mem_append] at hpath ⊢
    exact hpath.imp_right fun hpath => List.mem_append_left _ (huser hpath)
  unfold fileLayers
  dsimp only
  rw [show userFile { w with files := t } = w.userFile from rfl, huser, hoptional]
  · cases named with
    | none => rfl
    | some path =>
      dsimp only
      rw [hlayer path (by simp) true]
  · split <;> simp

/-- And no layer names a place twice if none did. -/
theorem NamedOnce.congr {named : Option String} (honce : w.NamedOnce named)
    (hstart : t.workingDirectory = w.files.workingDirectory)
    (h : Leads w t (w.settingsPaths named)) : NamedOnce { w with files := t } named := by
  intro layers hlayers
  rw [fileLayers_congr hstart h] at hlayers
  exact honce layers hlayers

/-! ## No settings files -/

theorem settingsFile?_eq_none (h : ∀ p ∈ pathsOf path, w.files.isFile p = false) :
    w.settingsFile? path = none := by
  cases hfile : w.settingsFile? path with
  | none => rfl
  | some file =>
    obtain ⟨hmem, hisFile⟩ := isFile_of_settingsFile? hfile
    rw [h file hmem] at hisFile
    cases hisFile

theorem fileLayer_eq_nil (h : ∀ p ∈ pathsOf path, w.files.isFile p = false) :
    w.fileLayer false path = .ok [] := by
  unfold fileLayer
  rw [settingsFile?_eq_none h]
  rfl

/-- Without files, their layers have no entries. -/
theorem exists_fileLayers_eq (hfiles : ∀ path ∈ w.settingsPaths none, w.files.isFile path = false) :
    ∃ n, w.fileLayers none = .ok (List.replicate n []) := by
  have hlayer : ∀ path ∈ projectFiles ++ [w.userFile], w.fileLayer false path = .ok [] :=
    fun path hpath => fileLayer_eq_nil fun p hp =>
      hfiles p (List.mem_flatMap.mpr ⟨path, hpath, hp⟩)
  unfold projectFiles at hlayer
  simp only [List.forall_mem_append, List.forall_mem_cons] at hlayer
  obtain ⟨⟨hfirst, hsecond, hthird, -⟩, huser, -⟩ := hlayer
  unfold fileLayers projectFiles
  dsimp only
  split
  · refine ⟨4, ?_⟩
    simp only [List.cons_append, List.nil_append, List.mapM_cons, List.mapM_nil, hfirst, hsecond,
      hthird, huser]
    rfl
  · refine ⟨3, ?_⟩
    simp only [List.append_nil, List.mapM_cons, List.mapM_nil, hfirst, hsecond, hthird]
    rfl

theorem foldl_putLayer_replicate (n : Nat) (t : Setting) :
    (List.replicate n []).foldl Setting.putLayer t = t := by
  induction n with
  | zero => rfl
  | succ n ih => exact ih

/-- Without files, the environment is all there is. -/
theorem loadSettings_eq_environment
    (hfiles : ∀ path ∈ w.settingsPaths none, w.files.isFile path = false) :
    w.loadSettings none =
      (Settings.shape.readSetting (Setting.empty.putLayer w.environmentLayer)).mapError
        Setting.Refusal.message := by
  obtain ⟨n, hlayers⟩ := exists_fileLayers_eq hfiles
  have hlayered : (List.replicate n [] ++ [w.environmentLayer]).foldl Setting.putLayer Setting.empty =
      Setting.empty.putLayer w.environmentLayer := by
    rw [List.foldl_append, foldl_putLayer_replicate]
    rfl
  rw [← hlayered]
  unfold loadSettings layered
  rw [hlayers]
  rfl

theorem environmentLayer_eq_nil (henvironment : w.environment = []) : w.environmentLayer = [] := by
  unfold environmentLayer
  rw [henvironment]
  rfl

/-- Without files and variables, the settings are the default ones. -/
theorem loadSettings_eq_default (hfiles : ∀ path ∈ w.settingsPaths none, w.files.isFile path = false)
    (henvironment : w.environment = []) : w.loadSettings none = .ok .default := by
  rw [loadSettings_eq_environment hfiles, environmentLayer_eq_nil henvironment]
  rfl

end AttributeRegistry.Workspace
