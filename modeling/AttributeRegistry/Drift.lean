import AttributeRegistry.Codegen.Artifact
import AttributeRegistry.Diff.Unified
import AttributeRegistry.Error

/-!
# Drift

How the modules of a fresh run differ from those that were written before. A module that was never
written is missing; one with another text is changed, and the report shows the difference.
-/

namespace AttributeRegistry

open Codegen

/-- What was written before: texts by file name, and perhaps a manifest. -/
structure Snapshot where
  files : List (String × String)
  manifest : Option Manifest

namespace Snapshot

/-- Nothing written before. -/
def empty : Snapshot :=
  ⟨[], none⟩

/-- Puts a file into a snapshot, in place of one with its name. -/
def insert (s : Snapshot) (name content : String) : Snapshot :=
  { s with files := (name, content) :: s.files.filter fun f => f.1 ≠ name }

/-- The text of a file. -/
def get? (s : Snapshot) (name : String) : Option String :=
  s.files.lookup name

/-- The files and the manifest of a run. -/
def ofArtifacts (a : Artifacts) : Snapshot :=
  a.items.foldl (fun s i => s.insert i.fileName i.content) ⟨[], some a.manifest⟩

end Snapshot

/-- What became of a module. -/
inductive Status where
  | unchanged
  | changed (diff : String)
  | missing
deriving DecidableEq, Repr

/-- The name of a status. -/
def Status.name : Status → String
  | .unchanged => "unchanged"
  | .changed _ => "changed"
  | .missing => "missing"

/-- What became of the module of a target. -/
structure DriftItem where
  target : Target
  fileName : String
  status : Status
deriving DecidableEq, Repr

/-- Whether a module differs from what was written. -/
def DriftItem.isDrift (i : DriftItem) : Bool :=
  i.status ≠ .unchanged

/-- How a run differs from what was written. -/
structure DriftReport where
  version : Version
  /-- The version the written manifest has. -/
  writtenVersion : Option Version
  items : List DriftItem

namespace DriftReport

/-- The status of a module. -/
def statusOf (s : Snapshot) (a : Artifact) : Status :=
  match s.get? a.fileName with
  | none => .missing
  | some old =>
    if old = a.content then .unchanged else .changed (Diff.unified a.fileName old a.content)

/-- Compares a run with what was written. -/
def compare (s : Snapshot) (fresh : Artifacts) : DriftReport :=
  { version := fresh.version
    writtenVersion := s.manifest.map Manifest.version
    items := fresh.items.map fun a => ⟨a.target, a.fileName, statusOf s a⟩ }

/-- The modules that differ. -/
def drifted (r : DriftReport) : List DriftItem :=
  r.items.filter DriftItem.isDrift

/-- The number of modules that differ. -/
def count (r : DriftReport) : Nat :=
  r.drifted.length

/-- Whether any module differs. -/
def detected (r : DriftReport) : Bool :=
  r.items.any DriftItem.isDrift

/-- Whether what was written has another version. -/
def versionChanged (r : DriftReport) : Bool :=
  r.writtenVersion.any fun v => v ≠ r.version

/-- Whether a run passes a check: a strict one allows no difference. -/
def passes (r : DriftReport) (strict : Bool) : Bool :=
  !strict || !r.detected

/-- The report on a run that passes a check; otherwise the error says how many modules differ. -/
def verify (s : Snapshot) (fresh : Artifacts) (strict : Bool) : Except Error DriftReport :=
  let r := compare s fresh
  if r.passes strict then .ok r else .error (.drift r.count)

/-! ## JSON -/

/-- The members that tell a status. -/
def statusMembers (s : Status) : List (String × Json) :=
  ("status", .str s.name) ::
    match s with
    | .changed diff => [("diff", .str diff)]
    | _ => []

/-- What became of a module, as JSON. -/
def itemJson (i : DriftItem) : Json :=
  .obj ([("target", .str i.target.name), ("file_name", .str i.fileName)] ++ statusMembers i.status)

/-- The members of a report. -/
def members (r : DriftReport) : List (String × Json) :=
  [("drift_detected", .bool r.detected), ("version_changed", .bool r.versionChanged),
    ("registry_version", .str r.version.text)]
    ++ (r.writtenVersion.map fun v => ("persisted_version", Json.str v.text)).toList
    ++ [("artifacts", .arr (r.items.map itemJson))]

end DriftReport

end AttributeRegistry
