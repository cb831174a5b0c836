import AttributeRegistry.Finding
import AttributeRegistry.Version.Parser

/-!
# Errors

What ends a run. Findings about the registry are reported together, in `Error.invalid`; the other
errors end a run on the spot.
-/

namespace AttributeRegistry

/-- Why a file or directory could not be used. -/
inductive FileFault where
  | notFound
  | exists
  | notDirectory
  | isDirectory
  | notText
  /-- A name or a path longer than any can be. -/
  | tooLong
  | nullCharacter
deriving DecidableEq, Repr

/-- The wording of a file fault. -/
def FileFault.message : FileFault → String
  | .notFound => "No such file or directory (os error 2)"
  | .exists => "File exists (os error 17)"
  | .notDirectory => "Not a directory (os error 20)"
  | .isDirectory => "Is a directory (os error 21)"
  | .notText => "stream did not contain valid UTF-8"
  | .tooLong => "File name too long (os error 36)"
  | .nullCharacter => "file name contained an unexpected NUL byte"

/-- What ends a run. -/
inductive Error where
  | file (path : String) (fault : FileFault)
  | invalid (findings : Report)
  | drift (count : Nat)
  | unknownTarget (written : String)
  | invalidVersion (e : Version.Error)
  | json (message : String)
  | noRepository (path : String)
  | settings (message : String)

/-- The wording of a missing repository. -/
def noRepositoryMessage (path : String) : String :=
  "could not find repository at '" ++ path ++ "'; class=Repository (6); code=NotFound (-3)"

/-- The wording of an error. -/
def Error.message : Error → String
  | .file path fault => "IO error at " ++ path ++ ": " ++ fault.message
  | .invalid r =>
    "Registry is invalid: " ++ toString r.errors.length ++ " error(s), "
      ++ toString r.warnings.length ++ " warning(s)"
  | .drift count => "Drift detected in " ++ toString count ++ " artifact(s)"
  | .unknownTarget written => "Unknown target language: " ++ written
  | .invalidVersion e => "Invalid version: " ++ e.message
  | .json message => "JSON error: " ++ message
  | .noRepository path => "Git error: " ++ noRepositoryMessage path
  | .settings message => "Configuration error: " ++ message

/-- The wording of what an error comes from, if it is told apart from the error. -/
def Error.cause? : Error → Option String
  | .file _ fault => some fault.message
  | .invalidVersion e => some e.message
  | .json message => some message
  | .noRepository path => some (noRepositoryMessage path)
  | .settings message => some message
  | _ => none

end AttributeRegistry
