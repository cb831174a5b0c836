import AttributeRegistry.Codegen.Target
import AttributeRegistry.Shape.Basic

/-!
# Profiles

How the output for each target is laid out: file names, class names and the package. What is in it
is up to the registry. Every setting has a default.
-/

namespace AttributeRegistry.Codegen

open Shape

/-- The profile of Rust. -/
structure RustProfile where
  fileName : String
deriving DecidableEq, Repr

/-- The profile of Python. -/
structure PythonProfile where
  fileName : String
  className : String
deriving DecidableEq, Repr

/-- The profile of Java. -/
structure JavaProfile where
  /-- The name of the file, unless it is the one of the class. -/
  fileName : Option String
  package : String
  className : String
deriving DecidableEq, Repr

/-- The profiles of all targets. -/
structure Profiles where
  rust : RustProfile
  python : PythonProfile
  java : JavaProfile
deriving DecidableEq, Repr

/-- The default name of a class. -/
def defaultClass : String :=
  "Attributes"

/-- The default package. -/
def defaultPackage : String :=
  "dev.jcosta.semconv"

/-- The default profile of Rust. -/
def RustProfile.default : RustProfile :=
  ⟨"attributes.rs"⟩

/-- The default profile of Python. -/
def PythonProfile.default : PythonProfile :=
  ⟨"attributes.py", defaultClass⟩

/-- The default profile of Java. -/
def JavaProfile.default : JavaProfile :=
  ⟨none, defaultPackage, defaultClass⟩

/-- The default profiles. -/
def Profiles.default : Profiles :=
  ⟨.default, .default, .default⟩

/-! ## File names -/

/-- The name of the file a public class has to be in. -/
def JavaProfile.classFile (p : JavaProfile) : String :=
  p.className ++ ".java"

/-- The name of the file for Java. -/
def JavaProfile.file (p : JavaProfile) : String :=
  p.fileName.getD p.classFile

/-- What is wrong with a file name that does not match the class. -/
def JavaProfile.mismatch (p : JavaProfile) : List String :=
  match p.fileName with
  | none => []
  | some name =>
    if name = p.classFile then []
    else ["codegen.java.file_name '" ++ name ++ "' does not match class '" ++ p.className
      ++ "' (expected '" ++ p.classFile ++ "')"]

/-- The name of the file for a target. -/
def Profiles.fileName (p : Profiles) : Target → String
  | .rust => p.rust.fileName
  | .python => p.python.fileName
  | .java => p.java.file

/-! ## Shapes -/

/-- The shape of the profile of Rust. -/
def RustProfile.shape : Shape RustProfile :=
  .record "RustProfile" false (fieldOr "file_name" RustProfile.default.fileName .text .nil)
    fun (fileName, ()) => ⟨fileName⟩

/-- The shape of the profile of Python. -/
def PythonProfile.shape : Shape PythonProfile :=
  .record "PythonProfile" false
    (fieldOr "file_name" PythonProfile.default.fileName .text <|
     fieldOr "class_name" defaultClass .text .nil)
    fun (fileName, className, ()) => ⟨fileName, className⟩

/-- The shape of the profile of Java. -/
def JavaProfile.shape : Shape JavaProfile :=
  .record "JavaProfile" false
    (fieldOr "file_name" none (.optional .text) <|
     fieldOr "package" defaultPackage .text <|
     fieldOr "class_name" defaultClass .text .nil)
    fun (fileName, package, className, ()) => ⟨fileName, package, className⟩

/-- The shape of the profiles. -/
def Profiles.shape : Shape Profiles :=
  .record "CodegenConfig" false
    (fieldOr "rust" .default RustProfile.shape <|
     fieldOr "python" .default PythonProfile.shape <|
     fieldOr "java" .default JavaProfile.shape .nil)
    fun (rust, python, java, ()) => ⟨rust, python, java⟩

end AttributeRegistry.Codegen
