import AttributeRegistry.Command.Configure
import AttributeRegistry.Command.Drift
import AttributeRegistry.Command.Generate

/-!
# Programs

The commands by the names of their programs.
-/

namespace AttributeRegistry.Command

/-- Runs the program of a name at some time; the files are as they are when it ends. -/
def runProgram (name now : String) (w : Workspace) (arguments : List String) : FileTree × Outcome :=
  match name with
  | "semconv-generate" => Generate.run w arguments
  | "semconv-drift" => (w.files, Drift.run now w arguments)
  | "semconv-config" => Configure.run w arguments
  | name => (w.files, misused ("unknown program '" ++ name ++ "'"))

end AttributeRegistry.Command
