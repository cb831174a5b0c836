import AttributeRegistry.Command.Generate
import AttributeRegistry.Settings.Order

/-!
# The ways a run may go

What a run does is settled by its workspace and its arguments, but for two things: the order in which
the settings of a layer are taken, and the lines of a log, which tell the time. The log is shown among
what is printed, and only if a variable asks for it: nothing that is logged is an error, and without
the variable errors are all that is shown.
-/

namespace AttributeRegistry.Command

/-- The variable that says what is shown of the log. -/
def logVariable : String :=
  "RUST_LOG"

/-- What may be shown of what is printed: just that, or with lines of the log in between if the
variable for them is set. -/
def Shows (w : Workspace) (printed shown : String) : Prop :=
  match w.environment.lookup logVariable with
  | none => shown = printed
  | some _ => (Text.lines printed.toList).Sublist (Text.lines shown.toList)

end AttributeRegistry.Command
