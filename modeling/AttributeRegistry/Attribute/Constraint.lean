import AttributeRegistry.Json.Basic
import AttributeRegistry.Signal

/-!
# Signal constraints

A constraint says on which signals an attribute must not, or may only, be used. Signals stay named
as the document names them, so that a misspelled one can be reported.
-/

namespace AttributeRegistry

/-- A restriction of the signals an attribute may be used on. -/
structure Constraint where
  notOn : List String
  onlyOn : List String
  reason : Option String
deriving DecidableEq, Repr

namespace Constraint

/-- The constraint that forbids signals. -/
def forbidding (signals : List Signal) : Constraint :=
  ⟨signals.map Signal.name, [], none⟩

/-- The constraint that allows signals only. -/
def restrictingTo (signals : List Signal) : Constraint :=
  ⟨[], signals.map Signal.name, none⟩

/-- Every signal name a constraint mentions, as written. -/
def signalNames (c : Constraint) : List String :=
  c.notOn ++ c.onlyOn

/-- Whether a list of names mentions a signal. -/
def mentions (names : List String) (s : Signal) : Bool :=
  names.any fun n => Signal.parse n == some s

/-- Whether a constraint permits a signal. Names of no signal match none. -/
def allows (c : Constraint) (s : Signal) : Bool :=
  !mentions c.notOn s && (c.onlyOn.isEmpty || mentions c.onlyOn s)

/-- Names between backquotes, with commas between them. -/
def listed (names : List String) : String :=
  String.intercalate ", " (names.map fun n => "`" ++ n ++ "`")

/-- A text without the periods it ends with. -/
def dropPeriods (s : String) : String :=
  String.ofList (s.toList.reverse.dropWhile (· == '.')).reverse

/-- A constraint as a sentence, with its reason as a second one. -/
def describe (c : Constraint) : String :=
  let forbidden := if c.notOn.isEmpty then [] else
    ["MUST NOT be used on " ++ listed c.notOn ++ " signals"]
  let restricted := if c.onlyOn.isEmpty then [] else
    ["MAY only be used on " ++ listed c.onlyOn ++ " signals"]
  let reason := match c.reason with
    | none => ""
    | some r => ". " ++ dropPeriods r
  String.intercalate "; " (forbidden ++ restricted) ++ reason ++ "."

/-- A member that is left out when its list is empty. -/
def namesMember (key : String) (names : List String) : List (String × Json) :=
  if names.isEmpty then [] else [(key, .arr (names.map Json.str))]

/-- A constraint as JSON; what is empty or missing is left out. -/
def toJson (c : Constraint) : Json :=
  .obj (namesMember "not_on" c.notOn ++ namesMember "only_on" c.onlyOn
    ++ (c.reason.map fun r => ("reason", Json.str r)).toList)

end Constraint

end AttributeRegistry
