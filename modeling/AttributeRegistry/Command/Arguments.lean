import AttributeRegistry.Text.Lines

/-!
# Command-line arguments

An option has a long name behind two hyphens and perhaps a letter behind one. The value of an option
is the next argument, unless that looks like an option, or stands behind an equals sign, or directly
behind the letter. All other arguments are positional, as is everything behind two hyphens alone.

Who asks for help gets it, whatever is behind: what is in front has to fit. Of the help and of the
wording of what does not fit, the first lines are here, not the table of options and the advice that
follow.
-/

namespace AttributeRegistry

/-- An option. -/
structure OptionSpec where
  name : String
  letter : Option Char
  /-- Whether the option has a value. -/
  valued : Bool
  /-- Whether the option may be given more than once. -/
  repeated : Bool
  /-- Whether a value fits. -/
  fits : String → Bool

/-- What a command may be given: options, and so many positional arguments or a subcommand. -/
structure ArgumentSpecs where
  /-- What the command is for. -/
  about : String
  /-- How it is called. -/
  usage : String
  options : List OptionSpec
  positional : Nat
  /-- Whether the first positional argument is a subcommand, whose arguments are all behind it. -/
  subcommands : Bool

namespace OptionSpec

/-- An option without a value. -/
def flag (name : String) : OptionSpec :=
  ⟨name, none, false, false, fun _ => true⟩

/-- An option with some text. -/
def text (name : String) (letter : Option Char) : OptionSpec :=
  ⟨name, letter, true, false, fun _ => true⟩

/-- An option with a path, which is not empty. -/
def path (name : String) (letter : Option Char) : OptionSpec :=
  ⟨name, letter, true, false, fun value => !value.isEmpty⟩

/-- An option with one of some words. -/
def word (name : String) (letter : Option Char) (words : List String) : OptionSpec :=
  ⟨name, letter, true, false, words.contains⟩

/-- The option that asks for help, which every command has. -/
def help : OptionSpec :=
  ⟨"help", some 'h', false, false, fun _ => true⟩

/-- The same option, which may be given more than once. -/
def many (spec : OptionSpec) : OptionSpec :=
  { spec with repeated := true }

/-- What is wrong with the values of an option, if anything. -/
def mismatch? (spec : OptionSpec) (values : List String) : Option String :=
  if !spec.repeated && 1 < values.length then
    some ("the argument '--" ++ spec.name ++ "' cannot be used multiple times")
  else (values.find? fun value => !spec.fits value).map fun value =>
    "invalid value '" ++ value ++ "' for '--" ++ spec.name ++ "'"

end OptionSpec

/-- Arguments, told apart. -/
structure Arguments where
  /-- The options with their values, in order; an option without a value has an empty one. -/
  options : List (String × String)
  positional : List String

namespace Arguments

/-- Why a command does not take its arguments. -/
inductive Refusal where
  /-- They ask for help. -/
  | help
  /-- They do not fit. -/
  | misuse (message : String)
deriving DecidableEq, Repr

/-- No arguments. -/
def empty : Arguments :=
  ⟨[], []⟩

/-- Arguments behind an option. -/
def behindOption (spec : OptionSpec) (value : String) (a : Arguments) : Arguments :=
  { a with options := (spec.name, value) :: a.options }

/-- Arguments behind a positional one. -/
def behind (argument : String) (a : Arguments) : Arguments :=
  { a with positional := argument :: a.positional }

/-- An argument that names an option, and the value that stands in the same argument. What is behind
the letter that asks for help does not count: no other option without a value has a letter. -/
def option? (specs : List OptionSpec) (argument : List Char) :
    Option (OptionSpec × Option (List Char)) :=
  match argument with
  | '-' :: '-' :: long => do
    let name := long.takeWhile (· ≠ '=')
    let spec ← specs.find? fun s => s.name.toList = name
    match long.dropWhile (· ≠ '=') with
    | _ :: value => return (spec, some value)
    | [] => return (spec, none)
  | '-' :: letter :: value => do
    let spec ← specs.find? fun s => s.letter = some letter
    if !spec.valued then return (spec, none)
    match value with
    | [] => return (spec, none)
    | '=' :: value => return (spec, some value)
    | value => return (spec, some value)
  | _ => none

/-- The wording of an argument that does not fit. -/
def unexpected (argument : String) : String :=
  "unexpected argument '" ++ argument ++ "' found"

/-- The wording of a value for an option that has none. -/
def needless (spec : OptionSpec) (value : List Char) : String :=
  "unexpected value '" ++ String.ofList value ++ "' for '--" ++ spec.name
    ++ "' found; no more were expected"

/-- The wording of an option without the value it needs. -/
def valueless (argument : String) : String :=
  "a value is required for '" ++ argument ++ "' but none was supplied"

/-- Whether an argument looks like an option. -/
def hyphenated (argument : String) : Bool :=
  match argument.toList with
  | '-' :: _ :: _ => true
  | _ => false

/-- Tells arguments apart, up to one that asks for help. -/
def split (specs : ArgumentSpecs) : List String → Except String Arguments
  | [] => .ok .empty
  | argument :: rest =>
    match option? (.help :: specs.options) argument.toList with
    | some (spec, value) =>
      if !spec.valued then
        match value with
        | some value => .error (needless spec value)
        | none =>
          if spec.name = OptionSpec.help.name then .ok (behindOption spec "" .empty)
          else do return behindOption spec "" (← split specs rest)
      else match value, rest with
        | some value, rest => do
          return behindOption spec (String.ofList value) (← split specs rest)
        | none, value :: rest =>
          if hyphenated value then .error (valueless argument)
          else do return behindOption spec value (← split specs rest)
        | none, [] => .error (valueless argument)
    | none =>
      if argument = "--" then
        if specs.subcommands && !rest.isEmpty then .error (unexpected argument)
        else .ok ⟨[], rest⟩
      else if hyphenated argument then .error (unexpected argument)
      else if specs.subcommands then .ok ⟨[], argument :: rest⟩
      else do return behind argument (← split specs rest)

/-- The values of an option, in order. -/
def all (a : Arguments) (name : String) : List String :=
  (a.options.filter fun o => o.1 = name).map Prod.snd

/-- The last value of an option. -/
def last? (a : Arguments) (name : String) : Option String :=
  (a.all name).getLast?

/-- Whether an option is given. -/
def has (a : Arguments) (name : String) : Bool :=
  !(a.all name).isEmpty

/-- What keeps arguments from being what a command may be given, if anything. -/
def mismatch? (specs : ArgumentSpecs) (a : Arguments) : Option String :=
  (specs.options.findSome? fun spec => spec.mismatch? (a.all spec.name))
    <|> if specs.subcommands then none
      else (a.positional.drop specs.positional).head?.map unexpected

/-- The arguments of a command, told apart. -/
def parse (specs : ArgumentSpecs) (arguments : List String) : Except Refusal Arguments := do
  let a ← (split specs arguments).mapError .misuse
  match a.mismatch? specs with
  | some message => throw (.misuse message)
  | none => if a.has OptionSpec.help.name then throw .help else return a

/-- The parts of an option's values, which have commas in between. -/
def parts (a : Arguments) (name : String) : List String :=
  (a.all name).flatMap fun v => (Text.splitOn ',' v.toList).map String.ofList

end Arguments

end AttributeRegistry
