import AttributeRegistry.Finding
import AttributeRegistry.Registry
import AttributeRegistry.Suggestion
import AttributeRegistry.Text.Similarity

/-!
# Deprecation

Findings about the replacements of deprecated attributes. A replacement has to be registered, and it
must not be deprecated itself: a deprecated one makes a chain, unless following replacements leads
back to where it started, which makes a cycle. Every cycle is found once, at its least key.
-/

namespace AttributeRegistry

/-- A line of advice that names the candidate most like a text. -/
def hint (needle : String) (candidates : List String) : List String :=
  match suggest (Text.similarity? needle) candidates with
  | some c => ["did you mean '" ++ c ++ "'?"]
  | none => []

namespace Registry

/-! ## The replacement of one attribute -/

/-- What is wrong with the replacement an attribute names, or does not name. -/
def replacementFindings (r : Registry) (a : Attribute) : Report :=
  match a.deprecatedBy, a.isDeprecated with
  | none, true =>
    [.new a.key .missingDeprecatedBy
      "deprecated attribute does not name a replacement (deprecated_by)" []]
  | none, false => []
  | some target, false =>
    [.new a.key .unexpectedDeprecatedBy
      ("deprecated_by '" ++ target ++ "' is set but stability is '" ++ a.stability.name ++ "'") []]
  | some target, true =>
    if r.contains target then []
    else [.new a.key .danglingDeprecation
      ("deprecated_by references unknown key '" ++ target ++ "'")
      (hint target (r.keys.filter (· ≠ a.key)))]

/-! ## Cycles -/

/-- The keys met from a key on before `goal` is met, if it is met within some steps. -/
def pathBackTo (r : Registry) (goal : String) : Nat → String → Option (List String)
  | 0, _ => none
  | steps + 1, key =>
    match r.successor? key with
    | none => none
    | some next =>
      if next = goal then some [key] else (r.pathBackTo goal steps next).map (key :: ·)

/-- The keys of the cycle a key is on, beginning with the key. -/
def cycleThrough? (r : Registry) (key : String) : Option (List String) :=
  r.pathBackTo key r.size key

/-- Every key that is deprecated in favour of a registered one or replaces one, in the order of the
deprecated keys. -/
def linked (r : Registry) : List String :=
  r.deprecated.flatMap fun a =>
    match r.successor? a.key with
    | some next => [a.key, next]
    | none => []

/-- The least of some keys. -/
def leastKey? (keys : List String) : Option String :=
  (Ordered.sortStrings keys).head?

/-- The least key of every cycle, those of the cycles that are linked last at the head. -/
def cycleStarts (r : Registry) : List String :=
  (r.linked.filterMap fun key => (r.cycleThrough? key).bind leastKey?).eraseDups.reverse

/-- The cycles of the registry, each from its least key on. -/
def cycles (r : Registry) : List (List String) :=
  r.cycleStarts.filterMap r.cycleThrough?

/-- Keys with arrows between them. -/
def arrows (keys : List String) : String :=
  String.intercalate " -> " keys

/-- The finding of a cycle. -/
def cycleFinding (cycle : List String) : Report :=
  match cycle with
  | [] => []
  | start :: rest =>
    let message := if rest.isEmpty then "'" ++ start ++ "' is deprecated in favour of itself"
      else "deprecation cycle through " ++ toString cycle.length ++ " attributes"
    [.new start .deprecationCycle message ["cycle: " ++ arrows (cycle ++ [start])]]

/-! ## Chains -/

/-- Follows replacements for at most some steps, up to a key that has none, is not registered, or
was met before. -/
def walk (r : Registry) : Nat → List String → String → List String
  | 0, _, key => [key]
  | steps + 1, met, key =>
    match (r.get? key).bind Attribute.replacement? with
    | none => [key]
    | some next =>
      if (met ++ [key]).contains next || !r.contains next then [key, next]
      else key :: r.walk steps (met ++ [key]) next

/-- The finding of an attribute whose replacement is deprecated, unless it is on a cycle. -/
def chainFindings (r : Registry) (onCycle : List String) (a : Attribute) : Report :=
  if onCycle.contains a.key then []
  else match a.deprecatedBy.bind r.get? with
    | none => []
    | some target =>
      if !target.isDeprecated then []
      else
        let path := r.walk (r.size + 1) [] a.key
        let advice := match path.getLast? with
          | none => []
          | some terminal =>
            match r.get? terminal with
            | some t => if !onCycle.contains terminal && !t.isDeprecated
              then ["point deprecated_by at '" ++ terminal ++ "' instead"] else []
            | none => []
        [.new a.key .deprecationChain
          ("deprecated_by '" ++ target.key ++ "' is itself deprecated")
          (("chain: " ++ arrows path) :: advice)]

/-- The findings about cycles and chains. -/
def graphFindings (r : Registry) : Report :=
  let cycles := r.cycles
  cycles.flatMap cycleFinding ++ r.deprecated.flatMap (r.chainFindings cycles.flatten)

end Registry

end AttributeRegistry
