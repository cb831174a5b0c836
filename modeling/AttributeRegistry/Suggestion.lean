import AttributeRegistry.Ordered

/-!
# Suggestions

The best of some candidates by a score. Among candidates with the best score the first one in order
is suggested, so that the order in which candidates are given does not matter.
-/

namespace AttributeRegistry

/-- Keeps the better of the best candidate so far and another one. -/
def betterCandidate (score : String → Option Int) (best : Option (Int × String)) (c : String) :
    Option (Int × String) :=
  match score c, best with
  | none, best => best
  | some n, none => some (n, c)
  | some n, some (top, old) => if top < n then some (n, c) else some (top, old)

/-- The best candidate. -/
def suggest (score : String → Option Int) (candidates : List String) : Option String :=
  ((Ordered.sortStrings candidates).foldl (betterCandidate score) none).map Prod.snd

end AttributeRegistry
