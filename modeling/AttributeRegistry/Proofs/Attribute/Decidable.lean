import AttributeRegistry.Document.Basic

/-!
# Equality of definitions is decidable

`Example` lists examples in examples, so that its instance is a pair of recursive functions. It is
equality proper; `Example.same`, which the merge uses, takes the two zeros for one.
-/

namespace AttributeRegistry

namespace Example

mutual

/-- Decides whether two literals are the same datum. -/
def decEq : (a b : Example) → Decidable (a = b)
  | .bool a, .bool b => decidable_of_iff (a = b) (by rw [Example.bool.injEq])
  | .int a, .int b => decidable_of_iff (a = b) (by rw [Example.int.injEq])
  | .double a, .double b => decidable_of_iff (a = b) (by rw [Example.double.injEq])
  | .text a, .text b => decidable_of_iff (a = b) (by rw [Example.text.injEq])
  | .list a, .list b =>
    have := decEqItems a b
    decidable_of_iff (a = b) (by rw [Example.list.injEq])
  | .bool _, .int _ | .bool _, .double _ | .bool _, .text _ | .bool _, .list _
  | .int _, .bool _ | .int _, .double _ | .int _, .text _ | .int _, .list _
  | .double _, .bool _ | .double _, .int _ | .double _, .text _ | .double _, .list _
  | .text _, .bool _ | .text _, .int _ | .text _, .double _ | .text _, .list _
  | .list _, .bool _ | .list _, .int _ | .list _, .double _ | .list _, .text _ => .isFalse nofun

/-- Decides whether two lists hold the same data. -/
def decEqItems : (as bs : List Example) → Decidable (as = bs)
  | [], [] => .isTrue rfl
  | [], _ :: _ | _ :: _, [] => .isFalse nofun
  | a :: as, b :: bs =>
    have := decEq a b
    have := decEqItems as bs
    decidable_of_iff (a = b ∧ as = bs) (by rw [List.cons.injEq])

end

instance : DecidableEq Example := decEq

end Example

deriving instance DecidableEq for Attribute
deriving instance DecidableEq for Fragment
deriving instance DecidableEq for Document

end AttributeRegistry
