import AttributeRegistry.Ordered
import Mathlib.Data.List.Sort

/-!
# Sorted lists are canonical

A strictly ascending list is determined by its members. So `distinct` forgets in which order, and how
often, a list holds its elements (`distinct_congr`).
-/

namespace AttributeRegistry.Ordered

/-! ## Comparing by a key -/

theorem transCmp_comap {α β : Type} (cmp : β → β → Ordering) [Std.TransCmp cmp] (f : α → β) :
    Std.TransCmp fun a b => cmp (f a) (f b) where
  eq_swap := Std.OrientedCmp.eq_swap
  isLE_trans := Std.TransCmp.isLE_trans

theorem lawfulEqCmp_comap {α β : Type} (cmp : β → β → Ordering) [Std.LawfulEqCmp cmp] {f : α → β}
    (hf : ∀ a b, f a = f b → a = b) : Std.LawfulEqCmp fun a b => cmp (f a) (f b) where
  compare_self := Std.ReflCmp.compare_self
  eq_of_compare h := hf _ _ (Std.LawfulEqCmp.eq_of_compare h)

theorem transCmp_then {α : Type} {cmp₁ cmp₂ : α → α → Ordering} [Std.TransCmp cmp₁]
    [Std.TransCmp cmp₂] : Std.TransCmp fun a b => (cmp₁ a b).then (cmp₂ a b) :=
  inferInstanceAs (Std.TransCmp (compareLex cmp₁ cmp₂))

/-! ## Sorting -/

variable {α : Type} {cmp : α → α → Ordering}

theorem perm_sort (cmp : α → α → Ordering) (as : List α) : (sort cmp as).Perm as :=
  List.mergeSort_perm as (le cmp)

theorem sort_eq_nil_iff {as : List α} : sort cmp as = [] ↔ as = [] := by
  constructor
  · intro h
    have hp := perm_sort cmp as
    rw [h] at hp
    exact hp.symm.eq_nil
  · rintro rfl
    simp [sort]

theorem length_sort (as : List α) : (sort cmp as).length = as.length :=
  (perm_sort cmp as).length_eq

theorem not_lt_self [Std.ReflCmp cmp] (a : α) : cmp a a ≠ .lt := by
  intro h
  have heq : cmp a a = .eq := Std.ReflCmp.compare_self
  rw [heq] at h
  exact absurd h (by decide)

/-- Without repetitions a sorted list is strictly ascending. -/
theorem pairwise_sort_of_nodup [Std.TransCmp cmp] [Std.LawfulEqCmp cmp] {as : List α} (h : as.Nodup) :
    (sort cmp as).Pairwise fun a b => cmp a b = .lt := by
  have hnodup : (sort cmp as).Nodup := (perm_sort cmp as).nodup_iff.mpr h
  refine ((pairwise_sort as).and hnodup).imp ?_
  rintro a b ⟨hle, hne⟩
  cases hcmp : cmp a b with
  | lt => rfl
  | eq => exact absurd (Std.LawfulEqCmp.eq_of_compare hcmp) hne
  | gt => simp [hcmp] at hle

/-- Two strictly ascending lists with the same members are the same list. -/
theorem eq_of_pairwise_lt [Std.TransCmp cmp] {as bs : List α}
    (ha : as.Pairwise fun a b => cmp a b = .lt) (hb : bs.Pairwise fun a b => cmp a b = .lt)
    (h : ∀ a, a ∈ as ↔ a ∈ bs) : as = bs := by
  have hasymm : ∀ a b, cmp a b = .lt → cmp b a = .lt → a = b := by
    intro a b hab hba
    have hswap : cmp a b = (cmp b a).swap := Std.OrientedCmp.eq_swap
    rw [hswap, hba] at hab
    exact absurd hab (by decide)
  -- strictly ascending lists are sorted in the sense of an antisymmetric, irreflexive relation
  have : Std.Antisymm fun a b => cmp a b = .lt := ⟨hasymm⟩
  have : Std.Irrefl fun a b => cmp a b = .lt := ⟨not_lt_self⟩
  exact ha.eq_of_mem_iff hb h

/-- A list without repetitions has at most one element iff all its elements are equal. -/
theorem length_le_one_iff_of_nodup {as : List α} (h : as.Nodup) :
    as.length ≤ 1 ↔ ∀ a ∈ as, ∀ b ∈ as, a = b := by
  match as, h with
  | [], _ => simp
  | [_], _ => simp
  | a :: b :: rest, h =>
    have hne : a ≠ b := by
      rintro rfl
      exact (List.nodup_cons.mp h).1 List.mem_cons_self
    constructor
    · intro hle
      simp at hle
    · intro hall
      exact absurd (hall a (by simp) b (by simp)) hne

variable [DecidableEq α] [Std.TransCmp cmp] [Std.LawfulEqCmp cmp]

/-- `distinct` looks at the members of a list only. -/
theorem distinct_congr {as bs : List α} (h : ∀ a, a ∈ as ↔ a ∈ bs) :
    distinct cmp as = distinct cmp bs :=
  eq_of_pairwise_lt (pairwise_distinct as) (pairwise_distinct bs) fun a => by
    rw [mem_distinct, mem_distinct, h]

theorem nodup_distinct (cmp : α → α → Ordering) [Std.TransCmp cmp] [Std.LawfulEqCmp cmp]
    (as : List α) : (distinct cmp as).Nodup := by
  have h : (distinct cmp as).Pairwise fun a b => cmp a b = .lt := pairwise_distinct as
  refine h.imp ?_
  rintro a b hab rfl
  exact not_lt_self a hab

/-- A list has at most one distinct element iff all its elements are equal. -/
theorem length_distinct_le_one_iff {as : List α} :
    (distinct cmp as).length ≤ 1 ↔ ∀ a ∈ as, ∀ b ∈ as, a = b := by
  rw [length_le_one_iff_of_nodup (nodup_distinct cmp as)]
  simp only [mem_distinct]

end AttributeRegistry.Ordered
