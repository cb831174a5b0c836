/-!
# Sorted lists

Sorting by a comparison, and sorted lists without repetition as finite sets. Sorting is stable.

Main statements: `distinct` has the elements of the list (`mem_distinct`), strictly ascending
(`pairwise_distinct`).
-/

namespace AttributeRegistry.Ordered

/-- Whether `a` may stand before `b`. -/
def le {α : Type} (cmp : α → α → Ordering) (a b : α) : Bool :=
  (cmp a b).isLE

/-- A list in the order of a comparison; equal elements keep their order. -/
def sort {α : Type} (cmp : α → α → Ordering) (as : List α) : List α :=
  as.mergeSort (le cmp)

theorem mem_sort {α : Type} {cmp : α → α → Ordering} {as : List α} {a : α} :
    a ∈ sort cmp as ↔ a ∈ as := by
  simp [sort]

theorem pairwise_sort {α : Type} {cmp : α → α → Ordering} [Std.TransCmp cmp] (as : List α) :
    (sort cmp as).Pairwise fun a b => (cmp a b).isLE := by
  refine @List.pairwise_mergeSort α (le cmp)
    (fun a b c h₁ h₂ => Std.TransCmp.isLE_trans h₁ h₂) (fun a b => ?_) as
  simp only [le]
  have swap : cmp b a = (cmp a b).swap := Std.OrientedCmp.eq_swap
  rw [swap]
  cases cmp a b <;> rfl

/-- Drops every element that equals the one before it. -/
def dropRepeats {α : Type} [DecidableEq α] : List α → List α
  | [] => []
  | [a] => [a]
  | a :: b :: rest => if a = b then dropRepeats (b :: rest) else a :: dropRepeats (b :: rest)

theorem mem_dropRepeats {α : Type} [DecidableEq α] {as : List α} {x : α} :
    x ∈ dropRepeats as ↔ x ∈ as := by
  induction as with
  | nil => simp [dropRepeats]
  | cons a rest ih =>
    cases rest with
    | nil => simp [dropRepeats]
    | cons b rest =>
      simp only [dropRepeats]
      split
      · next h => rw [ih]; simp [h]
      · simp only [List.mem_cons] at ih ⊢; rw [ih]

theorem pairwise_dropRepeats {α : Type} [DecidableEq α] {cmp : α → α → Ordering}
    [Std.TransCmp cmp] [Std.LawfulEqCmp cmp] {as : List α}
    (h : as.Pairwise fun a b => (cmp a b).isLE) :
    (dropRepeats as).Pairwise fun a b => cmp a b = .lt := by
  induction as with
  | nil => simp [dropRepeats]
  | cons a rest ih =>
    cases rest with
    | nil => simp [dropRepeats]
    | cons b rest =>
      rw [List.pairwise_cons] at h
      simp only [dropRepeats]
      split
      · exact ih h.2
      · next hab =>
        refine List.pairwise_cons.2 ⟨fun x hx => ?_, ih h.2⟩
        have hlt : cmp a b = .lt := by
          have := h.1 b (by simp)
          cases hc : cmp a b with
          | lt => rfl
          | eq => exact absurd (Std.LawfulEqCmp.eq_of_compare hc) hab
          | gt => simp [hc] at this
        rcases List.mem_cons.1 (mem_dropRepeats.1 hx) with rfl | hx
        · exact hlt
        · exact Std.TransCmp.lt_of_lt_of_isLE hlt ((List.pairwise_cons.1 h.2).1 x hx)

/-- The elements of a list in order, each once. -/
def distinct {α : Type} [DecidableEq α] (cmp : α → α → Ordering) (as : List α) : List α :=
  dropRepeats (sort cmp as)

theorem mem_distinct {α : Type} [DecidableEq α] {cmp : α → α → Ordering} {as : List α} {a : α} :
    a ∈ distinct cmp as ↔ a ∈ as := by
  simp [distinct, mem_dropRepeats, mem_sort]

/-- `distinct` gives a strictly ascending list. -/
theorem pairwise_distinct {α : Type} [DecidableEq α] {cmp : α → α → Ordering} [Std.TransCmp cmp]
    [Std.LawfulEqCmp cmp] (as : List α) :
    (distinct cmp as).Pairwise fun a b => cmp a b = .lt :=
  pairwise_dropRepeats (pairwise_sort as)

/-- Strings in the order of their characters' code points. -/
def sortStrings (ss : List String) : List String :=
  sort compare ss

end AttributeRegistry.Ordered
