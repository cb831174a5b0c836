import AttributeRegistry.Proofs.Order.Canonical

/-!
# Sorting is stable

Elements that compare equal keep their order when a list is sorted (`filter_sort`). So a sorted list
is determined by how it lists the elements of each class of equal ones, and two lists that agree in
that are sorted alike (`sort_congr`).

If only equal elements compare equal, the order of a list does not show at all (`sort_eq_of_perm`).
-/

namespace AttributeRegistry.Ordered

variable {α : Type} {cmp : α → α → Ordering}

/-- The elements of a list that compare equal to `x`. -/
def ties (cmp : α → α → Ordering) (x : α) (as : List α) : List α :=
  as.filter fun a => (cmp x a).isEq

theorem mem_ties {x a : α} {as : List α} : a ∈ ties cmp x as ↔ a ∈ as ∧ cmp x a = .eq := by
  rw [ties, List.mem_filter, Ordering.isEq_iff_eq_eq]

theorem ties_append (x : α) (as bs : List α) :
    ties cmp x (as ++ bs) = ties cmp x as ++ ties cmp x bs :=
  List.filter_append _ _

theorem ties_cons_of_eq {x a : α} (h : cmp x a = .eq) (as : List α) :
    ties cmp x (a :: as) = a :: ties cmp x as := by
  rw [ties, List.filter_cons_of_pos (by rw [h]; rfl), ties]

theorem ties_flatMap {β : Type} (x : α) (f : β → List α) (bs : List β) :
    ties cmp x (bs.flatMap f) = bs.flatMap fun b => ties cmp x (f b) :=
  List.filter_flatMap

variable [Std.TransCmp cmp]

/-- The elements of one class are in order, whatever the order is. -/
theorem pairwise_ties (x : α) (as : List α) : (ties cmp x as).Pairwise fun a b => le cmp a b := by
  refine List.pairwise_of_forall_mem_list fun a ha b hb => ?_
  have hax : cmp a x = .eq := Std.OrientedCmp.eq_symm (mem_ties.mp ha).2
  have hab : cmp a b = .eq := Std.TransCmp.eq_trans hax (mem_ties.mp hb).2
  rw [le, hab]
  rfl

/-- **Sorting keeps the order of equal elements.** -/
theorem ties_sort (x : α) (as : List α) : ties cmp x (sort cmp as) = ties cmp x as := by
  have htotal : ∀ a b, le cmp a b || le cmp b a := by
    intro a b
    have hswap : cmp b a = (cmp a b).swap := Std.OrientedCmp.eq_swap
    rw [le, le, hswap]
    cases cmp a b <;> rfl
  have htrans : ∀ a b c, le cmp a b → le cmp b c → le cmp a c := fun _ _ _ =>
    Std.TransCmp.isLE_trans
  -- the class is an ascending part of the list, so it is a part of the sorted list
  have hsub : (ties cmp x as).Sublist (sort cmp as) :=
    List.sublist_mergeSort htrans htotal (pairwise_ties x as) List.filter_sublist
  have hself : ties cmp x (ties cmp x as) = ties cmp x as :=
    List.filter_eq_self.mpr fun a ha => (List.mem_filter.mp ha).2
  have hties : (ties cmp x as).Sublist (ties cmp x (sort cmp as)) := by
    rw [← hself]
    exact hsub.filter _
  have hlength : (ties cmp x (sort cmp as)).length ≤ (ties cmp x as).length :=
    ((perm_sort cmp as).filter _).length_eq.le
  exact (hties.eq_of_length_le hlength).symm

/-- Ascending lists that list every class alike are the same. -/
theorem eq_of_ties_eq {as bs : List α} (ha : as.Pairwise fun a b => (cmp a b).isLE)
    (hb : bs.Pairwise fun a b => (cmp a b).isLE) (h : ∀ x, ties cmp x as = ties cmp x bs) :
    as = bs := by
  have hself : ∀ a : α, cmp a a = .eq := fun _ => Std.ReflCmp.compare_self
  have hmem : ∀ {a : α} {cs ds : List α}, (∀ x, ties cmp x cs = ties cmp x ds) → a ∈ cs → a ∈ ds := by
    intro a cs ds h hmem
    have hties : a ∈ ties cmp a cs := mem_ties.mpr ⟨hmem, hself a⟩
    rw [h] at hties
    exact (mem_ties.mp hties).1
  induction as generalizing bs with
  | nil =>
    refine (List.eq_nil_iff_forall_not_mem.mpr fun b hmem' => ?_).symm
    exact absurd (hmem (fun x => (h x).symm) hmem') List.not_mem_nil
  | cons a as ih =>
    cases bs with
    | nil => exact absurd (hmem h List.mem_cons_self) List.not_mem_nil
    | cons b bs =>
      have hle : (cmp a b).isLE := by
        rcases List.mem_cons.mp (hmem (fun x => (h x).symm) (List.mem_cons_self (a := b))) with rfl | hmem
        · rw [hself]
          rfl
        · exact (List.pairwise_cons.mp ha).1 b hmem
      have hge : (cmp b a).isLE := by
        rcases List.mem_cons.mp (hmem h (List.mem_cons_self (a := a))) with rfl | hmem
        · rw [hself]
          rfl
        · exact (List.pairwise_cons.mp hb).1 a hmem
      have heq : cmp a b = .eq := Std.OrientedCmp.isLE_antisymm hle hge
      -- both heads are the first of their class
      have hhead := h a
      rw [ties_cons_of_eq (hself a), ties_cons_of_eq heq, List.cons.injEq] at hhead
      obtain ⟨rfl, -⟩ := hhead
      rw [List.cons.injEq]
      refine ⟨rfl, ih (List.pairwise_cons.mp ha).2 (List.pairwise_cons.mp hb).2 fun x => ?_⟩
      have hx := h x
      unfold ties at hx
      rw [List.filter_cons, List.filter_cons] at hx
      split at hx
      · exact (List.cons.inj hx).2
      · exact hx

/-- **Lists that list the elements of every class alike are sorted alike.** -/
theorem sort_congr {as bs : List α} (h : ∀ x, ties cmp x as = ties cmp x bs) :
    sort cmp as = sort cmp bs :=
  eq_of_ties_eq (pairwise_sort as) (pairwise_sort bs) fun x => by
    rw [ties_sort, ties_sort, h]

/-- Leaving elements out and sorting may be done in either order. -/
theorem filter_sort (p : α → Bool) (as : List α) : (sort cmp as).filter p = sort cmp (as.filter p) := by
  have hties : ∀ (x : α) (bs : List α), ties cmp x (bs.filter p) = (ties cmp x bs).filter p := by
    intro x bs
    unfold ties
    rw [List.filter_filter, List.filter_filter]
    simp only [Bool.and_comm]
  refine eq_of_ties_eq ((pairwise_sort as).filter p) (pairwise_sort _) fun x => ?_
  rw [hties, ties_sort, ties_sort, hties]

/-- If only equal elements compare equal, sorting forgets the order of a list. -/
theorem sort_eq_of_perm [Std.LawfulEqCmp cmp] {as bs : List α} (h : as.Perm bs) :
    sort cmp as = sort cmp bs := by
  have hperm : (sort cmp as).Perm (sort cmp bs) :=
    (perm_sort cmp as).trans (h.trans (perm_sort cmp bs).symm)
  refine hperm.eq_of_pairwise (fun a b _ _ hab hba => ?_) (pairwise_sort as) (pairwise_sort bs)
  exact Std.LawfulEqCmp.eq_of_compare (Std.OrientedCmp.isLE_antisymm hab hba)

end AttributeRegistry.Ordered
