import AttributeRegistry.Proofs.Storage.Found

/-!
# Paths in order

Components are ordered, and so are paths by their components: paths compare equal iff they have the
same components (`compare_eq_eq_iff`). What is left of paths in order when those are dropped that lead
the same way as the one before them is strictly ascending (`pairwise_dropSame`), so the same paths are
listed alike, up to their spelling (`map_components_eq`).
-/

namespace AttributeRegistry

open Ordered

namespace Path

instance : Std.TransCmp Component.compare :=
  -- the instances for `fun a b => cmp (f a) (f b)` are not found by unification
  have hrank := transCmp_comap Ord.compare Component.rank
  have hname := transCmp_comap Ord.compare Component.nameText
  @transCmp_then _ _ _ hrank hname

/-- Components of one kind with one name are the same. -/
theorem Component.eq_of_rank_nameText {a b : Component} (hrank : a.rank = b.rank)
    (hname : a.nameText = b.nameText) : a = b := by
  cases a <;> cases b <;> simp_all [rank, nameText]

instance : Std.LawfulEqCmp Component.compare where
  eq_of_compare h := by
    obtain ⟨hrank, hname⟩ := Ordering.then_eq_eq.mp h
    exact Component.eq_of_rank_nameText (Std.LawfulEqCmp.eq_of_compare hrank)
      (Std.LawfulEqCmp.eq_of_compare hname)

instance : Std.TransCmp compare :=
  transCmp_comap (List.compareLex Component.compare) components

theorem compare_eq_eq_iff {p q : String} : compare p q = .eq ↔ same p q = true := by
  have hlex : Std.LawfulEqCmp (List.compareLex Component.compare) := inferInstance
  exact hlex.compare_eq_iff_eq.trans same_iff.symm

end Path

namespace FileTree

/-- **Of paths in order, each is kept once.** -/
theorem pairwise_dropSame {paths : List String}
    (h : paths.Pairwise fun p q => (Path.compare p q).isLE) :
    (dropSame paths).Pairwise fun p q => Path.compare p q = .lt := by
  induction paths using dropSame.induct with
  | case1 =>
    rw [dropSame]
    exact .nil
  | case2 p =>
    rw [dropSame]
    exact List.pairwise_singleton _ _
  | case3 p next rest hsame ih =>
    rw [dropSame, if_pos hsame]
    exact ih (h.sublist (.cons_cons p (List.sublist_cons_self next rest)))
  | case4 p next rest hsame ih =>
    rw [dropSame, if_neg hsame]
    obtain ⟨hp, hrest⟩ := List.pairwise_cons.mp h
    refine List.pairwise_cons.mpr ⟨fun q hq => ?_, ih hrest⟩
    have hnext : Path.compare p next = .lt := by
      have hle := hp next List.mem_cons_self
      rw [← Path.compare_eq_eq_iff] at hsame
      cases hcmp : Path.compare p next with
      | lt => rfl
      | eq => exact absurd hcmp hsame
      | gt => simp [hcmp] at hle
    rcases List.mem_cons.mp (mem_of_mem_dropSame hq) with rfl | hq
    · exact hnext
    · exact Std.TransCmp.lt_of_lt_of_isLE hnext ((List.pairwise_cons.mp hrest).1 q hq)

/-- The same paths are among two lists, spelled in one way or another. -/
def SamePaths (ps qs : List String) : Prop :=
  (∀ p ∈ ps, ∃ q ∈ qs, Path.same p q = true) ∧ ∀ q ∈ qs, ∃ p ∈ ps, Path.same p q = true

/-- **The same paths are listed alike, up to their spelling, if they are ascending.** -/
theorem map_components_eq {ps qs : List String}
    (hps : ps.Pairwise fun p q => Path.compare p q = .lt)
    (hqs : qs.Pairwise fun p q => Path.compare p q = .lt)
    (h : SamePaths ps qs) :
    ps.map Path.components = qs.map Path.components := by
  have hmap : ∀ paths : List String, (paths.Pairwise fun p q => Path.compare p q = .lt) →
      (paths.map Path.components).Pairwise fun a b =>
        List.compareLex Path.Component.compare a b = .lt := by
    intro paths h
    rw [List.pairwise_map]
    exact h
  refine eq_of_pairwise_lt (hmap ps hps) (hmap qs hqs) fun cs => ?_
  simp only [List.mem_map]
  constructor
  · rintro ⟨p, hp, rfl⟩
    obtain ⟨q, hq, hsame⟩ := h.1 p hp
    exact ⟨q, hq, (Path.same_iff.mp hsame).symm⟩
  · rintro ⟨q, hq, rfl⟩
    obtain ⟨p, hp, hsame⟩ := h.2 q hq
    exact ⟨p, hp, Path.same_iff.mp hsame⟩

end FileTree

end AttributeRegistry
