import AttributeRegistry.Diff.Unified
import AttributeRegistry.Proofs.Diff.Script

/-!
# Cutting a script into hunks

Between the hunks of a script there are equal lines only, and each hunk does what its part of the
script does (`Spaced`). A hunk begins with kept lines unless the texts begin there, and ends with kept
lines unless they end there (`Opens`, `Closes`). Kept lines stand where they say, so only the header of
a hunk that begins or ends with a change can be wrong.

Main statement: `spaced_hunks`.
-/

namespace AttributeRegistry.Diff

variable {s : Sides} {N M i j i' j' a b c d n : Nat} {e : Edit} {es h : List Edit}
  {hs : List (List Edit)}

namespace Sides

/-- There are as many lines between two places in both lists, and they are the same. -/
def Gap (s : Sides) (i j i' j' : Nat) : Prop :=
  ∃ n, i + n = i' ∧ j + n = j' ∧ s.Same i j n

theorem gap_refl : s.Gap i j i j :=
  ⟨0, rfl, rfl, same_zero⟩

theorem Gap.trans (h : s.Gap i j a b) (h' : s.Gap a b i' j') : s.Gap i j i' j' := by
  obtain ⟨n, rfl, rfl, hsame⟩ := h
  obtain ⟨m, rfl, rfl, hsame'⟩ := h'
  exact ⟨n + m, (Nat.add_assoc _ _ _).symm, (Nat.add_assoc _ _ _).symm, same_add.mpr ⟨hsame, hsame'⟩⟩

end Sides

/-- An edit that keeps lines stands where it says. -/
theorem Covers.exists_keeping (h : Covers s e i j) (hkeep : e.kind = .keep) :
    ∃ n, e = .keeping i j n ∧ s.Same i j n := by
  cases h with
  | replace => cases hkeep
  | simple h =>
    cases h with
    | keep same => exact ⟨_, rfl, same⟩
    | remove => cases hkeep
    | insert => cases hkeep

/-! ## Where hunks begin and end -/

/-- A hunk begins with kept lines, or where the texts begin. -/
def Opens (h : List Edit) (a b : Nat) : Prop :=
  (∃ n, 0 < n ∧ h.head? = some (.keeping a b n)) ∨ a = 0 ∧ b = 0

/-- A hunk ends with kept lines, or where the texts end. -/
def Closes (N M : Nat) (h : List Edit) (c d : Nat) : Prop :=
  (∃ i j n, 0 < n ∧ i + n = c ∧ j + n = d ∧ h.getLast? = some (.keeping i j n)) ∨ c = N ∧ d = M

/-- Hunks with equal lines between them lead from places to places. -/
inductive Spaced (s : Sides) (N M : Nat) : List (List Edit) → Nat → Nat → Nat → Nat → Prop
  | nil {i j i' j' : Nat} (gap : s.Gap i j i' j') : Spaced s N M [] i j i' j'
  | cons {h : List Edit} {hs : List (List Edit)} {i j a b c d i' j' : Nat} (gap : s.Gap i j a b)
      (ne : h ≠ []) (leads : Leads (Covers s) h a b c d) (opens : Opens h a b)
      (closes : Closes N M h c d) (rest : Spaced s N M hs c d i' j') :
      Spaced s N M (h :: hs) i j i' j'

theorem Spaced.widen (hgap : s.Gap i j a b) (h : Spaced s N M hs a b i' j') :
    Spaced s N M hs i j i' j' := by
  cases h with
  | nil gap => exact .nil (hgap.trans gap)
  | cons gap ne leads opens closes rest => exact .cons (hgap.trans gap) ne leads opens closes rest

theorem Spaced.widenEnd (hgap : s.Gap a b i' j') (h : Spaced s N M hs i j a b) :
    Spaced s N M hs i j i' j' := by
  induction h with
  | nil gap => exact .nil (gap.trans hgap)
  | cons gap ne leads opens closes _ ih => exact .cons gap ne leads opens closes (ih hgap)

/-! ## Cutting -/

/-- The lines that are left of a long unchanged run before a hunk and behind one. -/
theorem shrink_keeping (hn : context ≤ n) :
    (Edit.keeping i j n).shrink (n - context) = .keeping i j context := by
  simp only [Edit.shrink, Edit.keeping, Nat.sub_sub_self hn]

theorem shrink_down_keeping (hn : context ≤ n) :
    ((Edit.keeping i j n).down (n - context)).shrink (n - context) =
      .keeping (i + (n - context)) (j + (n - context)) context := by
  simp only [Edit.shrink, Edit.down, Edit.keeping, Nat.sub_sub_self hn]

theorem spaced_hunksFrom {group : List Edit} (hleads : Leads (Covers s) (group ++ es) a b c d)
    (hopens : Opens (group ++ es) a b) (hcloses : Closes N M (group ++ es) c d) :
    Spaced s N M (hunksFrom group es) a b c d := by
  induction es generalizing group a b with
  | nil =>
    rw [List.append_nil] at hleads hopens hcloses
    match group with
    | [] =>
      obtain ⟨rfl, rfl⟩ := hleads
      exact .nil Sides.gap_refl
    | [e] =>
      rw [hunksFrom.eq_def]
      dsimp only
      split
      · next hkeep =>
        obtain ⟨hcovers, rfl, rfl⟩ := hleads
        obtain ⟨n, rfl, hsame⟩ := hcovers.exists_keeping hkeep
        exact .nil ⟨n, rfl, rfl, hsame⟩
      · exact .cons Sides.gap_refl (by simp) hleads hopens hcloses (.nil Sides.gap_refl)
    | e :: e' :: es =>
      exact .cons Sides.gap_refl (by simp) hleads hopens hcloses (.nil Sides.gap_refl)
  | cons e es ih =>
    rw [hunksFrom]
    split
    · next hcut =>
      simp only [Bool.and_eq_true, decide_eq_true_eq] at hcut
      obtain ⟨hkeep, hlong⟩ := hcut
      obtain ⟨x, y, hgroup, hcovers, hes⟩ := leads_append.mp hleads
      obtain ⟨n, rfl, hsame⟩ := hcovers.exists_keeping hkeep
      change 2 * context < n at hlong
      change Spaced s N M ((group ++ [(Edit.keeping x y n).shrink (n - context)]) ::
        hunksFrom [((Edit.keeping x y n).down (n - context)).shrink (n - context)] es) a b c d
      rw [shrink_keeping (by omega), shrink_down_keeping (by omega)]
      obtain ⟨m, rfl⟩ : ∃ m, n = context + (m + context) := ⟨n - 2 * context, by omega⟩
      obtain ⟨hbefore, hrest⟩ := Sides.same_add.mp hsame
      obtain ⟨hgap, hbehind⟩ := Sides.same_add.mp hrest
      rw [show x + (context + (m + context) - context) = x + context + m by omega,
        show y + (context + (m + context) - context) = y + context + m by omega]
      change Leads (Covers s) es (x + (context + (m + context))) (y + (context + (m + context))) c d
        at hes
      rw [← Nat.add_assoc, ← Nat.add_assoc, ← Nat.add_assoc y, ← Nat.add_assoc] at hes
      refine .cons Sides.gap_refl (by simp)
        (leads_append.mpr ⟨x, y, hgroup, .simple (.keep hbefore), rfl, rfl⟩) ?_
        (.inl ⟨x, y, context, by decide, rfl, rfl, by simp⟩)
        (.widen ⟨m, rfl, rfl, hgap⟩ (ih ⟨.simple (.keep hbehind), hes⟩ ?_ ?_))
      · cases group with
        | nil =>
          obtain ⟨rfl, rfl⟩ := hgroup
          exact .inl ⟨context, by decide, rfl⟩
        | cons g group => simpa [Opens] using hopens
      · exact .inl ⟨context, by decide, rfl⟩
      · cases es with
        | nil =>
          obtain ⟨rfl, rfl⟩ := hes
          exact .inl ⟨_, _, context, by decide, rfl, rfl, rfl⟩
        | cons e es => simpa [Closes] using hcloses
    · refine ih ?_ ?_ ?_ <;> simpa using ‹_›

theorem trimHead_keeping : trimHead (.keeping 0 0 n :: es) =
    .keeping (n - context) (n - context) (n - (n - context)) :: es := by
  simp [trimHead, Edit.keeping, Edit.down, Edit.shrink]

theorem trimTail_keeping {before : List Edit} : trimTail (before ++ [.keeping i j n]) =
    before ++ [.keeping i j (n - (n - context))] := by
  simp [trimTail, Edit.keeping, Edit.shrink]

theorem trimHead_spec (h : Leads (Covers s) es 0 0 N M) : ∃ n, s.Gap 0 0 n n ∧
    Leads (Covers s) (trimHead es) n n N M ∧ Opens (trimHead es) n n := by
  have hwhole : ∃ n, s.Gap 0 0 n n ∧ Leads (Covers s) es n n N M ∧ Opens es n n :=
    ⟨0, Sides.gap_refl, h, .inr ⟨rfl, rfl⟩⟩
  cases es with
  | nil => exact hwhole
  | cons e es =>
    by_cases hkeep : e.kind = .keep
    · obtain ⟨hcovers, hes⟩ := h
      obtain ⟨n, rfl, hsame⟩ := hcovers.exists_keeping hkeep
      rw [trimHead_keeping]
      by_cases hn : context < n
      · rw [Nat.sub_sub_self (Nat.le_of_lt hn)]
        obtain ⟨m, rfl⟩ := Nat.exists_eq_add_of_le' (Nat.le_of_lt hn)
        rw [Nat.add_sub_cancel]
        obtain ⟨hgap, hkept⟩ := Sides.same_add.mp hsame
        rw [Nat.zero_add] at hkept
        change Leads (Covers s) es (0 + (m + context)) (0 + (m + context)) N M at hes
        rw [Nat.zero_add] at hes
        exact ⟨m, ⟨m, Nat.zero_add m, Nat.zero_add m, hgap⟩, ⟨.simple (.keep hkept), hes⟩,
          .inl ⟨context, by decide, rfl⟩⟩
      · rw [Nat.sub_eq_zero_of_le (Nat.le_of_not_lt hn)]
        exact hwhole
    · rw [trimHead, if_neg hkeep]
      exact hwhole

theorem trimTail_spec (h : Leads (Covers s) es a b N M) (hopens : Opens es a b) :
    ∃ c d, s.Gap c d N M ∧ Leads (Covers s) (trimTail es) a b c d ∧
      Opens (trimTail es) a b ∧ Closes N M (trimTail es) c d := by
  have hwhole : ∃ c d, s.Gap c d N M ∧ Leads (Covers s) es a b c d ∧ Opens es a b ∧
      Closes N M es c d :=
    ⟨N, M, Sides.gap_refl, h, hopens, .inr ⟨rfl, rfl⟩⟩
  rcases List.eq_nil_or_concat es with rfl | ⟨before, e, rfl⟩
  · exact hwhole
  · rw [List.concat_eq_append] at h hopens hwhole ⊢
    by_cases hkeep : e.kind = .keep
    · obtain ⟨x, y, hbefore, hcovers, rfl, rfl⟩ := leads_append.mp h
      obtain ⟨n, rfl, hsame⟩ := hcovers.exists_keeping hkeep
      rw [trimTail_keeping]
      by_cases hn : context < n
      · rw [Nat.sub_sub_self (Nat.le_of_lt hn)]
        obtain ⟨m, rfl⟩ := Nat.exists_eq_add_of_le (Nat.le_of_lt hn)
        obtain ⟨hkept, hgap⟩ := Sides.same_add.mp hsame
        refine ⟨x + context, y + context, ⟨m, Nat.add_assoc _ _ _, Nat.add_assoc _ _ _, hgap⟩,
          leads_append.mpr ⟨x, y, hbefore, .simple (.keep hkept), rfl, rfl⟩, ?_,
          .inl ⟨x, y, context, by decide, rfl, rfl, by simp⟩⟩
        cases before with
        | nil =>
          obtain ⟨rfl, rfl⟩ := hbefore
          exact .inl ⟨context, by decide, rfl⟩
        | cons e before => exact hopens
      · rw [Nat.sub_eq_zero_of_le (Nat.le_of_not_lt hn)]
        exact hwhole
    · have heq : trimTail (before ++ [e]) = before ++ [e] := by
        simp [trimTail, hkeep]
      rw [heq]
      exact hwhole

/-- **The hunks of a script do what it does, with equal lines between them.** -/
theorem spaced_hunks (h : Leads (Covers s) es 0 0 N M) : Spaced s N M (hunks es) 0 0 N M := by
  have hcut : Spaced s N M (hunksFrom [] (trimTail (trimHead es))) 0 0 N M := by
    obtain ⟨n, hgap, hleads, hopens⟩ := trimHead_spec h
    obtain ⟨c, d, hgap', hleads', hopens', hcloses⟩ := trimTail_spec hleads hopens
    exact .widen hgap (.widenEnd hgap' (spaced_hunksFrom hleads' hopens' hcloses))
  cases es with
  | nil => exact hcut
  | cons e es => exact hcut

end AttributeRegistry.Diff
