import AttributeRegistry.Diff.Edit

/-!
# What a script does

A script is read from two places on, one in the old and one in the new list. Each edit covers lines
from the places where the one before it ends (`Leads`), and the lines it keeps are the same in both
lists (`Sides.Same`).

An edit of one list only may say any place in the other one: edits that change places keep what they
said (`Fits`). Once neighbouring edits are merged there are replacements as well (`Covers`).
-/

namespace AttributeRegistry.Diff

variable {s : Sides} {i j i' j' m n : Nat}

/-! ## Equal lines -/

namespace Sides

/-- The next `n` lines are the same from two places on. -/
def Same (s : Sides) (i j n : Nat) : Prop :=
  ∀ k < n, s.old[i + k]? = s.new[j + k]?

@[simp] theorem same_zero : s.Same i j 0 :=
  fun _ hk => absurd hk (Nat.not_lt_zero _)

theorem same_add : s.Same i j (m + n) ↔ s.Same i j m ∧ s.Same (i + m) (j + m) n := by
  refine ⟨fun h => ⟨fun k hk => h k (by omega), fun k hk => ?_⟩, fun ⟨hfirst, hrest⟩ k hk => ?_⟩
  · simpa only [Nat.add_assoc] using h (m + k) (by omega)
  · by_cases hkm : k < m
    · exact hfirst k hkm
    · have heq := hrest (k - m) (by omega)
      rwa [show i + m + (k - m) = i + k by omega, show j + m + (k - m) = j + k by omega] at heq

theorem prefixLength_le (s : Sides) (i j limit : Nat) : s.prefixLength i j limit ≤ limit := by
  induction limit generalizing i j with
  | zero => exact Nat.le_refl _
  | succ limit ih =>
    rw [prefixLength]
    split
    · have := ih (i + 1) (j + 1)
      omega
    · exact Nat.zero_le _

theorem same_prefixLength (s : Sides) (i j limit : Nat) :
    s.Same i j (s.prefixLength i j limit) := by
  induction limit generalizing i j with
  | zero => exact same_zero
  | succ limit ih =>
    rw [prefixLength]
    split
    · next heq =>
      refine same_add.mpr ⟨fun k hk => ?_, ih _ _⟩
      obtain rfl : k = 0 := by omega
      exact heq
    · exact same_zero

theorem suffixLength_le (s : Sides) (i j limit : Nat) : s.suffixLength i j limit ≤ limit := by
  induction limit generalizing i j with
  | zero => exact Nat.le_refl _
  | succ limit ih =>
    rw [suffixLength]
    split
    · have := ih (i - 1) (j - 1)
      omega
    · exact Nat.zero_le _

theorem same_suffixLength (s : Sides) (i j limit : Nat) (hi : limit ≤ i) (hj : limit ≤ j) :
    s.Same (i - s.suffixLength i j limit) (j - s.suffixLength i j limit)
      (s.suffixLength i j limit) := by
  induction limit generalizing i j with
  | zero => exact same_zero
  | succ limit ih =>
    rw [suffixLength]
    split
    · next heq =>
      have hle := s.suffixLength_le (i - 1) (j - 1) limit
      have hrest := ih (i - 1) (j - 1) (by omega) (by omega)
      generalize s.suffixLength (i - 1) (j - 1) limit = n at hle hrest
      rw [Nat.add_comm 1 n]
      refine same_add.mpr ⟨?_, fun k hk => ?_⟩
      · rwa [show i - (n + 1) = i - 1 - n by omega, show j - (n + 1) = j - 1 - n by omega]
      · rwa [show i - (n + 1) + n + k = i - 1 by omega, show j - (n + 1) + n + k = j - 1 by omega]
    · exact same_zero

end Sides

/-! ## Edits at their places -/

theorem Edit.grow_kind (e : Edit) (n : Nat) : (e.grow n).kind = e.kind := by
  rw [grow]
  split <;> rfl

/-- What a simple edit does at two places. What it says of the list that has none of its lines does
not matter. -/
inductive Fits (s : Sides) : Edit → Nat → Nat → Prop
  | keep {i j n : Nat} (same : s.Same i j n) : Fits s (.keeping i j n) i j
  | remove (i n newStart : Nat) {j : Nat} : Fits s (.removing i n newStart) i j
  | insert (oldStart j n : Nat) {i : Nat} : Fits s (.inserting oldStart j n) i j

/-- What an edit of a merged script does at two places. -/
inductive Covers (s : Sides) : Edit → Nat → Nat → Prop
  | simple {e : Edit} {i j : Nat} (fits : Fits s e i j) : Covers s e i j
  | replace (i m j n : Nat) : Covers s ⟨.replace, i, m, j, n⟩ i j

/-! ## Scripts from places to places -/

/-- The edits of a script cover everything between two pairs of places, one behind the other. -/
def Leads (p : Edit → Nat → Nat → Prop) : List Edit → Nat → Nat → Nat → Nat → Prop
  | [], i, j, i', j' => i = i' ∧ j = j'
  | e :: es, i, j, i', j' => p e i j ∧ Leads p es (i + e.oldCount) (j + e.newCount) i' j'

variable {p : Edit → Nat → Nat → Prop} {es : List Edit}

theorem leads_cons {e : Edit} : Leads p (e :: es) i j i' j' ↔
    p e i j ∧ Leads p es (i + e.oldCount) (j + e.newCount) i' j' :=
  Iff.rfl

theorem leads_append {as bs : List Edit} : Leads p (as ++ bs) i j i' j' ↔
    ∃ a b, Leads p as i j a b ∧ Leads p bs a b i' j' := by
  induction as generalizing i j with
  | nil =>
    refine ⟨fun h => ⟨i, j, ⟨rfl, rfl⟩, h⟩, ?_⟩
    rintro ⟨a, b, ⟨rfl, rfl⟩, h⟩
    exact h
  | cons a as ih => simp only [List.cons_append, leads_cons, ih, and_assoc, exists_and_left]

theorem Leads.le (h : Leads p es i j i' j') : i ≤ i' ∧ j ≤ j' := by
  induction es generalizing i j with
  | nil => exact ⟨Nat.le_of_eq h.1, Nat.le_of_eq h.2⟩
  | cons e es ih =>
    have := ih h.2
    omega

end AttributeRegistry.Diff
