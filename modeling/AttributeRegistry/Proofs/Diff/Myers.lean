import AttributeRegistry.Diff.Myers
import AttributeRegistry.Proofs.Diff.Script

/-!
# Myers' search

The search for the middle of a box notes how far the paths with `d` edits get on each diagonal. They
may leave the box: a path at its right border is still led to the right, and one at its lower border
down. But a path can only be beyond a border if the next diagonal has come to that border as well
(`Row`). While the paths from both ends have not met, those near the diagonal of the last corner are
inside the box (`Clear`). So where they do meet, a path enters its diagonal inside the box
(`Row.enter_le`), and the place that is found splits the box (`Search.has_of_middle`).

Main statement: the script of a box leads from its first corner to the last one (`leads_scriptOf`),
however deep the box is split.
-/

namespace AttributeRegistry.Diff

/-! ## Reading and writing reaches -/

namespace Furthest

/-- There is a place for every diagonal up to one more than `limit` on both sides. -/
structure Sized (limit : Nat) (f : Furthest) : Prop where
  offset : f.offset = limit + 1
  size : f.reach.size = 2 * limit + 3

variable {limit d : Nat} {f g : Furthest} {k l : Int}

theorem sized_start (limit : Nat) : (start limit).Sized limit :=
  ⟨rfl, Array.size_replicate⟩

theorem get_start (limit : Nat) (k : Int) : (start limit).get k = 0 := by
  simp only [get, start, Array.getD_eq_getD_getElem?, Array.getElem?_replicate]
  split <;> rfl

theorem Sized.set (h : f.Sized limit) (k : Int) (x : Nat) : (f.set k x).Sized limit :=
  ⟨h.offset, Array.size_setIfInBounds.trans h.size⟩

theorem Sized.get_set_self (h : f.Sized limit) (hk : k.natAbs ≤ limit + 1) (x : Nat) :
    (f.set k x).get k = x := by
  have hlt : (k + f.offset).toNat < f.reach.size := by
    rw [h.offset, h.size]
    omega
  simp [get, Furthest.set, Array.getD_eq_getD_getElem?, hlt]

theorem Sized.get_set_of_ne (h : f.Sized limit) (hk : k.natAbs ≤ limit + 1)
    (hl : l.natAbs ≤ limit + 1) (hne : k ≠ l) (x : Nat) : (f.set k x).get l = f.get l := by
  have hindex : (k + f.offset).toNat ≠ (l + f.offset).toNat := by
    rw [h.offset]
    omega
  simp [get, Furthest.set, Array.getD_eq_getD_getElem?, Array.getElem?_setIfInBounds_ne hindex]

/-- The diagonals the paths with `d` edits come to. -/
def OnRow (d : Nat) (k : Int) : Prop :=
  k.natAbs ≤ d ∧ (k - d) % 2 = 0

/-- A path enters a diagonal from its neighbours; nothing else matters. -/
theorem enter_congr (h : ∀ l : Int, l.natAbs ≤ d + 1 → (l - d) % 2 ≠ 0 → f.get l = g.get l)
    (hk : OnRow d k) : f.enter d k = g.enter d k := by
  obtain ⟨hle, hparity⟩ := hk
  rw [enter, enter, h (k - 1) (by omega) (by omega), h (k + 1) (by omega) (by omega)]

end Furthest

open Furthest

/-! ## One row of paths -/

/-- One round of paths in a direction. `run` says how many equal lines follow a place, and `meets`
whether a reach on a diagonal is one where the paths from the other end are. Gives the place where
the path enters the diagonal, and the lines that follow. -/
def sweep (run : Nat → Int → Nat) (meets : Int → Nat → Bool) (d : Nat) :
    Nat → Int → Furthest → Furthest × Option (Nat × Int × Nat)
  | 0, _, f => (f, none)
  | steps + 1, k, f =>
    let x := f.enter d k
    let n := run x (x - k)
    if meets k (x + n) then (f.set k (x + n), some (x, x - k, n))
    else sweep run meets d steps (k - 2) (f.set k (x + n))

section Sweep

variable {run : Nat → Int → Nat} {meets : Int → Nat → Bool} {limit d : Nat} {f : Furthest}

/-- How far the path with `d` edits gets on a diagonal. -/
def reached (run : Nat → Int → Nat) (f : Furthest) (d : Nat) (k : Int) : Nat :=
  f.enter d k + run (f.enter d k) (f.enter d k - k)

/-- A path of the row meets one from the other end. -/
structure Meeting (run : Nat → Int → Nat) (meets : Int → Nat → Bool) (f : Furthest) (d : Nat)
    (k : Int) : Prop where
  onRow : OnRow d k
  meets : meets k (reached run f d k) = true

/-- What a whole row leaves behind when no path has met another. -/
structure Swept (run : Nat → Int → Nat) (meets : Int → Nat → Bool) (limit d : Nat)
    (f g : Furthest) : Prop where
  sized : g.Sized limit
  get : ∀ k, OnRow d k → g.get k = reached run f d k
  apart : ∀ k, OnRow d k → meets k (g.get k) = false

/-- A whole round of paths. The diagonals above `k` are done, and the reaches of the other parity, from
which the paths enter, are those of the last round. -/
theorem sweep_spec (run : Nat → Int → Nat) (meets : Int → Nat → Bool) (f : Furthest)
    (hd : d ≤ limit) : ∀ steps ≤ d + 1, ∀ g : Furthest, g.Sized limit →
    (∀ l : Int, l.natAbs ≤ d + 1 → (l - d) % 2 ≠ 0 → g.get l = f.get l) →
    (∀ k, OnRow d k → 2 * steps - d ≤ k →
      g.get k = reached run f d k ∧ meets k (g.get k) = false) →
    match sweep run meets d steps (2 * steps - d - 2) g with
    | (h, none) => Swept run meets limit d f h
    | (_, some (x, y, n)) => ∃ k, Meeting run meets f d k ∧
        x = f.enter d k ∧ y = x - k ∧ n = run x y := by
  intro steps
  induction steps with
  | zero =>
    intro _ g hg _ hdone
    refine ⟨hg, fun k hk => (hdone k hk ?_).1, fun k hk => (hdone k hk ?_).2⟩ <;>
      · have := hk.1
        omega
  | succ steps ih =>
    intro hsteps g hg hother hdone
    have hk : OnRow d (2 * (steps + 1 : Nat) - d - 2) := ⟨by omega, by omega⟩
    generalize hkdef : (2 * (steps + 1 : Nat) - d - 2 : Int) = k at hk
    have henter : g.enter d k = f.enter d k := enter_congr hother hk
    have hlimit : k.natAbs ≤ limit + 1 := by
      have := hk.1
      omega
    have hreached : f.enter d k + run (f.enter d k) (f.enter d k - k) = reached run f d k := rfl
    rw [sweep, henter, hreached]
    by_cases hmeets : meets k (reached run f d k) = true
    · rw [if_pos hmeets]
      exact ⟨k, ⟨hk, hmeets⟩, rfl, rfl, rfl⟩
    · rw [if_neg hmeets, show k - 2 = 2 * (steps : Nat) - d - 2 by omega]
      refine ih (by omega) _ (hg.set _ _) (fun l hl hparity => ?_) (fun l hl hle => ?_)
      · have hne : k ≠ l := by
          rintro rfl
          exact hparity hk.2
        rw [hg.get_set_of_ne hlimit (by omega) hne, hother l hl hparity]
      · by_cases heq : k = l
        · subst heq
          rw [hg.get_set_self hlimit]
          exact ⟨rfl, by simpa using hmeets⟩
        · have hle' : l.natAbs ≤ limit + 1 := by
            have := hl.1
            omega
          rw [hg.get_set_of_ne hlimit hle' heq]
          have := hl.2
          have := hk.2
          exact hdone l hl (by omega)

end Sweep

/-! ## Paths and borders -/

section Rows

variable {N M d : Nat} {k t : Int} {run : Nat → Int → Nat} {f g : Furthest}

theorem enter_cases (f : Furthest) (hk : OnRow (d + 1) k) :
    (OnRow d (k - 1) ∧ f.enter (d + 1) k = f.get (k - 1) + 1 ∧
      (OnRow d (k + 1) → f.get (k + 1) ≤ f.get (k - 1))) ∨
    (OnRow d (k + 1) ∧ f.enter (d + 1) k = f.get (k + 1) ∧
      (OnRow d (k - 1) → f.get (k - 1) < f.get (k + 1))) := by
  obtain ⟨hle, hparity⟩ := hk
  rw [enter]
  split
  · next h =>
    simp only [Bool.or_eq_true, Bool.and_eq_true, decide_eq_true_eq] at h
    exact .inr ⟨⟨by omega, by omega⟩, rfl, fun hrow => by have := hrow.1; omega⟩
  · next h =>
    simp only [Bool.or_eq_true, Bool.and_eq_true, decide_eq_true_eq] at h
    exact .inl ⟨⟨by omega, by omega⟩, rfl, fun hrow => by have := hrow.1; omega⟩

/-- A path gets at least as far as its neighbours lead. -/
theorem le_enter (hk : OnRow (d + 1) k) :
    (OnRow d (k - 1) → f.get (k - 1) + 1 ≤ f.enter (d + 1) k) ∧
      (OnRow d (k + 1) → f.get (k + 1) ≤ f.enter (d + 1) k) := by
  rcases enter_cases f hk with ⟨_, heq, h⟩ | ⟨_, heq, h⟩ <;> rw [heq]
  · exact ⟨fun _ => Nat.le_refl _, fun hrow => Nat.le_succ_of_le (h hrow)⟩
  · exact ⟨h, fun _ => Nat.le_refl _⟩

/-- The lines that follow a place are inside a box with `N` old and `M` new lines. -/
def Inside (N M : Nat) (run : Nat → Int → Nat) : Prop :=
  ∀ x y, 0 < run x y → x + run x y ≤ N ∧ y + run x y ≤ M

/-- The reaches of a row. Beyond a border there is only a path whose neighbour has come to it. -/
structure Row (N M d : Nat) (f : Furthest) : Prop where
  low : ∀ k, OnRow d k → k ≤ f.get k
  right : ∀ k, OnRow d k → N < f.get k → OnRow d (k - 2) ∧ N ≤ f.get (k - 2)
  down : ∀ k, OnRow d k → M < f.get k - k → OnRow d (k + 2) ∧ M ≤ f.get (k + 2) - (k + 2)

theorem Row.first (hf : ∀ k, f.get k = 0) (hrun : Inside N M run)
    (hg : ∀ k, OnRow 0 k → g.get k = reached run f 0 k) : Row N M 0 g := by
  have hzero : ∀ k, OnRow 0 k → k = 0 ∧ g.get k ≤ N ∧ g.get k ≤ M := by
    intro k hk
    obtain rfl : k = 0 := by have := hk.1; omega
    have henter : f.enter 0 0 = 0 := by simp [enter, hf]
    have hinside := hrun 0 0
    rw [hg 0 hk, reached, henter, show ((0 : Nat) : Int) - 0 = 0 from rfl]
    omega
  refine ⟨fun k hk => ?_, fun k hk hlt => ?_, fun k hk hlt => ?_⟩ <;> have := hzero k hk <;> omega

theorem Row.next (h : Row N M d f) (hrun : Inside N M run)
    (hg : ∀ k, OnRow (d + 1) k → g.get k = reached run f (d + 1) k) : Row N M (d + 1) g := by
  have hle : ∀ k, OnRow (d + 1) k → f.enter (d + 1) k ≤ g.get k := by
    intro k hk
    rw [hg k hk]
    exact Nat.le_add_right _ _
  have hbeyond : ∀ k, OnRow (d + 1) k → N < g.get k ∨ M < g.get k - k →
      g.get k = f.enter (d + 1) k := by
    intro k hk hlt
    have hinside := hrun (f.enter (d + 1) k) (f.enter (d + 1) k - k)
    have heq := hg k hk
    rw [reached] at heq
    omega
  refine ⟨fun k hk => ?_, fun k hk hlt => ?_, fun k hk hlt => ?_⟩
  · have := hle k hk
    rcases enter_cases f hk with ⟨hrow, heq, _⟩ | ⟨hrow, heq, _⟩ <;> have := h.low _ hrow <;> omega
  · have heq := hbeyond k hk (.inl hlt)
    -- The neighbour to the left has come to the border already.
    obtain ⟨hrow, hborder⟩ : OnRow d (k - 1) ∧ N ≤ f.get (k - 1) := by
      rcases enter_cases f hk with ⟨hrow, hx, _⟩ | ⟨hrow, hx, _⟩
      · exact ⟨hrow, by omega⟩
      · have := h.right _ hrow (by omega)
        rwa [show k + 1 - 2 = k - 1 by omega] at this
    have hrow' : OnRow (d + 1) (k - 2) := by
      obtain ⟨h1, h2⟩ := hrow
      exact ⟨by omega, by omega⟩
    have hx := (le_enter (f := f) hrow').2
    rw [show k - 2 + 1 = k - 1 by omega] at hx
    exact ⟨hrow', Nat.le_trans hborder (Nat.le_trans (hx hrow) (hle _ hrow'))⟩
  · have heq := hbeyond k hk (.inr hlt)
    obtain ⟨hrow, hborder⟩ : OnRow d (k + 1) ∧ M ≤ f.get (k + 1) - (k + 1) := by
      rcases enter_cases f hk with ⟨hrow, hx, _⟩ | ⟨hrow, hx, _⟩
      · have := h.down _ hrow (by omega)
        rwa [show k - 1 + 2 = k + 1 by omega] at this
      · exact ⟨hrow, by omega⟩
    have hrow' : OnRow (d + 1) (k + 2) := by
      obtain ⟨h1, h2⟩ := hrow
      exact ⟨by omega, by omega⟩
    have hx := (le_enter (f := f) hrow').1
    rw [show k + 2 - 1 = k + 1 by omega] at hx
    have := hx hrow
    have := hle _ hrow'
    exact ⟨hrow', by omega⟩

/-- The paths of a row within `t` of the diagonal of the last corner are inside the box. -/
def Clear (N M d : Nat) (t : Int) (f : Furthest) : Prop :=
  ∀ k, OnRow d k → ((k - (N - M)).natAbs : Int) ≤ t → f.get k < N ∧ f.get k - k < M

/-- **A path that may meet another enters its diagonal inside the box.** -/
theorem Row.enter_le (h : Row N M d f) (hclear : Clear N M d t f) (ht : t = d ∨ t = d - 1)
    (hk : OnRow (d + 1) k) (hnear : ((k - (N - M)).natAbs : Int) ≤ t + 1)
    (hparity : (k - (N - M) - (t + 1)) % 2 = 0) :
    f.enter (d + 1) k ≤ N ∧ f.enter (d + 1) k - k ≤ M := by
  -- Not both neighbours can have come to the border: one of them is near the last corner.
  have hright : ¬ (OnRow d (k - 1) ∧ N ≤ f.get (k - 1)) := by
    rintro ⟨hrow, hborder⟩
    have hclear₁ := hclear _ hrow
    have hdown := h.down _ hrow (by omega)
    rw [show k - 1 + 2 = k + 1 by omega] at hdown
    have hclear₂ := hclear _ hdown.1
    have h₁ := hrow.1
    have h₂ := hdown.1.1
    omega
  have hdown : ¬ (OnRow d (k + 1) ∧ M ≤ f.get (k + 1) - (k + 1)) := by
    rintro ⟨hrow, hborder⟩
    have hclear₁ := hclear _ hrow
    have hright := h.right _ hrow (by omega)
    rw [show k + 1 - 2 = k - 1 by omega] at hright
    have hclear₂ := hclear _ hright.1
    have h₁ := hrow.1
    have h₂ := hright.1.1
    omega
  refine ⟨Nat.le_of_not_lt fun hlt => hright ?_, Int.not_lt.mp fun hlt => hdown ?_⟩
  · rcases enter_cases f hk with ⟨hrow, hx, _⟩ | ⟨hrow, hx, _⟩
    · exact ⟨hrow, by omega⟩
    · have := h.right _ hrow (by omega)
      rwa [show k + 1 - 2 = k - 1 by omega] at this
  · rcases enter_cases f hk with ⟨hrow, hx, _⟩ | ⟨hrow, hx, _⟩
    · have := h.down _ hrow (by omega)
      rwa [show k - 1 + 2 = k + 1 by omega] at this
    · exact ⟨hrow, by omega⟩

/-- The paths from one end before round `d`: none, then the row of the last round. -/
def Before (N M : Nat) (f : Furthest) : Nat → Prop
  | 0 => ∀ k, f.get k = 0
  | d + 1 => Row N M d f

theorem Before.row (h : Before N M f d) (hrun : Inside N M run)
    (hg : ∀ k, OnRow d k → g.get k = reached run f d k) : Row N M d g := by
  cases d with
  | zero => exact Row.first h hrun hg
  | succ d => exact Row.next h hrun hg

end Rows

/-! ## Rounds -/

/-- A place splits a box: what is before it and what is behind it are boxes too. -/
structure Box.Has (b : Box) (x y : Nat) : Prop where
  oldStart : b.oldStart ≤ x
  oldEnd : x ≤ b.oldEnd
  newStart : b.newStart ≤ y
  newEnd : y ≤ b.newEnd

section Corners

variable {b : Box} {x : Nat} {y : Int}

/-- Places inside a box, counted from its first corner. -/
theorem Box.Has.of_first (hbox : b.Has b.oldStart b.newStart) (hx : x ≤ b.oldCount)
    (hy : y ≤ b.newCount) : b.Has (b.oldStart + x) (b.newStart + y.toNat) := by
  have := hbox.oldEnd
  have := hbox.newEnd
  unfold Box.oldCount at hx
  unfold Box.newCount at hy
  constructor <;> omega

/-- Places inside a box, counted back from its last corner. -/
theorem Box.Has.of_last (hbox : b.Has b.oldStart b.newStart) (hx : x ≤ b.oldCount)
    (hy : y ≤ b.newCount) : b.Has (b.oldEnd - x) (b.newEnd - y.toNat) := by
  have := hbox.oldEnd
  have := hbox.newEnd
  unfold Box.oldCount at hx
  unfold Box.newCount at hy
  constructor <;> omega

end Corners

namespace Search

/-- The equal lines that follow a place. -/
def runAhead (s : Search) (x : Nat) (y : Int) : Nat :=
  if x < s.box.oldCount && 0 ≤ y && y < s.box.newCount then
    s.sides.prefixLength (s.box.oldStart + x) (s.box.newStart + y.toNat)
      (min (s.box.oldCount - x) (s.box.newCount - y.toNat))
  else 0

/-- The equal lines before a place, which is counted from the last corner. -/
def runBack (s : Search) (x : Nat) (y : Int) : Nat :=
  if x < s.box.oldCount && 0 ≤ y && y < s.box.newCount then
    s.sides.suffixLength (s.box.oldEnd - x) (s.box.newEnd - y.toNat)
      (min (s.box.oldCount - x) (s.box.newCount - y.toNat))
  else 0

/-- Whether a path from the beginning meets one from the end. -/
def meetsBack (s : Search) (d : Nat) (odd : Bool) (back : Furthest) (k : Int) (reach : Nat) : Bool :=
  odd && (k - s.delta).natAbs + 1 ≤ d && s.box.oldCount ≤ reach + back.get (-(k - s.delta))

/-- Whether a path from the end meets one from the beginning. -/
def meetsAhead (s : Search) (d : Nat) (odd : Bool) (ahead : Furthest) (k : Int) (reach : Nat) :
    Bool :=
  !odd && (k - s.delta).natAbs ≤ d && s.box.oldCount ≤ reach + ahead.get (-(k - s.delta))

variable {s : Search} {d : Nat} {odd : Bool}

theorem forward_eq (back : Furthest) (steps : Nat) (k : Int) (f : Furthest) :
    s.forward d odd back steps k f = (sweep s.runAhead (s.meetsBack d odd back) d steps k f).map id
      (Option.map fun p => (s.box.oldStart + p.1, s.box.newStart + p.2.1.toNat)) := by
  induction steps generalizing k f with
  | zero => rfl
  | succ steps ih =>
    rw [forward, sweep]
    by_cases h : s.meetsBack d odd back k
        (f.enter d k + s.runAhead (f.enter d k) (f.enter d k - k)) = true
    · rw [if_pos h]
      exact if_pos h
    · rw [if_neg h]
      exact (if_neg h).trans (ih _ _)

theorem backward_eq (ahead : Furthest) (steps : Nat) (k : Int) (f : Furthest) :
    s.backward d odd ahead steps k f = (sweep s.runBack (s.meetsAhead d odd ahead) d steps k f).map id
      (Option.map fun p =>
        (s.box.oldEnd - (p.1 + p.2.2), s.box.newEnd - (p.2.1 + p.2.2).toNat)) := by
  induction steps generalizing k f with
  | zero => rfl
  | succ steps ih =>
    rw [backward, sweep]
    by_cases h : s.meetsAhead d odd ahead k
        (f.enter d k + s.runBack (f.enter d k) (f.enter d k - k)) = true
    · rw [if_pos h]
      exact if_pos h
    · rw [if_neg h]
      exact (if_neg h).trans (ih _ _)

theorem inside_runAhead (s : Search) : Inside s.box.oldCount s.box.newCount s.runAhead := by
  intro x y
  rw [runAhead]
  split
  · next h =>
    simp only [Bool.and_eq_true, decide_eq_true_eq] at h
    have := s.sides.prefixLength_le (s.box.oldStart + x) (s.box.newStart + y.toNat)
      (min (s.box.oldCount - x) (s.box.newCount - y.toNat))
    omega
  · exact fun h => absurd h (Nat.lt_irrefl 0)

theorem inside_runBack (s : Search) : Inside s.box.oldCount s.box.newCount s.runBack := by
  intro x y
  rw [runBack]
  split
  · next h =>
    simp only [Bool.and_eq_true, decide_eq_true_eq] at h
    have := s.sides.suffixLength_le (s.box.oldEnd - x) (s.box.newEnd - y.toNat)
      (min (s.box.oldCount - x) (s.box.newCount - y.toNat))
    omega
  · exact fun h => absurd h (Nat.lt_irrefl 0)

/-- What is known of the paths before round `d`. -/
structure Rounds (s : Search) (limit d : Nat) (ahead back : Furthest) : Prop where
  sizedAhead : ahead.Sized limit
  sizedBack : back.Sized limit
  aheadRow : Before s.box.oldCount s.box.newCount ahead d
  backRow : Before s.box.oldCount s.box.newCount back d
  clearAhead : ∀ e, d = e + 1 → s.delta % 2 ≠ 0 →
    Clear s.box.oldCount s.box.newCount e (e - 1) ahead
  clearBack : ∀ e, d = e + 1 → s.delta % 2 = 0 → Clear s.box.oldCount s.box.newCount e e back

variable {limit : Nat} {ahead back f : Furthest}

theorem forward_spec (hbox : s.box.Has s.box.oldStart s.box.newStart) (hd : d ≤ limit)
    (h : s.Rounds limit d ahead back) :
    match s.forward d (s.delta % 2 ≠ 0) back (d + 1) d ahead with
    | (f, none) => f.Sized limit ∧ Row s.box.oldCount s.box.newCount d f ∧
        (s.delta % 2 ≠ 0 → Clear s.box.oldCount s.box.newCount d (d - 1) f)
    | (_, some (x, y)) => s.box.Has x y := by
  have hdelta : s.delta = (s.box.oldCount : Int) - s.box.newCount := rfl
  have hsweep := sweep_spec s.runAhead (s.meetsBack d (s.delta % 2 ≠ 0) back) ahead hd (d + 1)
    (Nat.le_refl _) ahead h.sizedAhead (fun _ _ _ => rfl)
    (fun k hk hle => absurd hk.1 (by omega))
  rw [show (2 * (d + 1 : Nat) - d - 2 : Int) = d by omega] at hsweep
  rw [forward_eq]
  split at hsweep
  · next g heq =>
    rw [heq]
    simp only [Prod.map_apply, id_eq, Option.map_none]
    refine ⟨hsweep.sized, h.aheadRow.row s.inside_runAhead hsweep.get, fun hodd k hk hnear => ?_⟩
    have hapart := hsweep.apart k hk
    simp only [meetsBack, Bool.and_eq_false_imp, Bool.and_eq_true, decide_eq_true_eq,
      decide_eq_false_iff_not] at hapart
    have hfar := hapart ⟨hodd, by omega⟩
    obtain ⟨hle, hparity⟩ := hk
    cases d with
    | zero => omega
    | succ d =>
      have hlow := Row.low h.backRow (-(k - s.delta)) ⟨by omega, by omega⟩
      omega
  · next g x y n heq =>
    obtain ⟨k, ⟨hk, hmeets⟩, rfl, rfl, -⟩ := hsweep
    simp only [meetsBack, Bool.and_eq_true, decide_eq_true_eq] at hmeets
    obtain ⟨⟨hodd, hnear⟩, -⟩ := hmeets
    rw [heq]
    cases d with
    | zero => omega
    | succ d =>
      have hparity := hk.2
      obtain ⟨hx, hy⟩ :=
        Row.enter_le h.aheadRow (h.clearAhead d rfl hodd) (.inr rfl) hk (by omega) (by omega)
      exact hbox.of_first hx hy

theorem backward_spec (hbox : s.box.Has s.box.oldStart s.box.newStart) (hd : d ≤ limit)
    (h : s.Rounds limit d ahead back) (hrow : Row s.box.oldCount s.box.newCount d f) :
    match s.backward d (s.delta % 2 ≠ 0) f (d + 1) d back with
    | (g, none) => g.Sized limit ∧ Row s.box.oldCount s.box.newCount d g ∧
        (s.delta % 2 = 0 → Clear s.box.oldCount s.box.newCount d d g)
    | (_, some (x, y)) => s.box.Has x y := by
  have hdelta : s.delta = (s.box.oldCount : Int) - s.box.newCount := rfl
  have hsweep := sweep_spec s.runBack (s.meetsAhead d (s.delta % 2 ≠ 0) f) back hd (d + 1)
    (Nat.le_refl _) back h.sizedBack (fun _ _ _ => rfl)
    (fun k hk hle => absurd hk.1 (by omega))
  rw [show (2 * (d + 1 : Nat) - d - 2 : Int) = d by omega] at hsweep
  rw [backward_eq]
  split at hsweep
  · next g heq =>
    rw [heq]
    simp only [Prod.map_apply, id_eq, Option.map_none]
    refine ⟨hsweep.sized, h.backRow.row s.inside_runBack hsweep.get, fun heven k hk hnear => ?_⟩
    have hapart := hsweep.apart k hk
    simp only [meetsAhead, Bool.and_eq_false_imp, Bool.and_eq_true, decide_eq_true_eq,
      decide_eq_false_iff_not] at hapart
    have hfar := hapart ⟨by simpa using heven, by omega⟩
    obtain ⟨hle, hparity⟩ := hk
    have hlow := hrow.low (-(k - s.delta)) ⟨by omega, by omega⟩
    omega
  · next g x y n heq =>
    obtain ⟨k, ⟨hk, hmeets⟩, rfl, rfl, rfl⟩ := hsweep
    simp only [meetsAhead, Bool.and_eq_true, decide_eq_true_eq] at hmeets
    obtain ⟨⟨heven, hnear⟩, -⟩ := hmeets
    rw [heq]
    have hle : back.enter d k ≤ s.box.oldCount ∧ back.enter d k - k ≤ s.box.newCount := by
      cases d with
      | zero =>
        obtain rfl : k = 0 := by
          have := hk.1
          omega
        simp [enter, h.backRow _]
      | succ d =>
        have hparity := hk.2
        exact Row.enter_le h.backRow (h.clearBack d rfl (by simpa using heven)) (.inl rfl) hk
          (by omega) (by simp at heven; omega)
    -- The place is noted behind the equal lines, which are inside the box if there are any.
    have hinside := s.inside_runBack (back.enter d k) (back.enter d k - k)
    exact hbox.of_last (by dsimp only; omega) (by dsimp only; omega)

theorem has_of_meet (hbox : s.box.Has s.box.oldStart s.box.newStart) {rounds x y : Nat}
    (hd : d + rounds ≤ limit) (h : s.Rounds limit d ahead back)
    (hmeet : s.meet rounds d ahead back = some (x, y)) : s.box.Has x y := by
  induction rounds generalizing d ahead back with
  | zero => cases hmeet
  | succ rounds ih =>
    rw [meet] at hmeet
    have hforward := forward_spec hbox (by omega) h
    split at hmeet
    · next heq =>
      rw [heq] at hforward
      cases hmeet
      exact hforward
    · next f heq =>
      rw [heq] at hforward
      obtain ⟨hsized, hrow, hclear⟩ := hforward
      have hbackward := backward_spec hbox (by omega) h hrow
      split at hmeet
      · next heq =>
        rw [heq] at hbackward
        cases hmeet
        exact hbackward
      · next g heq =>
        rw [heq] at hbackward
        obtain ⟨hsized', hrow', hclear'⟩ := hbackward
        have hnext : s.Rounds limit (d + 1) f g :=
          ⟨hsized, hsized', hrow, hrow', by rintro e ⟨⟩; exact hclear, by rintro e ⟨⟩; exact hclear'⟩
        exact ih (by omega) hnext hmeet

/-- **The middle of a box is a place in it.** -/
theorem has_of_middle (hbox : s.box.Has s.box.oldStart s.box.newStart) {x y : Nat}
    (h : s.middle = some (x, y)) : s.box.Has x y := by
  have hstart : s.Rounds ((s.box.size + 1) / 2 + 1) 0 (.start _) (.start _) :=
    ⟨sized_start _, sized_start _, get_start _, get_start _, by simp, by simp⟩
  exact has_of_meet hbox (by omega) hstart h

end Search

/-! ## The script of a box -/

section Scripts

variable {s : Sides} {b : Box} {depth i j n : Nat}

theorem leads_overwrite (hbox : b.Has b.oldStart b.newStart) :
    Leads (Fits s) (overwrite b) b.oldStart b.newStart b.oldEnd b.newEnd := by
  have hold : b.oldStart + b.oldCount = b.oldEnd := Nat.add_sub_cancel' hbox.oldEnd
  have hnew : b.newStart + b.newCount = b.newEnd := Nat.add_sub_cancel' hbox.newEnd
  exact ⟨.remove _ _ _, .insert _ _ _, hold, hnew⟩

theorem leads_keepIfAny (h : s.Same i j n) :
    Leads (Fits s) (keepIfAny i j n) i j (i + n) (j + n) := by
  rw [keepIfAny]
  split
  · next hn =>
    subst hn
    exact ⟨rfl, rfl⟩
  · exact ⟨.keep h, rfl, rfl⟩

/-- What stands between the lines a box begins and ends with. -/
theorem leads_between (hbox : b.Has b.oldStart b.newStart)
    (hscript : ∀ b : Box, b.Has b.oldStart b.newStart →
      Leads (Fits s) (scriptOf s depth b) b.oldStart b.newStart b.oldEnd b.newEnd) :
    Leads (Fits s)
      (if b.oldCount = 0 && b.newCount = 0 then []
      else if b.newCount = 0 then [.removing b.oldStart b.oldCount b.newStart]
      else if b.oldCount = 0 then [.inserting b.oldStart b.newStart b.newCount]
      else match (Search.mk s b).middle with
        | none => overwrite b
        | some (x, y) =>
          scriptOf s depth ⟨b.oldStart, x, b.newStart, y⟩ ++
            scriptOf s depth ⟨x, b.oldEnd, y, b.newEnd⟩)
      b.oldStart b.newStart b.oldEnd b.newEnd := by
  have hold : b.oldStart + b.oldCount = b.oldEnd := Nat.add_sub_cancel' hbox.oldEnd
  have hnew : b.newStart + b.newCount = b.newEnd := Nat.add_sub_cancel' hbox.newEnd
  split
  · next h =>
    simp only [Bool.and_eq_true, decide_eq_true_eq] at h
    exact ⟨by omega, by omega⟩
  split
  · next h => exact ⟨.remove _ _ _, hold, show b.newStart + 0 = _ by omega⟩
  split
  · next h => exact ⟨.insert _ _ _, show b.oldStart + 0 = _ by omega, hnew⟩
  split
  · exact leads_overwrite hbox
  · next x y hmiddle =>
    have hplace : b.Has x y := Search.has_of_middle hbox hmiddle
    exact leads_append.mpr ⟨x, y,
      hscript ⟨_, _, _, _⟩ ⟨Nat.le_refl _, hplace.oldStart, Nat.le_refl _, hplace.newStart⟩,
      hscript ⟨_, _, _, _⟩ ⟨Nat.le_refl _, hplace.oldEnd, Nat.le_refl _, hplace.newEnd⟩⟩

/-- **The script of a box leads from its first corner to the last one.** -/
theorem leads_scriptOf (s : Sides) (depth : Nat) (hbox : b.Has b.oldStart b.newStart) :
    Leads (Fits s) (scriptOf s depth b) b.oldStart b.newStart b.oldEnd b.newEnd := by
  induction depth generalizing b with
  | zero => exact leads_overwrite hbox
  | succ depth ih =>
    have hstart := s.prefixLength_le b.oldStart b.newStart (min b.oldCount b.newCount)
    have hsame := s.same_prefixLength b.oldStart b.newStart (min b.oldCount b.newCount)
    rw [scriptOf]
    generalize s.prefixLength b.oldStart b.newStart (min b.oldCount b.newCount) = head at *
    dsimp only
    have hle := hbox.oldEnd
    have hle' := hbox.newEnd
    unfold Box.oldCount Box.newCount at hstart
    have hend := s.suffixLength_le b.oldEnd b.newEnd
      (min (b.oldEnd - (b.oldStart + head)) (b.newEnd - (b.newStart + head)))
    have hsame' := s.same_suffixLength b.oldEnd b.newEnd
      (min (b.oldEnd - (b.oldStart + head)) (b.newEnd - (b.newStart + head))) (by omega) (by omega)
    generalize s.suffixLength b.oldEnd b.newEnd
      (min (b.oldEnd - (b.oldStart + head)) (b.newEnd - (b.newStart + head))) = tail at *
    have hbetween := leads_between (s := s)
      (b := ⟨b.oldStart + head, b.oldEnd - tail, b.newStart + head, b.newEnd - tail⟩)
      ⟨Nat.le_refl _, by dsimp only; omega, Nat.le_refl _, by dsimp only; omega⟩ fun b => ih
    have htail := leads_keepIfAny hsame'
    rw [Nat.sub_add_cancel (by omega), Nat.sub_add_cancel (by omega)] at htail
    exact leads_append.mpr ⟨_, _, leads_append.mpr ⟨_, _, leads_keepIfAny hsame, hbetween⟩, htail⟩

/-- **The script of two texts leads from their beginnings to their ends.** -/
theorem leads_script (s : Sides) : Leads (Fits s) (script s) 0 0 s.old.size s.new.size :=
  leads_scriptOf s _ (b := ⟨0, s.old.size, 0, s.new.size⟩)
    ⟨Nat.le_refl _, Nat.zero_le _, Nat.le_refl _, Nat.zero_le _⟩

end Scripts

end AttributeRegistry.Diff
