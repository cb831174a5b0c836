import AttributeRegistry.Deprecation
import AttributeRegistry.Proofs.Registry.Definitions
import Mathlib.Data.List.Cycle
import Mathlib.Logic.Relation

/-!
# The graph of replacements

A deprecated attribute leads to its replacement if that is registered, so at most one key follows each
key. In such a graph the way from a key to another one is determined by its ends (`path_unique`), and a
way that comes to a key for the first time meets no key twice (`nodup_of_path`).

So two keys lie on one cycle iff each of them leads to the other (`exists_isCycle_iff`): the cycles are
the strongly connected components that have an edge. No keys without repetition are more than the
registry has (`length_le_size`), so no cycle is longer.
-/

namespace AttributeRegistry.Registry

open Relation

/-- A key is deprecated in favour of another registered key, or of itself. -/
def Leads (r : Registry) (key next : String) : Prop :=
  ∃ a ∈ r.attributes, a.key = key ∧ a.stability = .deprecated ∧ a.deprecatedBy = some next ∧
    next ∈ r.keys

/-- A cycle of replacements: keys without repetition, each of which leads to the one behind it, and
the last one to the first. -/
structure IsCycle (r : Registry) (c : Cycle String) : Prop where
  ne_nil : c ≠ Cycle.nil
  nodup : c.Nodup
  chain : c.Chain r.Leads

variable {r : Registry} {key next goal : String}

/-! ## Single steps -/

theorem successor?_eq_some_iff : r.successor? key = some next ↔ r.Leads key next := by
  have hregistered : r.contains next = true ↔ next ∈ r.keys := by
    rw [contains_iff, mem_keys]
  unfold successor? Leads
  constructor
  · intro h
    cases hget : r.get? key with
    | none => simp [hget] at h
    | some a =>
      obtain ⟨ha, hkey⟩ := get?_eq_some_iff.mp hget
      by_cases hdep : a.isDeprecated = true
      · cases hby : a.deprecatedBy with
        | none => simp [hget, Attribute.replacement?, hdep, hby] at h
        | some target =>
          by_cases hcontains : r.contains target = true
          · simp [hget, Attribute.replacement?, hdep, hby, hcontains] at h
            subst h
            refine ⟨a, ha, hkey, ?_, hby, hregistered.mp hcontains⟩
            simpa [Attribute.isDeprecated] using hdep
          · simp [hget, Attribute.replacement?, hdep, hby, hcontains] at h
      · simp [hget, Attribute.replacement?, hdep] at h
  · rintro ⟨a, ha, hkey, hstability, hby, hnext⟩
    have hget : r.get? key = some a := get?_eq_some_iff.mpr ⟨ha, hkey⟩
    simp [hget, Attribute.replacement?, Attribute.isDeprecated, hstability, hby,
      hregistered.mpr hnext]

/-- At most one key follows a key. -/
theorem Leads.unique {other : String} (h : r.Leads key next) (h' : r.Leads key other) :
    next = other := by
  rw [← successor?_eq_some_iff] at h h'
  rw [h] at h'
  exact Option.some.inj h'

theorem Leads.mem_keys (h : r.Leads key next) : key ∈ r.keys := by
  obtain ⟨a, ha, hkey, -⟩ := h
  exact Registry.mem_keys.mpr ⟨a, ha, hkey⟩

theorem Leads.next_mem_keys (h : r.Leads key next) : next ∈ r.keys := by
  obtain ⟨a, -, -, -, -, hnext⟩ := h
  exact hnext

/-! ## Paths -/

/-- There is one way from a key to the first place where it meets another one. -/
theorem path_unique {s t : List String} (hs : (key :: (s ++ [goal])).IsChain r.Leads)
    (ht : (key :: (t ++ [goal])).IsChain r.Leads) (hgs : goal ∉ s) (hgt : goal ∉ t) : s = t := by
  induction s generalizing key t with
  | nil =>
    cases t with
    | nil => rfl
    | cons b t =>
      have hb : b = goal := (List.isChain_cons_cons.mp ht).1.unique (List.isChain_cons_cons.mp hs).1
      exact absurd (hb ▸ List.mem_cons_self) hgt
  | cons a s ih =>
    obtain ⟨ha, hs⟩ := List.isChain_cons_cons.mp hs
    cases t with
    | nil =>
      have hgoal : a = goal := ha.unique (List.isChain_cons_cons.mp ht).1
      exact absurd (hgoal ▸ List.mem_cons_self) hgs
    | cons b t =>
      obtain ⟨hb, ht⟩ := List.isChain_cons_cons.mp ht
      obtain rfl : a = b := ha.unique hb
      rw [List.mem_cons, not_or] at hgs hgt
      rw [ih hs ht hgs.2 hgt.2]

/-- The way to the first place where a key is met goes nowhere twice. -/
theorem nodup_of_path {s : List String} (h : (s ++ [goal]).IsChain r.Leads) (hgoal : goal ∉ s) :
    s.Nodup := by
  induction s with
  | nil => exact List.nodup_nil
  | cons a s ih =>
    rw [List.mem_cons, not_or] at hgoal
    refine List.nodup_cons.mpr ⟨fun hmem => ?_, ih h.tail hgoal.2⟩
    -- a second visit of `a` would make the way from there as long as the way from the first one
    obtain ⟨front, back, rfl⟩ := List.append_of_mem hmem
    have hback : (a :: (back ++ [goal])).IsChain r.Leads := by
      have hsplit : a :: (front ++ a :: back) ++ [goal] = (a :: front) ++ (a :: (back ++ [goal])) := by
        simp
      rw [hsplit] at h
      exact h.right_of_append
    have hgoal' : goal ∉ back := fun hb =>
      hgoal.2 (List.mem_append_right _ (List.mem_cons_of_mem _ hb))
    have heq := path_unique h hback hgoal.2 hgoal'
    have hlength := congrArg List.length heq
    simp at hlength
    omega

theorem mem_keys_of_path {s : List String} (h : (s ++ [goal]).IsChain r.Leads) :
    ∀ k ∈ s, k ∈ r.keys := by
  induction s with
  | nil => simp
  | cons a s ih =>
    refine List.forall_mem_cons.mpr ⟨?_, ih h.tail⟩
    cases s with
    | nil => exact (List.isChain_cons_cons.mp h).1.mem_keys
    | cons b s => exact (List.isChain_cons_cons.mp h).1.mem_keys

/-- Registered keys without repetition are no more than the registry has. -/
theorem length_le_size {s : List String} (hnodup : s.Nodup) (h : ∀ k ∈ s, k ∈ r.keys) :
    s.length ≤ r.size := by
  have hle := (hnodup.subperm h).length_le
  rwa [keys, List.length_map] at hle

/-! ## Cycles -/

variable {c : Cycle String}

theorem isCycle_cons {rest : List String} :
    r.IsCycle ↑(key :: rest) ↔
      (key :: rest).Nodup ∧ (key :: (rest ++ [key])).IsChain r.Leads := by
  constructor
  · rintro ⟨-, hnodup, hchain⟩
    exact ⟨Cycle.nodup_coe_iff.mp hnodup, (Cycle.chain_coe_cons _ _ _).mp hchain⟩
  · rintro ⟨hnodup, hchain⟩
    refine ⟨?_, Cycle.nodup_coe_iff.mpr hnodup, (Cycle.chain_coe_cons _ _ _).mpr hchain⟩
    rw [Ne, Cycle.coe_eq_nil]
    exact List.cons_ne_nil _ _

/-- A way that comes back to its first key only at its end is a cycle. -/
theorem isCycle_of_path {rest : List String} (h : (key :: (rest ++ [key])).IsChain r.Leads)
    (hkey : key ∉ rest) : r.IsCycle ↑(key :: rest) :=
  isCycle_cons.mpr ⟨List.nodup_cons.mpr ⟨hkey, nodup_of_path h.tail hkey⟩, h⟩

/-- A cycle may be read from any of its keys on. -/
theorem exists_coe_cons_of_mem (h : key ∈ c) : ∃ rest : List String, c = ↑(key :: rest) := by
  induction c using Quotient.inductionOn with
  | h l =>
    obtain ⟨front, back, rfl⟩ := List.append_of_mem (Cycle.mem_coe_iff.mp h)
    exact ⟨back ++ front, Cycle.coe_eq_coe.mpr List.isRotated_append⟩

/-- What follows a key of a cycle is on the cycle. -/
theorem IsCycle.mem_of_leads (hc : r.IsCycle c) (h : key ∈ c) (hnext : r.Leads key next) :
    next ∈ c := by
  obtain ⟨rest, rfl⟩ := exists_coe_cons_of_mem h
  have hchain := (isCycle_cons.mp hc).2
  cases rest with
  | nil =>
    obtain rfl : next = key := hnext.unique (List.isChain_cons_cons.mp hchain).1
    exact h
  | cons b rest =>
    obtain rfl : next = b := hnext.unique (List.isChain_cons_cons.mp hchain).1
    rw [Cycle.mem_coe_iff]
    exact List.mem_cons_of_mem _ List.mem_cons_self

/-- Every key of a cycle leads on. -/
theorem IsCycle.exists_leads (hc : r.IsCycle c) (h : key ∈ c) : ∃ next ∈ c, r.Leads key next := by
  have hstep : ∃ next, r.Leads key next := by
    obtain ⟨rest, rfl⟩ := exists_coe_cons_of_mem h
    have hchain := (isCycle_cons.mp hc).2
    cases rest with
    | nil => exact ⟨key, (List.isChain_cons_cons.mp hchain).1⟩
    | cons b rest => exact ⟨b, (List.isChain_cons_cons.mp hchain).1⟩
  obtain ⟨next, hnext⟩ := hstep
  exact ⟨next, hc.mem_of_leads h hnext, hnext⟩

theorem IsCycle.mem_of_transGen (hc : r.IsCycle c) (h : key ∈ c)
    (hgoal : TransGen r.Leads key goal) : goal ∈ c := by
  induction hgoal with
  | single hstep => exact hc.mem_of_leads h hstep
  | tail _ hstep ih => exact hc.mem_of_leads ih hstep

/-- On a cycle every key leads to every key. -/
theorem IsCycle.transGen (hc : r.IsCycle c) (h : key ∈ c) (hgoal : goal ∈ c) :
    TransGen r.Leads key goal := by
  have hchain : c.Chain (TransGen r.Leads) := hc.chain.imp fun _ _ => TransGen.single
  exact Cycle.chain_iff_pairwise.mp hchain key h goal hgoal

/-- A key that leads back to itself is on a cycle. -/
theorem exists_isCycle_of_transGen (h : TransGen r.Leads key key) :
    ∃ rest : List String, r.IsCycle ↑(key :: rest) := by
  obtain ⟨next, hnext, hback⟩ := TransGen.head'_iff.mp h
  obtain ⟨s, hs, hlast⟩ := List.exists_isChain_cons_of_relationReflTransGen hback
  have hmem : key ∈ next :: s := hlast ▸ List.getLast_mem _
  -- the cycle ends where the way meets the key for the first time
  obtain ⟨rest, more, hsplit, hkey⟩ := List.eq_append_cons_of_mem hmem
  have hpath : (key :: (next :: s)).IsChain r.Leads := List.isChain_cons_cons.mpr ⟨hnext, hs⟩
  refine ⟨rest, isCycle_of_path ?_ hkey⟩
  have happend : key :: (rest ++ key :: more) = (key :: (rest ++ [key])) ++ more := by simp
  rw [hsplit, happend] at hpath
  exact hpath.left_of_append

/-- **Two keys are on one cycle iff each leads to the other.** -/
theorem exists_isCycle_iff :
    (∃ c, r.IsCycle c ∧ key ∈ c ∧ goal ∈ c) ↔
      TransGen r.Leads key goal ∧ TransGen r.Leads goal key := by
  constructor
  · rintro ⟨c, hc, hkey, hgoal⟩
    exact ⟨hc.transGen hkey hgoal, hc.transGen hgoal hkey⟩
  · rintro ⟨hto, hfrom⟩
    obtain ⟨rest, hc⟩ := exists_isCycle_of_transGen (hto.trans hfrom)
    have hmem : key ∈ ((key :: rest : List String) : Cycle String) :=
      Cycle.mem_coe_iff.mpr List.mem_cons_self
    exact ⟨_, hc, hmem, hc.mem_of_transGen hmem hto⟩

end AttributeRegistry.Registry
