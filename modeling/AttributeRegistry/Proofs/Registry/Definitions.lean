import AttributeRegistry.Codegen.Artifact
import AttributeRegistry.Proofs.Order.Canonical
import Mathlib.Data.List.Nodup

/-!
# What a registry is, seen from outside

Looking up a key finds the only definition with that key (`get?_eq_some_iff`). The findings of a
registry and the modules generated from it depend on its definitions and its version; where the
definitions were declared does not count (`check_congr`, `generate_congr`).
-/

namespace AttributeRegistry

namespace Registry

/-! ## Keys -/

variable {r s : Registry}

theorem keys_eq (r : Registry) : r.keys = r.attributes.map Attribute.key := by
  rw [keys, attributes, List.map_map]
  rfl

theorem size_eq (r : Registry) : r.size = r.attributes.length := by
  rw [size, attributes, List.length_map]

theorem get?_eq (r : Registry) (key : String) :
    r.get? key = r.attributes.find? fun a => a.key = key := by
  rw [get?, find?, attributes, List.find?_map]
  rfl

theorem contains_eq (r : Registry) (key : String) : r.contains key = (r.get? key).isSome := by
  rw [contains, get?, Option.isSome_map]

/-- The definitions are strictly ascending in their keys. -/
theorem pairwise_attributes (r : Registry) :
    r.attributes.Pairwise fun a b => compare a.key b.key = .lt := by
  have h := r.ordered
  rw [show r.entries.map Entry.key = r.attributes.map Attribute.key from r.keys_eq,
    List.pairwise_map] at h
  exact h

/-- Registries with the same definitions hold them in the same order. -/
theorem attributes_ext (h : ∀ a, a ∈ r.attributes ↔ a ∈ s.attributes) :
    r.attributes = s.attributes := by
  have := Ordered.transCmp_comap compare Attribute.key
  exact Ordered.eq_of_pairwise_lt r.pairwise_attributes s.pairwise_attributes h

theorem nodup_keys (r : Registry) : r.keys.Nodup := by
  refine r.ordered.imp ?_
  rintro a b hlt rfl
  exact Ordered.not_lt_self _ hlt

/-- A key belongs to one definition. -/
theorem eq_of_key_eq {a b : Attribute} (ha : a ∈ r.attributes) (hb : b ∈ r.attributes)
    (h : a.key = b.key) : a = b :=
  List.inj_on_of_nodup_map (by rw [← keys_eq]; exact r.nodup_keys) ha hb h

theorem get?_eq_some_iff {key : String} {a : Attribute} :
    r.get? key = some a ↔ a ∈ r.attributes ∧ a.key = key := by
  rw [get?_eq]
  constructor
  · intro h
    exact ⟨List.mem_of_find?_eq_some h, by simpa using List.find?_some h⟩
  · rintro ⟨ha, rfl⟩
    cases hf : r.attributes.find? fun b => b.key = a.key with
    | none =>
      rw [List.find?_eq_none] at hf
      exact absurd (by simp) (hf a ha)
    | some b =>
      -- the first definition with the key is the only one
      have hb : b.key = a.key := by simpa using List.find?_some hf
      rw [eq_of_key_eq (List.mem_of_find?_eq_some hf) ha hb]

theorem contains_iff {key : String} : r.contains key = true ↔ ∃ a ∈ r.attributes, a.key = key := by
  rw [contains_eq, Option.isSome_iff_exists]
  simp only [get?_eq_some_iff]

theorem mem_keys {key : String} : key ∈ r.keys ↔ ∃ a ∈ r.attributes, a.key = key := by
  rw [keys_eq, List.mem_map]

/-! ## Findings -/

theorem get?_congr (h : r.attributes = s.attributes) : r.get? = s.get? := by
  funext key
  rw [get?_eq, get?_eq, h]

theorem contains_congr (h : r.attributes = s.attributes) : r.contains = s.contains := by
  funext key
  rw [contains_eq, contains_eq, get?_congr h]

theorem keys_congr (h : r.attributes = s.attributes) : r.keys = s.keys := by
  rw [keys_eq, keys_eq, h]

theorem size_congr (h : r.attributes = s.attributes) : r.size = s.size := by
  rw [size_eq, size_eq, h]

theorem deprecated_congr (h : r.attributes = s.attributes) : r.deprecated = s.deprecated := by
  rw [deprecated, deprecated, h]

theorem successor?_congr (h : r.attributes = s.attributes) : r.successor? = s.successor? := by
  funext key
  unfold successor?
  rw [get?_congr h, contains_congr h]

theorem pathBackTo_congr (h : r.attributes = s.attributes) (goal : String) :
    ∀ (steps : Nat) (key : String), r.pathBackTo goal steps key = s.pathBackTo goal steps key := by
  intro steps
  induction steps with
  | zero => intro key; rfl
  | succ steps ih =>
    intro key
    unfold pathBackTo
    simp only [successor?_congr h, ih]

theorem cycleThrough?_congr (h : r.attributes = s.attributes) :
    r.cycleThrough? = s.cycleThrough? := by
  funext key
  rw [cycleThrough?, cycleThrough?, size_congr h, pathBackTo_congr h]

theorem cycles_congr (h : r.attributes = s.attributes) : r.cycles = s.cycles := by
  unfold cycles cycleStarts linked
  rw [deprecated_congr h, successor?_congr h, cycleThrough?_congr h]

theorem walk_congr (h : r.attributes = s.attributes) :
    ∀ (steps : Nat) (met : List String) (key : String),
      r.walk steps met key = s.walk steps met key := by
  intro steps
  induction steps with
  | zero => intro met key; rfl
  | succ steps ih =>
    intro met key
    unfold walk
    simp only [get?_congr h, contains_congr h, ih]

theorem graphFindings_congr (h : r.attributes = s.attributes) :
    r.graphFindings = s.graphFindings := by
  have hchain : r.chainFindings = s.chainFindings := by
    funext onCycle a
    unfold chainFindings
    simp only [get?_congr h, size_congr h, walk_congr h]
  unfold graphFindings
  simp only [cycles_congr h, deprecated_congr h, hchain]

theorem replacementFindings_congr (h : r.attributes = s.attributes) :
    r.replacementFindings = s.replacementFindings := by
  funext a
  unfold replacementFindings
  rw [contains_congr h, keys_congr h]

/-- **What is found about a registry depends on its definitions only.** -/
theorem check_congr (h : r.attributes = s.attributes) : r.check = s.check := by
  unfold check collisionFindings
  rw [h, replacementFindings_congr h, graphFindings_congr h, keys_congr h]

theorem allFindings_congr (h : r.attributes = s.attributes) (prior : Report) (strict : Bool) :
    r.allFindings prior strict = s.allFindings prior strict := by
  unfold allFindings
  rw [check_congr h]

theorem checksum_congr (hv : r.version = s.version) (h : r.attributes = s.attributes) :
    r.checksum = s.checksum := by
  unfold checksum toJson
  rw [hv, h]

end Registry

/-! ## Modules -/

/-- **What is generated from a registry depends on its version and its definitions only.** -/
theorem Codegen.generate_congr {v w : ValidRegistry}
    (hv : v.registry.version = w.registry.version)
    (h : v.registry.attributes = w.registry.attributes) :
    Codegen.generate v = Codegen.generate w := by
  have hrender : render v = render w := by
    funext p t
    unfold render docs
    rw [hv, h]
  funext targets p
  unfold generate
  rw [hv, Registry.checksum_congr hv h, hrender]

end AttributeRegistry
