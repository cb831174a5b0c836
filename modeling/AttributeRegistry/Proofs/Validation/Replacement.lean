import AttributeRegistry.Proofs.Registry.Definitions
import AttributeRegistry.Proofs.Validation.Accepted

/-!
# The rule of replacements

A deprecated attribute names a registered attribute that is not deprecated, the others name none
(`FollowsReplacementRule`). If all attributes of a registry follow the rule then no replacement is
itself replaced, so there is neither a cycle nor a chain; and a registry without cycles and chains, in
which every replacement exists, follows the rule (`replacements_eq_nil_iff`).
-/

namespace AttributeRegistry.Registry

variable {r : Registry}

/-- A deprecated attribute names a registered attribute that is not deprecated as its replacement; one
that is not deprecated names none. -/
def FollowsReplacementRule (r : Registry) (a : Attribute) : Prop :=
  (a.stability = .deprecated →
    ∃ b ∈ r.attributes, a.deprecatedBy = some b.key ∧ b.stability ≠ .deprecated) ∧
  (a.stability ≠ .deprecated → a.deprecatedBy = none)

instance (r : Registry) (a : Attribute) : Decidable (r.FollowsReplacementRule a) :=
  inferInstanceAs (Decidable (_ ∧ _))

/-- A deprecated attribute names a registered one as its replacement, the others name none. -/
def NamesReplacement (r : Registry) (a : Attribute) : Prop :=
  (a.stability = .deprecated → ∃ b ∈ r.attributes, a.deprecatedBy = some b.key) ∧
  (a.stability ≠ .deprecated → a.deprecatedBy = none)

theorem isDeprecated_iff {a : Attribute} : a.isDeprecated = true ↔ a.stability = .deprecated := by
  rw [Attribute.isDeprecated, beq_iff_eq]

theorem isDeprecated_eq_false_iff {a : Attribute} :
    a.isDeprecated = false ↔ a.stability ≠ .deprecated := by
  rw [Bool.eq_false_iff, Ne, isDeprecated_iff]

theorem mem_deprecated {a : Attribute} :
    a ∈ r.deprecated ↔ a ∈ r.attributes ∧ a.stability = .deprecated := by
  rw [deprecated, List.mem_filter, isDeprecated_iff]

/-! ## Fields -/

theorem replacementFindings_eq_nil_iff {a : Attribute} :
    r.replacementFindings a = [] ↔ r.NamesReplacement a := by
  unfold replacementFindings NamesReplacement
  by_cases hs : a.stability = .deprecated
  · have hdep : a.isDeprecated = true := isDeprecated_iff.mpr hs
    cases hby : a.deprecatedBy with
    | none => simp [hdep, hs]
    | some target =>
      have hregistered : r.contains target = true ↔
          ∃ b ∈ r.attributes, some target = some b.key := by
        rw [contains_iff]
        simp only [Option.some.injEq, eq_comm]
      by_cases hcontains : r.contains target = true
      · have hex := hregistered.mp hcontains
        simp only [hdep, hcontains, if_true, hs]
        exact ⟨fun _ => ⟨fun _ => hex, fun hno => absurd rfl hno⟩, fun _ => trivial⟩
      · simp only [hdep, hcontains, Bool.false_eq_true, if_false, hs]
        exact ⟨nofun, fun h => absurd (hregistered.mpr (h.1 trivial)) hcontains⟩
  · have hdep : a.isDeprecated = false := isDeprecated_eq_false_iff.mpr hs
    cases hby : a.deprecatedBy with
    | none => simp [hdep, hs]
    | some target => simp [hdep, hs]

theorem isError_of_mem_replacementFindings {a : Attribute} {f : Finding}
    (h : f ∈ r.replacementFindings a) : f.isError = true := by
  unfold replacementFindings at h
  split at h
  · exact Report.isError_of_mem_singleton h rfl
  · simp at h
  · exact Report.isError_of_mem_singleton h rfl
  · split at h
    · simp at h
    · exact Report.isError_of_mem_singleton h rfl

/-! ## Cycles -/

/-- What replaces a key is not replaced, if every attribute follows the rule. -/
theorem successor?_eq_none_of_successor? (h : ∀ a ∈ r.attributes, r.FollowsReplacementRule a)
    {key next : String} (hnext : r.successor? key = some next) : r.successor? next = none := by
  have hplain : ∀ b ∈ r.attributes, b.stability ≠ .deprecated → r.successor? b.key = none := by
    intro b hb hstable
    have hget : r.get? b.key = some b := get?_eq_some_iff.mpr ⟨hb, rfl⟩
    have hnot : b.isDeprecated = false := isDeprecated_eq_false_iff.mpr hstable
    simp [successor?, hget, Attribute.replacement?, hnot]
  unfold successor? at hnext
  cases hget : r.get? key with
  | none => simp [hget] at hnext
  | some a =>
    obtain ⟨ha, -⟩ := get?_eq_some_iff.mp hget
    by_cases hdep : a.stability = .deprecated
    · obtain ⟨b, hb, hby, hstable⟩ := (h a ha).1 hdep
      have hisdep : a.isDeprecated = true := isDeprecated_iff.mpr hdep
      have hreg : r.contains b.key = true := contains_iff.mpr ⟨b, hb, rfl⟩
      simp [hget, Attribute.replacement?, hisdep, hby, hreg] at hnext
      rw [← hnext]
      exact hplain b hb hstable
    · have hnot : a.isDeprecated = false := isDeprecated_eq_false_iff.mpr hdep
      simp [hget, Attribute.replacement?, hnot] at hnext

theorem pathBackTo_eq_none {goal key : String} (h : r.successor? key = none) (steps : Nat) :
    r.pathBackTo goal steps key = none := by
  cases steps with
  | zero => rfl
  | succ steps => rw [pathBackTo, h]

/-- No key is on a cycle, if every attribute follows the rule. -/
theorem cycleThrough?_eq_none (h : ∀ a ∈ r.attributes, r.FollowsReplacementRule a) (key : String) :
    r.cycleThrough? key = none := by
  unfold cycleThrough?
  cases r.size with
  | zero => rfl
  | succ steps =>
    rw [pathBackTo]
    cases hnext : r.successor? key with
    | none => rfl
    | some next =>
      -- the walk stops after one step
      have hlast := successor?_eq_none_of_successor? h hnext
      have hne : next ≠ key := by
        rintro rfl
        rw [hlast] at hnext
        exact absurd hnext (by simp)
      dsimp only
      rw [if_neg hne, pathBackTo_eq_none hlast, Option.map_none]

theorem cycles_eq_nil (h : ∀ a ∈ r.attributes, r.FollowsReplacementRule a) : r.cycles = [] := by
  rw [cycles, List.filterMap_eq_nil_iff]
  intro key _
  exact cycleThrough?_eq_none h key

theorem cycleFinding_eq_nil_iff {cycle : List String} : cycleFinding cycle = [] ↔ cycle = [] := by
  cases cycle with
  | nil => simp [cycleFinding]
  | cons start rest => simp [cycleFinding]

/-! ## Chains -/

/-- A deprecated attribute with a registered replacement has no chain iff the replacement is not
deprecated, as long as nothing is on a cycle. -/
theorem chainFindings_nil_eq_nil_iff {a b : Attribute} (hb : b ∈ r.attributes)
    (hby : a.deprecatedBy = some b.key) :
    r.chainFindings [] a = [] ↔ b.stability ≠ .deprecated := by
  have hget : r.get? b.key = some b := get?_eq_some_iff.mpr ⟨hb, rfl⟩
  unfold chainFindings
  rw [hby, Option.bind_some, hget]
  cases hdep : b.isDeprecated with
  | true => simp [isDeprecated_iff.mp hdep, hdep]
  | false =>
    have hstable : b.stability ≠ .deprecated := isDeprecated_eq_false_iff.mp hdep
    simp [hstable, hdep]

theorem isError_of_mem_graphFindings {f : Finding} (h : f ∈ r.graphFindings) : f.isError = true := by
  rcases List.mem_append.mp h with h | h
  · obtain ⟨cycle, -, hf⟩ := List.mem_flatMap.mp h
    unfold cycleFinding at hf
    split at hf
    · simp at hf
    · exact Report.isError_of_mem_singleton hf rfl
  · obtain ⟨a, -, hf⟩ := List.mem_flatMap.mp h
    unfold chainFindings at hf
    split at hf
    · simp at hf
    · split at hf
      · simp at hf
      · split at hf
        · simp at hf
        · exact Report.isError_of_mem_singleton hf rfl

/-- **Replacements are in order iff every attribute follows the rule.** -/
theorem replacements_eq_nil_iff :
    ((∀ a ∈ r.attributes, r.replacementFindings a = []) ∧ r.graphFindings = []) ↔
      ∀ a ∈ r.attributes, r.FollowsReplacementRule a := by
  simp only [replacementFindings_eq_nil_iff]
  constructor
  · rintro ⟨hnames, hgraph⟩ a ha
    obtain ⟨hcycles, hchains⟩ := List.append_eq_nil_iff.mp hgraph
    -- chains of keys on a cycle are not reported, but here no key is on one
    have hflat : r.cycles.flatten = [] := by
      rw [List.flatten_eq_nil_iff]
      intro cycle hcycle
      exact cycleFinding_eq_nil_iff.mp (List.flatMap_eq_nil_iff.mp hcycles cycle hcycle)
    rw [hflat, List.flatMap_eq_nil_iff] at hchains
    refine ⟨fun hdep => ?_, (hnames a ha).2⟩
    obtain ⟨b, hb, hby⟩ := (hnames a ha).1 hdep
    have hchain := hchains a (mem_deprecated.mpr ⟨ha, hdep⟩)
    exact ⟨b, hb, hby, (chainFindings_nil_eq_nil_iff hb hby).mp hchain⟩
  · intro h
    refine ⟨fun a ha => ⟨fun hdep => ?_, (h a ha).2⟩, ?_⟩
    · obtain ⟨b, hb, hby, -⟩ := (h a ha).1 hdep
      exact ⟨b, hb, hby⟩
    · unfold graphFindings
      rw [cycles_eq_nil h]
      refine List.flatMap_eq_nil_iff.mpr ?_
      intro a ha
      obtain ⟨hmem, hdep⟩ := mem_deprecated.mp ha
      obtain ⟨b, hb, hby, hstable⟩ := (h a hmem).1 hdep
      exact (chainFindings_nil_eq_nil_iff hb hby).mpr hstable

end AttributeRegistry.Registry
