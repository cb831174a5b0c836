import AttributeRegistry.Proofs.Validation.Replacement
import AttributeRegistry.Proofs.Validation.Rules

/-!
# Validation accepts the well-formed registries

A registry is well-formed if its attributes are, if they follow the rule of replacements, and if no two
keys share a constant (`Registry.WellFormed`). The checks find an error iff it is not
(`noErrors_check_iff`), and find anything at all iff it is not, or is not tidy (`check_eq_nil_iff`).

Main statement: `exists_validate_iff_wellFormed`.
-/

namespace AttributeRegistry.Registry

open Codegen

variable {r : Registry}

/-- The rules of a registry. -/
structure WellFormed (r : Registry) : Prop where
  attributes : ∀ a ∈ r.attributes, a.WellFormed
  replacements : ∀ a ∈ r.attributes, r.FollowsReplacementRule a
  constants : ∀ k ∈ r.keys, ∀ l ∈ r.keys, constantName k = constantName l → k = l

/-- What is advised beyond the rules. -/
def Tidy (r : Registry) : Prop :=
  ∀ a ∈ r.attributes, a.Tidy

/-! ## Replacements -/

/-- What replaces an attribute is registered, so it is the key of a well-formed attribute. -/
theorem WellFormed.key_of_replacement (hwf : r.WellFormed) {a : Attribute} (ha : a ∈ r.attributes)
    {key : String} (h : a.replacement? = some key) : Key.WellFormed key.toList := by
  unfold Attribute.replacement? at h
  split at h
  · next hdep =>
    obtain ⟨b, hb, hby, -⟩ := (hwf.replacements a ha).1 (isDeprecated_iff.mp hdep)
    rw [hby] at h
    cases h
    exact (hwf.attributes b hb).key
  · exact absurd h (by simp)

/-- Exactly the deprecated attributes are replaced. -/
theorem WellFormed.isSome_replacement (hwf : r.WellFormed) {a : Attribute} (ha : a ∈ r.attributes) :
    a.replacement?.isSome = a.isDeprecated := by
  unfold Attribute.replacement?
  split
  · next hdep =>
    obtain ⟨b, -, hby, -⟩ := (hwf.replacements a ha).1 (isDeprecated_iff.mp hdep)
    rw [hby, hdep]
    rfl
  · next hdep =>
    rw [Bool.eq_false_iff.mpr hdep]
    rfl

/-! ## Constants -/

/-- Keys have no collisions iff no two of them share a constant. -/
theorem collisions_eq_nil_iff {keys : List String} (h : keys.Nodup) :
    collisions keys = [] ↔
      ∀ k ∈ keys, ∀ l ∈ keys, constantName k = constantName l → k = l := by
  have hclaim : ∀ name, (keys.filter fun key => constantName key = name).length ≤ 1 ↔
      ∀ k ∈ keys, constantName k = name → ∀ l ∈ keys, constantName l = name → k = l := by
    intro name
    rw [Ordered.length_le_one_iff_of_nodup (h.filter _)]
    simp only [List.mem_filter, decide_eq_true_eq, and_imp]
  unfold collisions
  rw [List.filterMap_eq_nil_iff]
  constructor
  · intro hnone k hk l hl heq
    have hname := hnone (constantName k) (by
      rw [Ordered.mem_distinct]
      exact List.mem_map_of_mem hk)
    have hle : (keys.filter fun key => constantName key = constantName k).length ≤ 1 := by
      by_cases hlt : 1 < (keys.filter fun key => constantName key = constantName k).length
      · rw [if_pos hlt] at hname
        exact absurd hname (by simp)
      · exact Nat.le_of_not_lt hlt
    exact (hclaim _).mp hle k hk rfl l hl heq.symm
  · intro hinj name _
    have hle := (hclaim name).mpr fun k hk hkn l hl hln => hinj k hk l hl (hkn.trans hln.symm)
    exact if_neg (Nat.not_lt.mpr hle)

theorem collisionFindings_eq_nil_iff :
    r.collisionFindings = [] ↔
      ∀ k ∈ r.keys, ∀ l ∈ r.keys, constantName k = constantName l → k = l := by
  rw [← collisions_eq_nil_iff r.nodup_keys, collisionFindings, List.filterMap_eq_nil_iff]
  constructor
  · intro h
    refine List.eq_nil_iff_forall_not_mem.mpr ?_
    rintro ⟨name, keys⟩ hmem
    obtain ⟨other, -, hsome⟩ := List.mem_filterMap.mp hmem
    -- a collision has two keys at least, so there is a first one to report it at
    have hhead := h (name, keys) hmem
    rw [Option.map_eq_none_iff, List.head?_eq_none_iff] at hhead
    dsimp only at hsome
    split at hsome
    · next hlt =>
      rw [Option.some.injEq, Prod.mk.injEq] at hsome
      rw [← hsome.2, Ordered.sortStrings, Ordered.sort_eq_nil_iff] at hhead
      rw [hhead] at hlt
      exact absurd hlt (by decide)
    · simp at hsome
  · intro h entry hmem
    rw [h] at hmem
    exact absurd hmem List.not_mem_nil

theorem isError_of_mem_collisionFindings {f : Finding} (h : f ∈ r.collisionFindings) :
    f.isError = true := by
  obtain ⟨⟨name, keys⟩, -, hf⟩ := List.mem_filterMap.mp h
  obtain ⟨key, -, rfl⟩ := Option.map_eq_some_iff.mp hf
  rfl

/-! ## All checks -/

/-- **The checks find an error iff the registry is not well-formed.** -/
theorem noErrors_check_iff : Report.NoErrors r.check ↔ r.WellFormed := by
  rw [check, Report.noErrors_append, Report.noErrors_append, Report.noErrors_flatMap,
    Report.noErrors_iff_eq_nil fun f hf => isError_of_mem_graphFindings hf,
    Report.noErrors_iff_eq_nil fun f hf => isError_of_mem_collisionFindings hf,
    collisionFindings_eq_nil_iff]
  have hown : ∀ a, Report.NoErrors (a.ownFindings ++ r.replacementFindings a) ↔
      a.WellFormed ∧ r.replacementFindings a = [] := by
    intro a
    rw [Report.noErrors_append, Attribute.noErrors_ownFindings,
      Report.noErrors_iff_eq_nil fun f hf => isError_of_mem_replacementFindings hf]
  simp only [hown]
  constructor
  · rintro ⟨⟨hattrs, hgraph⟩, hconstants⟩
    refine ⟨fun a ha => (hattrs a ha).1, ?_, hconstants⟩
    exact replacements_eq_nil_iff.mp ⟨fun a ha => (hattrs a ha).2, hgraph⟩
  · rintro ⟨hattrs, hreplacements, hconstants⟩
    obtain ⟨hfields, hgraph⟩ := replacements_eq_nil_iff.mpr hreplacements
    exact ⟨⟨fun a ha => ⟨hattrs a ha, hfields a ha⟩, hgraph⟩, hconstants⟩

/-- **The checks find nothing iff the registry is well-formed and tidy.** -/
theorem check_eq_nil_iff : r.check = [] ↔ r.WellFormed ∧ r.Tidy := by
  rw [check, List.append_eq_nil_iff, List.append_eq_nil_iff, List.flatMap_eq_nil_iff,
    collisionFindings_eq_nil_iff]
  have hown : ∀ a, a.ownFindings ++ r.replacementFindings a = [] ↔
      (a.WellFormed ∧ a.Tidy) ∧ r.replacementFindings a = [] := by
    intro a
    rw [List.append_eq_nil_iff, Attribute.ownFindings_eq_nil_iff]
  simp only [hown]
  constructor
  · rintro ⟨⟨hattrs, hgraph⟩, hconstants⟩
    refine ⟨⟨fun a ha => (hattrs a ha).1.1, ?_, hconstants⟩, fun a ha => (hattrs a ha).1.2⟩
    exact replacements_eq_nil_iff.mp ⟨fun a ha => (hattrs a ha).2, hgraph⟩
  · rintro ⟨⟨hattrs, hreplacements, hconstants⟩, htidy⟩
    obtain ⟨hfields, hgraph⟩ := replacements_eq_nil_iff.mpr hreplacements
    exact ⟨⟨fun a ha => ⟨⟨hattrs a ha, htidy a ha⟩, hfields a ha⟩, hgraph⟩, hconstants⟩

/-- A well-formed registry is accepted if nothing was found before. -/
theorem WellFormed.exists_validate (h : r.WellFormed) : ∃ v, r.validate [] false = .ok v := by
  rw [exists_validate_iff, hasErrors_allFindings, Report.noErrors_append]
  exact ⟨⟨Report.noErrors_nil, noErrors_check_iff.mpr h⟩, nofun⟩

/-- An accepted registry is well-formed. -/
theorem wellFormed_of_validate {prior : Report} {strict : Bool} {v : ValidRegistry}
    (h : r.validate prior strict = .ok v) : v.registry.WellFormed := by
  have hno := (validate_eq_ok_iff.mp h).1
  rw [hasErrors_allFindings, Report.noErrors_append] at hno
  rw [registry_of_validate h]
  exact noErrors_check_iff.mp hno.1.2

theorem noErrors_iff_severity {p : Report} :
    Report.NoErrors p ↔ ∀ f ∈ p, f.severity ≠ .error := by
  refine forall₂_congr fun f _ => ?_
  rw [Finding.isError, beq_eq_false_iff_ne]

/-- A report is empty iff it holds neither an error nor a warning. -/
theorem eq_nil_iff_severity {p : Report} :
    p = [] ↔ (∀ f ∈ p, f.severity ≠ .error) ∧ ∀ f ∈ p, f.severity ≠ .warning := by
  constructor
  · rintro rfl
    simp
  · rintro ⟨herror, hwarning⟩
    refine List.eq_nil_iff_forall_not_mem.mpr ?_
    intro f hf
    cases hs : f.severity with
    | error => exact herror f hf hs
    | warning => exact hwarning f hf hs

/-- **Exactly the well-formed registries are accepted**, if nothing that was found before is an error;
where warnings count as errors, exactly those that are tidy too, if nothing was found before. -/
theorem exists_validate_iff_wellFormed (r : Registry) (prior : Report) (strict : Bool) :
    (∃ v, r.validate prior strict = .ok v) ↔
      (∀ f ∈ prior, f.severity ≠ .error) ∧ r.WellFormed ∧
        (strict = true → (∀ f ∈ prior, f.severity ≠ .warning) ∧ r.Tidy) := by
  rw [exists_validate_iff, hasErrors_allFindings, Report.noErrors_append, noErrors_iff_severity,
    noErrors_check_iff, List.append_eq_nil_iff, check_eq_nil_iff, eq_nil_iff_severity]
  constructor
  · rintro ⟨⟨hprior, hwf⟩, hstrict⟩
    exact ⟨hprior, hwf, fun hs => ⟨(hstrict hs).1.2, (hstrict hs).2.2⟩⟩
  · rintro ⟨hprior, hwf, hstrict⟩
    exact ⟨⟨hprior, hwf⟩, fun hs => ⟨⟨hprior, (hstrict hs).1⟩, hwf, (hstrict hs).2⟩⟩

end AttributeRegistry.Registry
