import AttributeRegistry.Validation

/-!
# When a registry is accepted

A registry is accepted iff nothing that was found, before or by the checks, is an error; if warnings
count as errors, iff nothing was found at all (`validate_eq_ok_iff`).
-/

namespace AttributeRegistry

/-! ## Reports without errors -/

namespace Report

/-- A report without errors. -/
def NoErrors (p : Report) : Prop :=
  ∀ f ∈ p, f.isError = false

theorem noErrors_nil : NoErrors [] := by
  simp [NoErrors]

theorem noErrors_append {p q : Report} : NoErrors (p ++ q) ↔ NoErrors p ∧ NoErrors q :=
  List.forall_mem_append

theorem noErrors_flatMap {α : Type} {as : List α} {p : α → Report} :
    NoErrors (as.flatMap p) ↔ ∀ a ∈ as, NoErrors (p a) :=
  List.forall_mem_flatMap

theorem isError_of_mem_singleton {f g : Finding} {b : Bool} (h : f ∈ [g]) (hg : g.isError = b) :
    f.isError = b := by
  rw [List.mem_singleton.mp h]
  exact hg

/-- A report of errors only has none iff it is empty. -/
theorem noErrors_iff_eq_nil {p : Report} (h : ∀ f ∈ p, f.isError = true) :
    NoErrors p ↔ p = [] := by
  constructor
  · intro hno
    refine List.eq_nil_iff_forall_not_mem.mpr ?_
    intro f hf
    have hfalse := hno f hf
    rw [h f hf] at hfalse
    exact absurd hfalse (by decide)
  · rintro rfl
    exact noErrors_nil

end Report

/-! ## Accepting -/

theorem Report.hasErrors_eq_false_iff {p : Report} :
    p.hasErrors = false ↔ p.NoErrors := by
  rw [hasErrors, List.any_eq_false]
  simp only [Bool.not_eq_true]
  rfl

theorem Report.hasErrors_sort (p : Report) : (Report.sort p).hasErrors = p.hasErrors := by
  rw [Bool.eq_iff_iff, hasErrors, hasErrors, List.any_eq_true, List.any_eq_true]
  simp only [Report.sort, Ordered.mem_sort]

theorem Report.hasErrors_promoteWarnings {p : Report} :
    (Report.promoteWarnings p).hasErrors = false ↔ p = [] := by
  rw [hasErrors_eq_false_iff]
  constructor
  · intro h
    cases p with
    | nil => rfl
    | cons f p =>
      have hf : Finding.isError { f with severity := .error } = false := h _ (by simp [promoteWarnings])
      exact absurd hf (by simp [Finding.isError])
  · rintro rfl f hf
    simp [promoteWarnings] at hf

namespace Registry

/-- The report of a registry has no error iff nothing that was found is one, and nothing was found
at all if warnings count. -/
theorem hasErrors_allFindings {r : Registry} {prior : Report} {strict : Bool} :
    (r.allFindings prior strict).hasErrors = false ↔
      Report.NoErrors (prior ++ r.check) ∧ (strict = true → prior ++ r.check = []) := by
  unfold allFindings
  rw [Report.hasErrors_sort]
  cases strict with
  | false =>
    rw [if_neg (by simp), Report.hasErrors_eq_false_iff]
    simp
  | true =>
    rw [if_pos rfl, Report.hasErrors_promoteWarnings]
    constructor
    · intro h
      rw [h]
      exact ⟨Report.noErrors_nil, fun _ => rfl⟩
    · intro h
      exact h.2 rfl

/-- **A registry is accepted iff its report has no error**; it comes with that report. -/
theorem validate_eq_ok_iff {r : Registry} {prior : Report} {strict : Bool} {v : ValidRegistry} :
    r.validate prior strict = .ok v ↔
      (r.allFindings prior strict).hasErrors = false ∧ v = ⟨r, r.allFindings prior strict⟩ := by
  unfold validate
  by_cases h : (r.allFindings prior strict).hasErrors = true
  · simp [h]
  · rw [if_neg h, Except.ok.injEq, Bool.eq_false_iff, eq_comm]
    simp [h]

theorem registry_of_validate {r : Registry} {prior : Report} {strict : Bool} {v : ValidRegistry}
    (h : r.validate prior strict = .ok v) : v.registry = r := by
  rw [(validate_eq_ok_iff.mp h).2]

theorem exists_validate_iff {r : Registry} {prior : Report} {strict : Bool} :
    (∃ v, r.validate prior strict = .ok v) ↔ (r.allFindings prior strict).hasErrors = false := by
  constructor
  · rintro ⟨v, hv⟩
    exact (validate_eq_ok_iff.mp hv).1
  · intro h
    exact ⟨_, validate_eq_ok_iff.mpr ⟨h, rfl⟩⟩

end Registry

end AttributeRegistry
