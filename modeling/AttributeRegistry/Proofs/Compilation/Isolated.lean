import AttributeRegistry.Proofs.Compilation.Permuted
import AttributeRegistry.Proofs.Validation.Codes

/-!
# Malformed documents affect nothing else

A source that breaks the grammar gives its problems, all with one code that no other finding has, and
nothing to merge. Sorting keeps apart what is of that code and what is not (`filter_sort`). So what is
reported is the problems of the malformed sources, and beside them, in order, what is reported about
the others alone (`compile_isolated`).
-/

namespace AttributeRegistry

open Ordered Report

/-- The sources that follow the grammar. -/
def wellFormedSources (ss : List Source) : List Source :=
  ss.filter fun s => s.parse.isOk

/-- The sources that do not. -/
def malformedSources (ss : List Source) : List Source :=
  ss.filter fun s => !s.parse.isOk

/-- What compiling reports: all findings, or the warnings about the valid registry. -/
def reported : Except Report ValidRegistry → Report
  | .ok v => v.warnings
  | .error findings => findings

/-! ## Loading -/

namespace Source

variable {s : Source}

/-- A source has problems iff it gives no document. -/
theorem problems_eq_nil_iff : s.problems = [] ↔ s.parse.isOk := by
  unfold problems
  cases hparse : s.parse with
  | ok d => simp [Except.isOk, Except.toBool]
  | error problems =>
    have hne : problems ≠ [] := by
      unfold parse at hparse
      split at hparse
      · cases hparse
        exact List.cons_ne_nil _ _
      · dsimp only at hparse
        split at hparse
        · cases hparse
        · next hproblems =>
          cases hparse
          exact hproblems
    simp [Except.isOk, Except.toBool, hne]

theorem within_problems (s : Source) : Within [.malformedSchema] s.problems := by
  intro f hf
  obtain ⟨message, context, rfl⟩ := exists_problem_of_mem_problems hf
  exact List.mem_singleton.mpr rfl

theorem severity_of_mem_problems {f : Finding} (h : f ∈ s.problems) : f.severity = .error := by
  obtain ⟨message, context, rfl⟩ := exists_problem_of_mem_problems h
  rfl

end Source

/-- Only malformed sources have problems. -/
theorem findings_eq_malformed (ss : List Source) :
    (Loaded.ofSources ss).findings = (malformedSources ss).flatMap Source.problems := by
  rw [findings_eq, malformedSources]
  induction ss with
  | nil => rfl
  | cons s ss ih =>
    by_cases hok : s.parse.isOk = true
    · rw [List.flatMap_cons, Source.problems_eq_nil_iff.mpr hok, List.filter_cons_of_neg (by simp [hok]),
        ih, List.nil_append]
    · rw [List.flatMap_cons, List.filter_cons_of_pos (by simp [hok]), List.flatMap_cons, ih]

/-- Malformed sources give no documents. -/
theorem documents_wellFormedSources (ss : List Source) :
    (Loaded.ofSources (wellFormedSources ss)).documents = (Loaded.ofSources ss).documents := by
  show (wellFormedSources ss).filterMap (fun s => s.parse.toOption) =
    ss.filterMap fun s => s.parse.toOption
  unfold wellFormedSources
  rw [List.filterMap_filter]
  congr 1
  funext s
  cases s.parse <;> rfl

/-! ## Merging -/

namespace Resolution

/-- The codes of what is wrong with declarations. -/
def mergeCodes : List Code :=
  [.conflictingDefinition, .versionConflict]

theorem within_findings (given : Option Version) (docs : List Document) :
    Within mergeCodes (ofDocuments given docs).findings := by
  show Within mergeCodes ((resolveVersion given _).2 ++ _)
  rw [within_append, within_flatMap]
  exact ⟨(within_resolveVersion _ _).mono (by decide), fun key _ =>
    (within_conflicts key _).mono (by decide)⟩

end Resolution

/-! ## Reporting -/

theorem reported_validate (r : Registry) (prior : Report) (strict : Bool) :
    reported (r.validate prior strict) = r.allFindings prior strict := by
  unfold Registry.validate
  by_cases herrors : (r.allFindings prior strict).hasErrors = true
  · rw [if_pos herrors, reported]
  · rw [if_neg herrors, reported]

/-- Errors stay as they are when warnings become errors. -/
theorem promoteWarnings_eq_self {p : Report} (h : ∀ f ∈ p, f.severity = .error) :
    promoteWarnings p = p := by
  have hsame : ∀ f ∈ p, ({ f with severity := .error } : Finding) = f := by
    intro f hf
    rw [← h f hf]
  exact (List.map_congr_left hsame).trans (List.map_id p)

/-- **A report splits into what is of a code and what is not**: errors found before that have a code of
their own are all that is reported of that code, and the rest is what would be reported without them. -/
theorem allFindings_split (r : Registry) {c : Code} {cs : List Code} {p q : Report} (strict : Bool)
    (hp : Within [c] p) (herror : ∀ f ∈ p, f.severity = .error) (hq : Within cs q) (hc : c ∉ cs)
    (hcheck : c ∉ Registry.checkCodes) :
    ((r.allFindings (p ++ q) strict).withCode c).Perm p ∧
      (r.allFindings (p ++ q) strict).withoutCode c = r.allFindings q strict := by
  -- severities play no part in sorting and filtering
  have hsplit : ∀ q', Within (cs ++ Registry.checkCodes) q' →
      ((Report.sort (p ++ q')).withCode c).Perm p ∧
        (Report.sort (p ++ q')).withoutCode c = Report.sort q' := by
    intro q' hq'
    have hother : c ∉ cs ++ Registry.checkCodes := by
      rw [List.mem_append, not_or]
      exact ⟨hc, hcheck⟩
    constructor
    · have hperm := ((perm_sort Finding.compare (p ++ q')).filter fun f => f.code = c)
      have hfilter : Report.withCode (p ++ q') c = p := by
        rw [withCode_append, withCode_eq_self hp, withCode_eq_nil hq' hother, List.append_nil]
      exact hperm.trans (List.Perm.of_eq hfilter)
    · have hfilter : Report.withoutCode (p ++ q') c = q' := by
        rw [withoutCode_append, withoutCode_eq_nil hp, withoutCode_eq_self hq' hother,
          List.nil_append]
      exact (filter_sort _ _).trans (congrArg Report.sort hfilter)
  have hrest : Within (cs ++ Registry.checkCodes) (q ++ r.check) :=
    within_append.mpr ⟨hq.mono (List.subset_append_left _ _),
      Registry.within_check.mono (List.subset_append_right _ _)⟩
  unfold Registry.allFindings
  dsimp only
  rw [List.append_assoc]
  cases strict with
  | false => exact hsplit _ hrest
  | true =>
    have happend : promoteWarnings (p ++ (q ++ r.check)) = p ++ promoteWarnings (q ++ r.check) := by
      rw [promoteWarnings, List.map_append]
      exact congrArg (· ++ _) (promoteWarnings_eq_self herror)
    rw [if_pos rfl, if_pos rfl, happend]
    exact hsplit _ (List.forall_mem_map.mpr hrest)

/-- Errors found before are enough to fail. -/
theorem validate_error_of_mem {r : Registry} {prior : Report} {f : Finding} (strict : Bool)
    (hf : f ∈ prior) (herror : f.severity = .error) :
    ∃ findings, r.validate prior strict = .error findings := by
  cases hv : r.validate prior strict with
  | error findings => exact ⟨findings, rfl⟩
  | ok v =>
    have hno := (Registry.hasErrors_allFindings.mp (Registry.validate_eq_ok_iff.mp hv).1).1
    have hfalse := hno f (List.mem_append_left _ hf)
    rw [Finding.isError, herror] at hfalse
    exact absurd hfalse (by decide)

theorem compile_eq_malformed (ss : List Source) (given : Option Version) (strict : Bool) :
    compile ss given strict =
      (Resolution.ofDocuments given (Loaded.ofSources ss).documents).registry.validate
        ((malformedSources ss).flatMap Source.problems
          ++ (Resolution.ofDocuments given (Loaded.ofSources ss).documents).findings) strict := by
  rw [← findings_eq_malformed]
  rfl

theorem malformedSources_wellFormedSources (ss : List Source) :
    malformedSources (wellFormedSources ss) = [] := by
  rw [malformedSources, wellFormedSources, List.filter_filter, List.filter_eq_nil_iff]
  simp

/-- **A malformed document affects nothing but its own report.** If there are malformed sources then
compiling fails, their problems are all that is reported as such, and what is reported besides is what
compiling the other sources alone reports. -/
theorem compile_isolated (ss : List Source) (given : Option Version) (strict : Bool) :
    (malformedSources ss ≠ [] → ∃ findings, compile ss given strict = .error findings) ∧
    ((reported (compile ss given strict)).withCode .malformedSchema).Perm
      ((malformedSources ss).flatMap Source.problems) ∧
    (reported (compile ss given strict)).withoutCode .malformedSchema =
      reported (compile (wellFormedSources ss) given strict) := by
  have hwithin : Within [.malformedSchema] ((malformedSources ss).flatMap Source.problems) :=
    within_flatMap.mpr fun s _ => s.within_problems
  have herror : ∀ f ∈ (malformedSources ss).flatMap Source.problems, f.severity = .error := by
    intro f hf
    obtain ⟨s, -, hf⟩ := List.mem_flatMap.mp hf
    exact Source.severity_of_mem_problems hf
  rw [compile_eq_malformed, compile_eq_malformed (wellFormedSources ss), documents_wellFormedSources,
    malformedSources_wellFormedSources, List.flatMap_nil, List.nil_append, reported_validate,
    reported_validate]
  constructor
  · intro hne
    obtain ⟨s, hs⟩ := List.exists_mem_of_ne_nil _ hne
    have hproblems : s.problems ≠ [] := by
      rw [Ne, Source.problems_eq_nil_iff]
      simpa using (List.mem_filter.mp hs).2
    obtain ⟨f, hf⟩ := List.exists_mem_of_ne_nil _ hproblems
    have hmem : f ∈ (malformedSources ss).flatMap Source.problems :=
      List.mem_flatMap.mpr ⟨s, hs, hf⟩
    exact validate_error_of_mem strict (List.mem_append_left _ hmem) (herror f hmem)
  · exact allFindings_split _ strict hwithin herror (Resolution.within_findings given _) (by decide)
      (by decide)

/-- A document between two that disagree, which lacks a version's digits and an attribute's type. -/
private def among : List Source :=
  [⟨"a.yaml", .yaml,
      "attributes: [{key: db.rows, type: int, brief: D, examples: [2], stability: stable}]"⟩,
   ⟨"b.yaml", .yaml,
      "version: new\nattributes: [{key: db.rows, brief: D, examples: [2], stability: stable}]"⟩,
   ⟨"c.yaml", .yaml,
      "attributes: [{key: db.rows, type: double, brief: D, examples: [2.5], stability: stable}]"⟩]

/-- The malformed document declares the same attribute, and plays no part in the conflict about it. -/
theorem compile_isolated_among :
    malformedSources among ≠ [] ∧ (∃ findings, compile among none false = .error findings) ∧
      ((reported (compile among none false)).withCode .malformedSchema).Perm
        ((malformedSources among).flatMap Source.problems) ∧
      (reported (compile among none false)).withoutCode .malformedSchema =
        reported (compile (wellFormedSources among) none false) := by
  have hne : malformedSources among ≠ [] := by decide +kernel
  have hisolated := compile_isolated among none false
  exact ⟨hne, hisolated.1 hne, hisolated.2⟩

end AttributeRegistry
