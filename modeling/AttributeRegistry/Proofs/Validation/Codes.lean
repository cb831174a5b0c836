import AttributeRegistry.Resolution
import AttributeRegistry.Validation

/-!
# The codes of findings

Every check has codes of its own (`within_check`), so the findings of a code can be traced to the check
that makes them: those about cycles come from the cycles of the registry, one for each
(`withCode_cycle`). Merging has other codes, and conflicts are those of the merged keys
(`withCode_conflictingDefinition`).
-/

namespace AttributeRegistry

namespace Report

/-- A report whose findings have one of some codes. -/
def Within (cs : List Code) (p : Report) : Prop :=
  ∀ f ∈ p, f.code ∈ cs

variable {cs ds : List Code} {p q : Report}

@[simp] theorem within_nil : Within cs [] := by
  simp [Within]

@[simp] theorem within_cons {f : Finding} : Within cs (f :: p) ↔ f.code ∈ cs ∧ Within cs p :=
  List.forall_mem_cons

@[simp] theorem within_append : Within cs (p ++ q) ↔ Within cs p ∧ Within cs q :=
  List.forall_mem_append

theorem within_flatMap {α : Type} {as : List α} {f : α → Report} :
    Within cs (as.flatMap f) ↔ ∀ a ∈ as, Within cs (f a) :=
  List.forall_mem_flatMap

theorem Within.mono (h : Within cs p) (hsub : cs ⊆ ds) : Within ds p :=
  fun f hf => hsub (h f hf)

theorem withCode_append (c : Code) : (p ++ q).withCode c = p.withCode c ++ q.withCode c :=
  List.filter_append _ _

theorem withCode_eq_nil {c : Code} (h : Within cs p) (hc : c ∉ cs) : p.withCode c = [] := by
  rw [withCode, List.filter_eq_nil_iff]
  intro f hf hcode
  exact hc (of_decide_eq_true hcode ▸ h f hf)

theorem withCode_eq_self {c : Code} (h : Within [c] p) : p.withCode c = p := by
  rw [withCode, List.filter_eq_self]
  intro f hf
  exact decide_eq_true (List.mem_singleton.mp (h f hf))

/-- The findings of other codes. -/
def withoutCode (p : Report) (c : Code) : Report :=
  p.filter fun f => f.code ≠ c

theorem withoutCode_append (c : Code) : (p ++ q).withoutCode c = p.withoutCode c ++ q.withoutCode c :=
  List.filter_append _ _

theorem withoutCode_eq_nil {c : Code} (h : Within [c] p) : p.withoutCode c = [] := by
  rw [withoutCode, List.filter_eq_nil_iff]
  intro f hf hcode
  exact of_decide_eq_true hcode (List.mem_singleton.mp (h f hf))

theorem withoutCode_eq_self {c : Code} (h : Within cs p) (hc : c ∉ cs) : p.withoutCode c = p := by
  rw [withoutCode, List.filter_eq_self]
  intro f hf
  exact decide_eq_true fun hcode => hc (hcode ▸ h f hf)

end Report

open Report

/-! ## Merging -/

namespace Resolution

theorem within_conflicts (key : String) (fs : List Fragment) :
    Within [.conflictingDefinition] (conflicts key fs) := by
  unfold conflicts
  split
  · exact within_nil
  · rw [within_flatMap]
    intro other _
    unfold conflict
    split <;> simp [Finding.new]

theorem within_resolveVersion (given : Option Version) (declared : List Declared) :
    Within [.versionConflict] (resolveVersion given declared).2 := by
  unfold resolveVersion
  split
  · exact within_nil
  · split <;> simp [versionConflict, Finding.new]

/-- The conflicts among the findings of a merge are those of its keys, in their order. -/
theorem withCode_conflictingDefinition (given : Option Version) (fs : List Fragment)
    (declared : List Declared) :
    withCode (ofFragments given fs declared).findings .conflictingDefinition =
      (keys fs).flatMap fun key => conflicts key (declarationsOf fs key) := by
  have hconflicts : Within [.conflictingDefinition]
      ((keys fs).flatMap fun key => conflicts key (declarationsOf fs key)) :=
    within_flatMap.mpr fun key _ => within_conflicts key _
  show withCode ((resolveVersion given declared).2 ++ _) _ = _
  rw [withCode_append, withCode_eq_nil (within_resolveVersion given declared) (by decide),
    withCode_eq_self hconflicts, List.nil_append]

end Resolution

/-! ## One attribute -/

namespace Attribute

/-- The codes of what is found about an attribute alone. -/
def ownCodes : List Code :=
  [.invalidKey, .emptyBrief, .invalidEnum, .missingExamples, .exampleTypeMismatch,
    .redundantConstraint, .unknownSignalKind, .unsatisfiableConstraint]

variable {a : Attribute}

theorem within_keyFindings : Within [.invalidKey] a.keyFindings := by
  unfold keyFindings
  split <;> simp [Finding.new]

theorem within_briefFindings : Within [.emptyBrief] a.briefFindings := by
  unfold briefFindings
  split <;> simp [finding, Finding.new]

theorem within_enumFindings : Within [.invalidEnum] a.enumFindings := by
  unfold enumFindings
  split
  · exact within_nil
  · rw [within_append]
    constructor
    · split
      · simp [finding, Finding.new]
      · split <;> simp [finding, Finding.new]
    · intro f hf
      obtain ⟨id, -, rfl⟩ := List.mem_map.mp hf
      exact List.mem_singleton.mpr rfl

theorem within_exampleFindings :
    Within [.missingExamples, .exampleTypeMismatch] a.exampleFindings := by
  unfold exampleFindings
  split
  · simp [finding, Finding.new]
  · intro f hf
    obtain ⟨⟨e, i⟩, -, hf⟩ := List.mem_filterMap.mp hf
    dsimp only at hf
    split at hf
    · cases hf
    · cases hf
      simp [finding, Finding.new]

theorem within_signalFindings (names : List String) :
    Within [.redundantConstraint, .unknownSignalKind] (a.signalFindings names) := by
  intro f hf
  obtain ⟨⟨name, i⟩, -, hf⟩ := List.mem_filterMap.mp hf
  dsimp only [signalFinding?] at hf
  split at hf
  · split at hf
    · cases hf
      simp [finding, Finding.new]
    · cases hf
  · cases hf
    simp [Finding.new]

theorem within_constraintsFindings :
    Within [.redundantConstraint, .unknownSignalKind, .unsatisfiableConstraint]
      a.constraintsFindings := by
  have hsub : [Code.redundantConstraint, .unknownSignalKind] ⊆
      [.redundantConstraint, .unknownSignalKind, .unsatisfiableConstraint] := by
    decide
  unfold constraintsFindings
  rw [within_append, within_flatMap]
  constructor
  · intro c _
    unfold constraintFindings
    rw [within_append, within_append]
    refine ⟨⟨?_, (within_signalFindings _).mono hsub⟩, (within_signalFindings _).mono hsub⟩
    split <;> simp [finding, Finding.new]
  · split <;> simp [finding, Finding.new]

theorem within_ownFindings : Within ownCodes a.ownFindings := by
  unfold ownFindings
  simp only [within_append]
  exact ⟨⟨⟨⟨within_keyFindings.mono (by decide), within_briefFindings.mono (by decide)⟩,
    within_enumFindings.mono (by decide)⟩, within_exampleFindings.mono (by decide)⟩,
    within_constraintsFindings.mono (by decide)⟩

end Attribute

/-! ## The registry -/

namespace Registry

/-- The codes of what is found about an attribute's replacement. -/
def replacementCodes : List Code :=
  [.missingDeprecatedBy, .unexpectedDeprecatedBy, .danglingDeprecation]

variable {r : Registry}

theorem within_replacementFindings (a : Attribute) :
    Within replacementCodes (r.replacementFindings a) := by
  unfold replacementFindings replacementCodes
  split
  · simp [Finding.new]
  · exact within_nil
  · simp [Finding.new]
  · split <;> simp [Finding.new]

theorem within_cycleFinding (cycle : List String) :
    Within [.deprecationCycle] (cycleFinding cycle) := by
  unfold cycleFinding
  split <;> simp [Finding.new]

theorem within_chainFindings (onCycle : List String) (a : Attribute) :
    Within [.deprecationChain] (r.chainFindings onCycle a) := by
  unfold chainFindings
  split
  · exact within_nil
  · split
    · exact within_nil
    · split <;> simp [Finding.new]

theorem within_collisionFindings : Within [.constantNameCollision] r.collisionFindings := by
  intro f hf
  obtain ⟨⟨name, keys⟩, -, hf⟩ := List.mem_filterMap.mp hf
  obtain ⟨key, -, rfl⟩ := Option.map_eq_some_iff.mp hf
  exact List.mem_singleton.mpr rfl

theorem within_attributes :
    Within (Attribute.ownCodes ++ replacementCodes)
      (r.attributes.flatMap fun a => a.ownFindings ++ r.replacementFindings a) := by
  rw [within_flatMap]
  intro a _
  rw [within_append]
  exact ⟨Attribute.within_ownFindings.mono (List.subset_append_left _ _),
    (within_replacementFindings a).mono (List.subset_append_right _ _)⟩

theorem within_cycles (cycles : List (List String)) :
    Within [.deprecationCycle] (cycles.flatMap cycleFinding) :=
  within_flatMap.mpr fun c _ => within_cycleFinding c

theorem within_chains (onCycle : List String) :
    Within [.deprecationChain] (r.deprecated.flatMap (r.chainFindings onCycle)) :=
  within_flatMap.mpr fun a _ => within_chainFindings onCycle a

/-- The codes of the checks. -/
def checkCodes : List Code :=
  Attribute.ownCodes ++ replacementCodes ++ [.deprecationCycle, .deprecationChain,
    .constantNameCollision]

/-- **The checks find nothing but what has their codes.** -/
theorem within_check : Within checkCodes r.check := by
  unfold check graphFindings
  simp only [within_append]
  exact ⟨⟨within_attributes.mono (by decide), (within_cycles _).mono (by decide),
    (within_chains _).mono (by decide)⟩, within_collisionFindings.mono (by decide)⟩

/-- The findings about cycles are those of the registry's cycles. -/
theorem withCode_cycle : Report.withCode r.check .deprecationCycle = r.cycles.flatMap cycleFinding := by
  unfold check graphFindings
  rw [withCode_append, withCode_append, withCode_append,
    withCode_eq_nil within_attributes (by decide), withCode_eq_self (within_cycles _),
    withCode_eq_nil (within_chains _) (by decide),
    withCode_eq_nil within_collisionFindings (by decide), List.nil_append, List.append_nil,
    List.append_nil]

end Registry

end AttributeRegistry
