import AttributeRegistry.Proofs.Validation.Complete
import AttributeRegistry.Proofs.Validation.Flaws
import Mathlib.Data.List.Basic

/-!
# The signals of an attribute

A signal is left to an attribute if no constraint forbids it and each one that restricts to some signals
names it (`mem_allowedSignals`). So only the names in the lists of the constraints count, and more
constraints leave fewer signals (`allowedSignals_sublist`).

A registry is asked for the attributes of a signal, an attribute for its signals, and validation whether
any signal is left. Main statement: the three agree, and no attribute of a validated registry is without
a signal (`signals_agree`).
-/

namespace AttributeRegistry

/-- Constraints that list the same names on each side, in whatever order and however often. -/
def Constraint.SameNames (c d : Constraint) : Prop :=
  ∀ (side : Constraint.Side) (name : String), name ∈ c.names side ↔ name ∈ d.names side

theorem Constraint.SameNames.symm {c d : Constraint} (h : c.SameNames d) : d.SameNames c :=
  fun side name => (h side name).symm

/-- What a constraint permits depends on the names it lists. -/
theorem Constraint.SameNames.permits {c d : Constraint} {s : Signal} (h : c.SameNames d)
    (hd : d.Permits s) : c.Permits s := by
  have hnotOn : ∀ name, name ∈ c.notOn ↔ name ∈ d.notOn := h .notOn
  have honlyOn : ∀ name, name ∈ c.onlyOn ↔ name ∈ d.onlyOn := h .onlyOn
  refine ⟨fun name hname => hd.1 name ((hnotOn name).mp hname), ?_⟩
  rcases hd.2 with hnil | ⟨name, hname, hparse⟩
  · refine .inl (List.eq_nil_iff_forall_not_mem.mpr fun name hname => ?_)
    rw [honlyOn, hnil] at hname
    exact List.not_mem_nil hname
  · exact .inr ⟨name, (honlyOn name).mpr hname, hparse⟩

namespace Attribute

variable {a b : Attribute} {s : Signal}

theorem mem_allowedSignals_iff_permits :
    s ∈ a.allowedSignals ↔ ∀ c ∈ a.constraints, c.Permits s := by
  rw [allowedSignals, List.mem_filter, allows_iff]
  exact and_iff_right s.mem_all

/-- **The signals left to an attribute** are those that no constraint forbids and that every constraint
with a list of allowed ones names there. -/
theorem mem_allowedSignals : s ∈ a.allowedSignals ↔
    (∀ c ∈ a.constraints, ∀ name ∈ c.notOn, ¬ s.Named name) ∧
      ∀ c ∈ a.constraints, c.onlyOn ≠ [] → ∃ name ∈ c.onlyOn, s.Named name := by
  rw [mem_allowedSignals_iff_permits, ← forall₂_and]
  refine forall₂_congr fun c _ => ?_
  simp only [Constraint.Permits, ne_eq, Signal.parse_eq_some_iff, or_iff_not_imp_left]

/-- **More constraints leave fewer signals**, whatever the order of constraints and names is and however
often they are given. -/
theorem allowedSignals_sublist (h : ∀ c ∈ a.constraints, ∃ d ∈ b.constraints, c.SameNames d) :
    b.allowedSignals.Sublist a.allowedSignals := by
  refine List.monotone_filter_right Signal.all fun s hs => ?_
  rw [allows_iff] at hs ⊢
  intro c hc
  obtain ⟨d, hd, hcd⟩ := h c hc
  exact hcd.permits (hs d hd)

theorem allowedSignals_eq (hab : ∀ c ∈ a.constraints, ∃ d ∈ b.constraints, c.SameNames d)
    (hba : ∀ d ∈ b.constraints, ∃ c ∈ a.constraints, d.SameNames c) :
    a.allowedSignals = b.allowedSignals :=
  (allowedSignals_sublist hba).antisymm (allowedSignals_sublist hab)

end Attribute

namespace Registry

variable {r : Registry} {s : Signal} {a : Attribute}

/-- A registry and an attribute answer alike whether the attribute may be used on a signal. -/
theorem mem_attributesFor :
    a ∈ r.attributesFor s ↔ a ∈ r.attributes ∧ s ∈ a.allowedSignals := by
  rw [attributesFor, List.mem_filter, Attribute.allows_iff, Attribute.mem_allowedSignals_iff_permits]

/-- The attributes of a signal come in the order of their keys, each once. -/
theorem pairwise_attributesFor (r : Registry) (s : Signal) :
    ((r.attributesFor s).map Attribute.key).Pairwise fun k l => compare k l = .lt :=
  List.pairwise_map.mpr (r.pairwise_attributes.sublist List.filter_sublist)

/-- No attribute of a well-formed registry is without a signal. -/
theorem WellFormed.exists_mem_attributesFor (hwf : r.WellFormed) (ha : a ∈ r.attributes) :
    ∃ s, a ∈ r.attributesFor s := by
  obtain ⟨s, hs⟩ := (hwf.attributes a ha).satisfiable
  exact ⟨s, mem_attributesFor.mpr ⟨ha, Attribute.mem_allowedSignals_iff_permits.mpr hs⟩⟩

/-- **Every way to ask for signals agrees with the constraints.** The signals of an attribute are those
that its constraints leave, and depend on neither the order nor the repetition of constraints and names;
further constraints add none. In a validated registry the attributes of a signal are those that have it
among theirs, in the order of their keys, and every attribute has one. -/
theorem signals_agree :
    (∀ (a : Attribute) (s : Signal), s ∈ a.allowedSignals ↔
      (∀ c ∈ a.constraints, ∀ name ∈ c.notOn, ¬ s.Named name) ∧
        ∀ c ∈ a.constraints, c.onlyOn ≠ [] → ∃ name ∈ c.onlyOn, s.Named name) ∧
    (∀ a b : Attribute, (∀ c ∈ a.constraints, ∃ d ∈ b.constraints, c.SameNames d) →
      b.allowedSignals.Sublist a.allowedSignals ∧
        ((∀ d ∈ b.constraints, ∃ c ∈ a.constraints, d.SameNames c) →
          a.allowedSignals = b.allowedSignals)) ∧
    ∀ (r : Registry) (prior : Report) (strict : Bool) (v : ValidRegistry),
      r.validate prior strict = .ok v →
        (∀ s, (∀ a, a ∈ v.registry.attributesFor s ↔
            a ∈ v.registry.attributes ∧ s ∈ a.allowedSignals) ∧
          ((v.registry.attributesFor s).map Attribute.key).Pairwise fun k l => compare k l = .lt) ∧
        ∀ a ∈ v.registry.attributes, ∃ s, a ∈ v.registry.attributesFor s := by
  refine ⟨fun _ _ => Attribute.mem_allowedSignals, fun a b hab => ⟨?_, ?_⟩, fun r prior strict v h => ?_⟩
  · exact Attribute.allowedSignals_sublist hab
  · exact Attribute.allowedSignals_eq hab
  · have hwf := wellFormed_of_validate h
    exact ⟨fun s => ⟨fun _ => mem_attributesFor, pairwise_attributesFor _ s⟩,
      fun a ha => hwf.exists_mem_attributesFor ha⟩

/-- An attribute with names of signals in several spellings. -/
private def spelled : Attribute :=
  { Attribute.new "host.id" (.primitive (.scalar .string)) "The host." [.text "a1"] with
    constraints := [⟨[" Profile"], ["LOG", "trace"], none⟩, ⟨["profile", "METRIC"], [], none⟩] }

/-- The attribute with its constraints in the other order, and with names repeated. -/
private def respelled : Attribute :=
  { spelled with
    constraints := [⟨["METRIC", "profile", "METRIC"], [], none⟩,
      ⟨[" Profile"], ["trace", "LOG", "trace"], none⟩] }

/-- A registry with an attribute that has constraints and one that has none. -/
private def constrained : Registry :=
  { version := .release 1 0 0
    entries :=
      [⟨spelled, []⟩,
        ⟨Attribute.new "host.name" (.primitive (.scalar .string)) "Its name." [.text "a"], []⟩]
    ordered := by decide }

/-- Signals of attributes that spell, order and repeat the same names differently. -/
theorem signals_agree_constrained :
    (∀ c ∈ spelled.constraints, ∃ d ∈ respelled.constraints, c.SameNames d) ∧
    (∀ d ∈ respelled.constraints, ∃ c ∈ spelled.constraints, d.SameNames c) ∧
    spelled.allowedSignals = respelled.allowedSignals ∧
    ∃ v, constrained.validate [] false = .ok v ∧
      (∀ s, (∀ a, a ∈ v.registry.attributesFor s ↔
          a ∈ v.registry.attributes ∧ s ∈ a.allowedSignals) ∧
        ((v.registry.attributesFor s).map Attribute.key).Pairwise fun k l => compare k l = .lt) ∧
      ∀ a ∈ v.registry.attributes, ∃ s, a ∈ v.registry.attributesFor s := by
  have hfirst : (⟨[" Profile"], ["LOG", "trace"], none⟩ : Constraint).SameNames
      ⟨[" Profile"], ["trace", "LOG", "trace"], none⟩ := by
    rintro (_ | _) name
    · rfl
    · simp only [Constraint.names, List.mem_cons]
      tauto
  have hsecond : (⟨["profile", "METRIC"], [], none⟩ : Constraint).SameNames
      ⟨["METRIC", "profile", "METRIC"], [], none⟩ := by
    rintro (_ | _) name
    · simp only [Constraint.names, List.mem_cons]
      tauto
    · rfl
  have hab : ∀ c ∈ spelled.constraints, ∃ d ∈ respelled.constraints, c.SameNames d := by
    rw [spelled, List.forall_mem_cons, List.forall_mem_singleton]
    exact ⟨⟨_, List.mem_cons_of_mem _ List.mem_cons_self, hfirst⟩, ⟨_, List.mem_cons_self, hsecond⟩⟩
  have hba : ∀ d ∈ respelled.constraints, ∃ c ∈ spelled.constraints, d.SameNames c := by
    rw [respelled, List.forall_mem_cons, List.forall_mem_singleton]
    exact ⟨⟨_, List.mem_cons_of_mem _ List.mem_cons_self, hsecond.symm⟩,
      ⟨_, List.mem_cons_self, hfirst.symm⟩⟩
  have hown : ∀ a ∈ constrained.attributes, ∀ f ∈ a.ownFindings, f.isError = false := by
    decide
  have hrule : ∀ a ∈ constrained.attributes, constrained.FollowsReplacementRule a := by
    unfold constrained attributes
    simp only [List.map_cons, List.map_nil, List.forall_mem_cons, List.not_mem_nil, false_implies,
      implies_true, and_true]
    exact ⟨⟨nofun, fun _ => rfl⟩, ⟨nofun, fun _ => rfl⟩⟩
  have hwf : constrained.WellFormed :=
    ⟨fun a ha => Attribute.noErrors_ownFindings.mp (hown a ha), hrule, by decide⟩
  obtain ⟨v, hv⟩ := hwf.exists_validate
  exact ⟨hab, hba, (signals_agree.2.1 spelled respelled hab).2 hba, v, hv,
    signals_agree.2.2 constrained [] false v hv⟩

end Registry

end AttributeRegistry
