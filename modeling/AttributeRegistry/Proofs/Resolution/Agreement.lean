import AttributeRegistry.Proofs.Attribute.Encoding
import AttributeRegistry.Proofs.Resolution.Unanimous

/-!
# Checksums and fields agree on what is the same

Declarations are merged if their checksums are the same, and a conflict names the fields that differ.
The two notions agree on definitions that have a checksum of their own, if the examples are the same
exactly where they are written alike (`agree_iff`). Where they agree, a conflict is reported for
a key exactly if two of its declarations differ in a field, and every conflict names one
(`conflicts_of_agree`).

They do not agree on the two zeros, which are equal but are written differently (`not_agree_zeros`).
-/

namespace AttributeRegistry

/-- The checksums of two definitions are the same exactly if no field differs. -/
def Agree (a b : Attribute) : Prop :=
  a.checksum = b.checksum ↔ Resolution.differingFields a b = []

namespace Resolution

variable {a b : Attribute}

/-! ## Two definitions -/

/-- All fields but the key and the examples are the same. -/
structure SameApart (a b : Attribute) : Prop where
  type : a.type = b.type
  brief : a.brief = b.brief
  notes : a.notes = b.notes
  stability : a.stability = b.stability
  deprecatedBy : a.deprecatedBy = b.deprecatedBy
  constraints : a.constraints = b.constraints

theorem differingFields_subset_iff : differingFields a b ⊆ ["examples"] ↔ SameApart a b := by
  have hnone : ∀ (c : Prop) [Decidable c] (name : String), name ≠ "examples" →
      ((if c then [] else [name]) ⊆ ["examples"] ↔ c) := by
    intro c _ name hne
    split <;> simp_all
  have hsome : ∀ (c : Prop) [Decidable c], (if c then [] else ["examples"]) ⊆ ["examples"] := by
    intro c _
    split <;> simp
  unfold differingFields
  simp only [List.append_subset, hsome, and_true]
  rw [hnone _ _ (by decide), hnone _ _ (by decide), hnone _ _ (by decide), hnone _ _ (by decide),
    hnone _ _ (by decide), hnone _ _ (by decide)]
  constructor
  · rintro ⟨⟨⟨⟨⟨htype, hbrief⟩, hnotes⟩, hstability⟩, hby⟩, hconstraints⟩
    exact ⟨htype, hbrief, hnotes, hstability, hby, hconstraints⟩
  · rintro ⟨htype, hbrief, hnotes, hstability, hby, hconstraints⟩
    exact ⟨⟨⟨⟨⟨htype, hbrief⟩, hnotes⟩, hstability⟩, hby⟩, hconstraints⟩

theorem differingFields_eq_nil_iff : differingFields a b = [] ↔
    SameApart a b ∧ Example.sameItems a.examples b.examples = true := by
  unfold differingFields
  simp only [List.append_eq_nil_iff, Example.beq_list, ite_eq_left_iff, List.cons_ne_nil, imp_false,
    not_not]
  constructor
  · rintro ⟨⟨⟨⟨⟨⟨htype, hbrief⟩, hnotes⟩, hexamples⟩, hstability⟩, hby⟩, hconstraints⟩
    exact ⟨⟨htype, hbrief, hnotes, hstability, hby, hconstraints⟩, hexamples⟩
  · rintro ⟨⟨htype, hbrief, hnotes, hstability, hby, hconstraints⟩, hexamples⟩
    exact ⟨⟨⟨⟨⟨⟨htype, hbrief⟩, hnotes⟩, hexamples⟩, hstability⟩, hby⟩, hconstraints⟩

theorem checksum_eq_iff (hkey : a.key = b.key)
    (hdigest : a.checksum = b.checksum → a.toJson.toText = b.toJson.toText) :
    a.checksum = b.checksum ↔ SameApart a b ∧ Example.AlikeItems a.examples b.examples := by
  have htext : a.checksum = b.checksum ↔ a.toJson.toText = b.toJson.toText :=
    ⟨hdigest, fun h => congrArg Checksum.ofText h⟩
  rw [htext, Attribute.toText_eq_iff]
  constructor
  · intro h
    exact ⟨⟨h.type, h.brief, h.notes, h.stability, h.deprecatedBy, h.constraints⟩, h.examples⟩
  · rintro ⟨h, hexamples⟩
    exact ⟨hkey, h.type, h.brief, h.notes, hexamples, h.stability, h.deprecatedBy, h.constraints⟩

/-- **Checksums and fields agree exactly if, unless another field differs, the examples are the same
where they are written alike.** -/
theorem agree_iff (hkey : a.key = b.key)
    (hdigest : a.checksum = b.checksum → a.toJson.toText = b.toJson.toText) :
    Agree a b ↔ (differingFields a b ⊆ ["examples"] →
      (Example.sameItems a.examples b.examples = true ↔ Example.AlikeItems a.examples b.examples)) := by
  rw [Agree, checksum_eq_iff hkey hdigest, differingFields_eq_nil_iff, differingFields_subset_iff,
    and_congr_right_iff]
  exact imp_congr_right fun _ => iff_comm

theorem agree_of_ordinary (hkey : a.key = b.key)
    (hdigest : a.checksum = b.checksum → a.toJson.toText = b.toJson.toText)
    (ha : Example.OrdinaryItems a.examples) (hb : Example.OrdinaryItems b.examples) : Agree a b :=
  (agree_iff hkey hdigest).mpr fun _ => Example.sameItems_iff_alikeItems ha hb

/-! ## Conflicts -/

variable {fs : List Fragment}

/-- The variants of a key have different checksums. -/
theorem pairwise_variants (fs : List Fragment) :
    (variants fs).Pairwise fun v w => v.definition.checksum ≠ w.definition.checksum := by
  have hhex : ∀ {hex : String} {v : Variant}, variant? fs hex = some v → v.definition.checksum.hex = hex := by
    intro hex v h
    obtain ⟨⟨f, -, hdef, hsum⟩, -⟩ := variant?_eq_some h
    rwa [hdef] at hsum
  have hnodup := Ordered.nodup_distinct compare (fs.map fun f => f.definition.checksum.hex)
  unfold variants
  refine (List.Perm.pairwise_iff (fun h => h.symm) (Ordered.perm_sort _ _)).mpr ?_
  refine List.Pairwise.filterMap (variant? fs) (fun s t hne v hv w hw heq => ?_) hnodup
  rw [← hhex hv, ← hhex hw, heq] at hne
  exact hne rfl

/-- A conflict between declarations: where they stand, and the fields that differ if there are any. -/
structure IsConflict (key : String) (f g : Fragment) (x : Finding) : Prop where
  code : x.code = .conflictingDefinition
  subject : x.subject = key
  checksum : f.definition.checksum ≠ g.definition.checksum
  context : ∃ a b : Origin, x.context =
    ["first declared at " ++ a.display, "conflicting declaration at " ++ b.display]
      ++ (if (differingFields f.definition g.definition).isEmpty then []
        else ["differs in: " ++ Text.commaList (differingFields f.definition g.definition)])

/-- A conflict over no field names none. -/
theorem IsConflict.names_nothing {key : String} {f g : Fragment} {x : Finding}
    (h : IsConflict key f g x) (hfields : differingFields f.definition g.definition = [])
    (fields : List String) : "differs in: " ++ Text.commaList fields ∉ x.context := by
  obtain ⟨a, b, hcontext⟩ := h.context
  rw [hcontext, hfields]
  -- the lines start with other letters
  simp [← String.toList_inj]

/-- A conflict of a key is about two declarations with different checksums. -/
theorem exists_of_mem_conflicts {key : String} {x : Finding} (h : x ∈ conflicts key fs) :
    ∃ f ∈ fs, ∃ g ∈ fs, IsConflict key f g x := by
  have hpairwise := pairwise_variants fs
  have hmem := @mem_variants fs
  unfold conflicts at h
  split at h
  · exact absurd h List.not_mem_nil
  · next first others hvariants =>
    obtain ⟨other, hother, hx⟩ := List.mem_flatMap.mp h
    rw [hvariants] at hpairwise hmem
    have hne := (List.pairwise_cons.mp hpairwise).1 other hother
    obtain ⟨f, hf, hfdef⟩ := (hmem List.mem_cons_self).1
    obtain ⟨g, hg, hgdef⟩ := (hmem (List.mem_cons_of_mem _ hother)).1
    rw [← hfdef, ← hgdef] at hne
    unfold conflict at hx
    split at hx
    · next a _ b _ _ _ =>
      rw [List.mem_singleton.mp hx]
      refine ⟨f, hf, g, hg, rfl, rfl, hne, a, b, ?_⟩
      rw [hfdef, hgdef]
      rfl
    · exact absurd hx List.not_mem_nil

/-- The conflicts among the findings are those of the keys. -/
theorem mem_findings_iff {given : Option Version} {declared : List Declared} {x : Finding}
    (hx : x.code = .conflictingDefinition) : x ∈ (ofFragments given fs declared).findings ↔
      ∃ key ∈ keys fs, x ∈ conflicts key (declarationsOf fs key) := by
  have hversion : x ∉ (resolveVersion given declared).2 := by
    intro h
    unfold resolveVersion at h
    split at h
    · exact absurd h List.not_mem_nil
    · split at h
      · exact absurd h List.not_mem_nil
      · exact absurd h List.not_mem_nil
      · rw [List.mem_singleton.mp h] at hx
        cases hx
  change x ∈ (resolveVersion given declared).2 ++ _ ↔ _
  rw [List.mem_append, List.mem_flatMap, or_iff_right hversion]

/-- A key has a conflict exactly if two of its declarations have different checksums. -/
theorem exists_conflict_iff {given : Option Version} {declared : List Declared} {key : String} :
    (∃ x ∈ (ofFragments given fs declared).findings,
      x.code = .conflictingDefinition ∧ x.subject = key) ↔
      ∃ f ∈ declarationsOf fs key, ∃ g ∈ declarationsOf fs key,
        f.definition.checksum ≠ g.definition.checksum := by
  constructor
  · rintro ⟨x, hx, hcode, rfl⟩
    obtain ⟨key, -, hx⟩ := (mem_findings_iff hcode).mp hx
    obtain ⟨f, hf, g, hg, hconflict⟩ := exists_of_mem_conflicts hx
    rw [hconflict.subject]
    exact ⟨f, hf, g, hg, hconflict.checksum⟩
  · rintro ⟨f, hf, g, hg, hne⟩
    have hconflicts : conflicts key (declarationsOf fs key) ≠ [] := fun hnil =>
      hne (conflicts_eq_nil_iff.mp hnil f hf g hg)
    obtain ⟨x, hx⟩ := List.exists_mem_of_ne_nil _ hconflicts
    obtain ⟨_, _, _, _, hconflict⟩ := exists_of_mem_conflicts hx
    have hkey : key ∈ keys fs := mem_keys.mpr ⟨f, mem_declarationsOf.mp hf⟩
    exact ⟨x, (mem_findings_iff hconflict.code).mpr ⟨key, hkey, hx⟩, hconflict.code,
      hconflict.subject⟩

/-- Declarations of one key on which checksums and fields agree. -/
def AllAgree (fs : List Fragment) : Prop :=
  ∀ f ∈ fs, ∀ g ∈ fs, f.definition.key = g.definition.key → Agree f.definition g.definition

/-- Where checksums and fields agree, conflicts are about fields that differ. -/
theorem conflicts_of_agree (hagree : AllAgree fs) (given : Option Version) (declared : List Declared) :
    (∀ key, (∃ x ∈ (ofFragments given fs declared).findings,
      x.code = .conflictingDefinition ∧ x.subject = key) ↔
        ∃ f ∈ declarationsOf fs key, ∃ g ∈ declarationsOf fs key,
          differingFields f.definition g.definition ≠ []) ∧
      ∀ x ∈ (ofFragments given fs declared).findings, x.code = .conflictingDefinition →
        ∃ fields ≠ [], "differs in: " ++ Text.commaList fields ∈ x.context := by
  have hdiffer : ∀ {key : String} {f g : Fragment}, f ∈ declarationsOf fs key →
      g ∈ declarationsOf fs key → (f.definition.checksum ≠ g.definition.checksum ↔
        differingFields f.definition g.definition ≠ []) := by
    intro key f g hf hg
    obtain ⟨hf, hfkey⟩ := mem_declarationsOf.mp hf
    obtain ⟨hg, hgkey⟩ := mem_declarationsOf.mp hg
    exact not_congr (hagree f hf g hg (hfkey.trans hgkey.symm))
  constructor
  · intro key
    rw [exists_conflict_iff]
    exact exists_congr fun f => and_congr_right fun hf => exists_congr fun g =>
      and_congr_right fun hg => hdiffer hf hg
  · intro x hx hcode
    obtain ⟨key, -, hx⟩ := (mem_findings_iff hcode).mp hx
    obtain ⟨f, hf, g, hg, hconflict⟩ := exists_of_mem_conflicts hx
    have hfields := (hdiffer hf hg).mp hconflict.checksum
    obtain ⟨a, b, hcontext⟩ := hconflict.context
    refine ⟨_, hfields, ?_⟩
    rw [hcontext, if_neg (by rwa [List.isEmpty_iff])]
    exact List.mem_append_right _ (List.mem_singleton_self _)

/-- **Where checksums and fields agree, and what follows.** If checksums separate the declarations of
a key, they agree with the fields on two of them exactly if, unless another field differs, the examples
are the same where they are written alike; they agree on examples without infinities, values that
are no numbers and negative zeros. If they agree on all declarations, a key has a conflict exactly if
two of its declarations differ in a field, and every conflict names a field. -/
theorem agree_and_conflicts
    (hdigest : ∀ f ∈ fs, ∀ g ∈ fs, f.definition.key = g.definition.key →
      f.definition.checksum = g.definition.checksum →
        f.definition.toJson.toText = g.definition.toJson.toText) :
    (∀ f ∈ fs, ∀ g ∈ fs, f.definition.key = g.definition.key →
      (Agree f.definition g.definition ↔
        (differingFields f.definition g.definition ⊆ ["examples"] →
          (Example.sameItems f.definition.examples g.definition.examples = true ↔
            Example.AlikeItems f.definition.examples g.definition.examples)))) ∧
      ((∀ f ∈ fs, Example.OrdinaryItems f.definition.examples) → AllAgree fs) ∧
      (AllAgree fs → ∀ given declared,
        (∀ key, (∃ x ∈ (ofFragments given fs declared).findings,
          x.code = .conflictingDefinition ∧ x.subject = key) ↔
            ∃ f ∈ declarationsOf fs key, ∃ g ∈ declarationsOf fs key,
              differingFields f.definition g.definition ≠ []) ∧
          ∀ x ∈ (ofFragments given fs declared).findings, x.code = .conflictingDefinition →
            ∃ fields ≠ [], "differs in: " ++ Text.commaList fields ∈ x.context) := by
  refine ⟨fun f hf g hg hkey => agree_iff hkey (hdigest f hf g hg hkey), ?_, conflicts_of_agree⟩
  exact fun hordinary f hf g hg hkey =>
    agree_of_ordinary hkey (hdigest f hf g hg hkey) (hordinary f hf) (hordinary g hg)

/-! ## One double as the example -/

/-- An attribute with one double as its example. -/
private def load (brief : String) (x : Float) : Attribute :=
  .new "cpu.load" (.primitive (.scalar .double)) brief [.double x]

/-- The checksums of both zeros, and of another brief. -/
private theorem hex_load :
    (load "" 0.0).checksum.hex =
        "54592a6cd1cefb451ea689f3e062a8eca5172025575698101d4290439aa05b7e" ∧
      (load "" (-0.0)).checksum.hex =
        "b0f1a17d63382e3775562cd441ca815cf0225da37a224c99fa80b18217085f6a" ∧
      (load "L" 0.0).checksum.hex =
        "a81c64b0d5ec7777a1e1000740ddb2519451e4119e0a44edf2540e9867826566" := by
  refine ⟨?_, ?_, ?_⟩
  · decide +kernel
  · decide +kernel
  · decide +kernel

/-- Two documents with different briefs. -/
private def briefs : List Fragment :=
  [⟨load "" 0.0, ⟨"a.yaml", 0⟩⟩, ⟨load "L" 0.0, ⟨"b.yaml", 0⟩⟩]

/-- Different briefs are a conflict that names a field. -/
theorem conflict_briefs :
    (∀ f ∈ briefs, ∀ g ∈ briefs, f.definition.key = g.definition.key →
      f.definition.checksum = g.definition.checksum →
        f.definition.toJson.toText = g.definition.toJson.toText) ∧
      ∃ x ∈ (ofFragments none briefs []).findings, x.code = .conflictingDefinition ∧
        ∃ fields ≠ [], "differs in: " ++ Text.commaList fields ∈ x.context := by
  have hne : (load "" 0.0).checksum ≠ (load "L" 0.0).checksum := by
    intro h
    have hhex := congrArg Checksum.hex h
    obtain ⟨hzero, -, hbrief⟩ := hex_load
    rw [hzero, hbrief] at hhex
    exact absurd hhex (by decide)
  have hdigest : ∀ f ∈ briefs, ∀ g ∈ briefs, f.definition.key = g.definition.key →
      f.definition.checksum = g.definition.checksum →
        f.definition.toJson.toText = g.definition.toJson.toText := by
    unfold briefs
    simp only [List.forall_mem_cons, List.not_mem_nil, false_implies, implies_true, and_true, hne, hne.symm]
  have hordinary : ∀ f ∈ briefs, Example.OrdinaryItems f.definition.examples := by
    have hzero : Example.OrdinaryItems [.double 0.0] := ⟨⟨by decide, by decide⟩, trivial⟩
    unfold briefs
    simp only [List.forall_mem_cons, List.not_mem_nil, false_implies, implies_true, and_true]
    exact ⟨hzero, hzero⟩
  obtain ⟨-, hagree, hconflicts⟩ := agree_and_conflicts hdigest
  obtain ⟨hkey, hfields⟩ := hconflicts (hagree hordinary) none []
  obtain ⟨x, hx, hcode, -⟩ := (hkey "cpu.load").mpr (by
    refine ⟨⟨load "" 0.0, ⟨"a.yaml", 0⟩⟩, ?_, ⟨load "L" 0.0, ⟨"b.yaml", 0⟩⟩, ?_, ?_⟩
    · exact mem_declarationsOf.mpr ⟨List.mem_cons_self, rfl⟩
    · exact mem_declarationsOf.mpr ⟨List.mem_cons_of_mem _ List.mem_cons_self, rfl⟩
    · decide)
  exact ⟨hdigest, x, hx, hcode, hfields x hx hcode⟩

/-- Two documents with the two zeros. -/
private def zeros : List Fragment :=
  [⟨load "" 0.0, ⟨"a.yaml", 0⟩⟩, ⟨load "" (-0.0), ⟨"b.yaml", 0⟩⟩]

private theorem differingFields_zeros {f g : Fragment} (hf : f ∈ zeros) (hg : g ∈ zeros) :
    differingFields f.definition g.definition = [] := by
  have hall : ∀ f ∈ zeros, ∀ g ∈ zeros, differingFields f.definition g.definition = [] := by
    decide
  exact hall f hf g hg

/-- **The two zeros differ in no field but have different checksums, and conflict over nothing.** -/
theorem not_agree_zeros :
    ¬ Agree (load "" 0.0) (load "" (-0.0)) ∧
      ∃ x ∈ (ofFragments none zeros []).findings, x.code = .conflictingDefinition ∧
        ∀ fields, "differs in: " ++ Text.commaList fields ∉ x.context := by
  have hne : (load "" 0.0).checksum ≠ (load "" (-0.0)).checksum := by
    intro h
    have hhex := congrArg Checksum.hex h
    obtain ⟨hzero, hnegZero, -⟩ := hex_load
    rw [hzero, hnegZero] at hhex
    exact absurd hhex (by decide)
  have hzero : ⟨load "" 0.0, ⟨"a.yaml", 0⟩⟩ ∈ zeros := List.mem_cons_self
  have hnegZero : ⟨load "" (-0.0), ⟨"b.yaml", 0⟩⟩ ∈ zeros :=
    List.mem_cons_of_mem _ List.mem_cons_self
  refine ⟨fun h => hne (h.mpr (differingFields_zeros hzero hnegZero)), ?_⟩
  obtain ⟨x, hx, hcode, -⟩ := exists_conflict_iff.mpr
    ⟨_, mem_declarationsOf.mpr ⟨hzero, rfl⟩, _, mem_declarationsOf.mpr ⟨hnegZero, rfl⟩, hne⟩
  obtain ⟨key, -, hconflict⟩ := (mem_findings_iff hcode).mp hx
  obtain ⟨f, hf, g, hg, hconflict⟩ := exists_of_mem_conflicts hconflict
  have hfields := differingFields_zeros (mem_declarationsOf.mp hf).1 (mem_declarationsOf.mp hg).1
  exact ⟨x, hx, hcode, hconflict.names_nothing hfields⟩

end Resolution

end AttributeRegistry
