import AttributeRegistry.Proofs.Order.Canonical
import AttributeRegistry.Proofs.Registry.Definitions
import AttributeRegistry.Proofs.Validation.Accepted
import AttributeRegistry.Proofs.Version.Order
import AttributeRegistry.Resolution

/-!
# Unanimous declarations

Declarations are unanimous when those of a key all have the same checksum. Merging finds a conflict
exactly when they are not (`conflicts_eq_nil_iff`, `ofFragments_findings_eq_nil_iff`). Of unanimous
declarations that checksums tell apart, the merged registry holds exactly the declared definitions
(`mem_attributes_ofFragments`), so it depends on the set of them only.
-/

namespace AttributeRegistry.Resolution

/-- The declarations of a key all have the same checksum. -/
def Unanimous (fs : List Fragment) : Prop :=
  ∀ f ∈ fs, ∀ g ∈ fs, f.definition.key = g.definition.key →
    f.definition.checksum = g.definition.checksum

/-! ## Variants -/

theorem variant?_eq_some {fs : List Fragment} {hex : String} {v : Variant}
    (h : variant? fs hex = some v) :
    (∃ f ∈ fs, f.definition = v.definition ∧ f.definition.checksum.hex = hex) ∧ v.origins ≠ [] := by
  unfold variant? at h
  split at h
  · simp at h
  · next f rest hf =>
    have hmem : f ∈ fs.filter fun f => f.definition.checksum.hex = hex := by rw [hf]; simp
    rw [List.mem_filter, decide_eq_true_eq] at hmem
    cases h
    refine ⟨⟨f, hmem.1, rfl, hmem.2⟩, ?_⟩
    intro hnil
    rw [Ordered.sort_eq_nil_iff] at hnil
    simp at hnil

theorem exists_variant? {fs : List Fragment} {f : Fragment} (hf : f ∈ fs) :
    ∃ v, variant? fs f.definition.checksum.hex = some v := by
  unfold variant?
  split
  · next h =>
    have hmem : f ∈ fs.filter fun g => g.definition.checksum.hex = f.definition.checksum.hex := by
      rw [List.mem_filter]
      exact ⟨hf, by simp⟩
    rw [h] at hmem
    exact absurd hmem List.not_mem_nil
  · exact ⟨_, rfl⟩

/-- There is one variant for each checksum. -/
theorem length_variants (fs : List Fragment) :
    (variants fs).length
      = (Ordered.distinct compare (fs.map fun f => f.definition.checksum.hex)).length := by
  unfold variants
  rw [Ordered.length_sort, List.length_filterMap_eq_countP, List.countP_eq_length]
  intro hex hhex
  rw [Ordered.mem_distinct, List.mem_map] at hhex
  obtain ⟨f, hf, rfl⟩ := hhex
  obtain ⟨v, hv⟩ := exists_variant? hf
  rw [hv]
  rfl

theorem mem_variants {fs : List Fragment} {v : Variant} (h : v ∈ variants fs) :
    (∃ f ∈ fs, f.definition = v.definition) ∧ v.origins ≠ [] := by
  unfold variants at h
  rw [Ordered.mem_sort, List.mem_filterMap] at h
  obtain ⟨hex, -, hv⟩ := h
  obtain ⟨⟨f, hf, hdef, -⟩, hne⟩ := variant?_eq_some hv
  exact ⟨⟨f, hf, hdef⟩, hne⟩

theorem variants_ne_nil {fs : List Fragment} {f : Fragment} (hf : f ∈ fs) : variants fs ≠ [] := by
  intro h
  have hl := length_variants fs
  rw [h, List.length_nil, eq_comm, List.length_eq_zero_iff] at hl
  have hmem : f.definition.checksum.hex ∈ Ordered.distinct compare
      (fs.map fun f => f.definition.checksum.hex) := by
    rw [Ordered.mem_distinct]
    exact List.mem_map_of_mem hf
  rw [hl] at hmem
  exact List.not_mem_nil hmem

/-! ## Conflicts -/

theorem conflict_ne_nil {key : String} {a b : Variant} (ha : a.origins ≠ []) (hb : b.origins ≠ []) :
    conflict key a b ≠ [] := by
  unfold conflict
  split
  · simp
  · next hno =>
    obtain ⟨x, xs, hx⟩ := List.exists_cons_of_ne_nil ha
    obtain ⟨y, ys, hy⟩ := List.exists_cons_of_ne_nil hb
    exact absurd hy (hno x xs y ys hx)

/-- **A key has no conflict iff its declarations have one checksum.** -/
theorem conflicts_eq_nil_iff {key : String} {fs : List Fragment} :
    conflicts key fs = [] ↔ ∀ f ∈ fs, ∀ g ∈ fs, f.definition.checksum = g.definition.checksum := by
  have hlength : (variants fs).length ≤ 1 ↔
      ∀ f ∈ fs, ∀ g ∈ fs, f.definition.checksum = g.definition.checksum := by
    rw [length_variants, Ordered.length_distinct_le_one_iff]
    constructor
    · intro h f hf g hg
      have hhex := h _ (List.mem_map_of_mem hf) _ (List.mem_map_of_mem hg)
      exact congrArg Checksum.mk hhex
    · intro h x hx y hy
      obtain ⟨f, hf, rfl⟩ := List.mem_map.mp hx
      obtain ⟨g, hg, rfl⟩ := List.mem_map.mp hy
      rw [h f hf g hg]
  rw [← hlength]
  unfold conflicts
  match hv : variants fs with
  | [] => simp
  | [_] => simp
  | first :: second :: others =>
    have hfirst : first ∈ variants fs := by simp [hv]
    have hsecond : second ∈ variants fs := by simp [hv]
    -- every other variant is reported against the first, so the second one is enough
    have hne : conflict key first second ≠ [] :=
      conflict_ne_nil (mem_variants hfirst).2 (mem_variants hsecond).2
    simp [hne]

theorem isError_of_mem_conflicts {key : String} {fs : List Fragment} {x : Finding}
    (h : x ∈ conflicts key fs) : x.isError = true := by
  unfold conflicts at h
  split at h
  · simp at h
  · obtain ⟨other, -, hx⟩ := List.mem_flatMap.mp h
    unfold conflict at hx
    split at hx
    · exact Report.isError_of_mem_singleton hx rfl
    · simp at hx

theorem mem_declarationsOf {fs : List Fragment} {key : String} {f : Fragment} :
    f ∈ declarationsOf fs key ↔ f ∈ fs ∧ f.definition.key = key := by
  rw [declarationsOf, List.mem_filter, decide_eq_true_eq]

theorem mem_keys {fs : List Fragment} {key : String} :
    key ∈ keys fs ↔ ∃ f ∈ fs, f.definition.key = key := by
  rw [keys, Ordered.mem_distinct, List.mem_map]

/-- Declarations are unanimous iff no key has a conflict. -/
theorem conflicts_flatMap_eq_nil_iff {fs : List Fragment} :
    ((keys fs).flatMap fun key => conflicts key (declarationsOf fs key)) = [] ↔ Unanimous fs := by
  rw [List.flatMap_eq_nil_iff]
  constructor
  · intro h f hf g hg hkey
    have hno := h _ (mem_keys.mpr ⟨f, hf, rfl⟩)
    rw [conflicts_eq_nil_iff] at hno
    exact hno f (mem_declarationsOf.mpr ⟨hf, rfl⟩) g (mem_declarationsOf.mpr ⟨hg, hkey.symm⟩)
  · intro h key _
    rw [conflicts_eq_nil_iff]
    intro f hf g hg
    rw [mem_declarationsOf] at hf hg
    exact h f hf.1 g hg.1 (hf.2.trans hg.2.symm)

/-! ## Versions -/

/-- The version of a merge depends on the set of declared versions only. -/
theorem resolveVersion_fst_congr {given : Option Version} {declared declared' : List Declared}
    (h : given.isSome ∨ ∀ v, v ∈ declared.map Prod.snd ↔ v ∈ declared'.map Prod.snd) :
    (resolveVersion given declared).1 = (resolveVersion given declared').1 := by
  unfold resolveVersion
  cases given with
  | some v => rfl
  | none =>
    have hv : versions declared = versions declared' :=
      Ordered.distinct_congr (h.resolve_left (by simp))
    rw [hv]
    rcases versions declared' with _ | ⟨v, _ | ⟨w, vs⟩⟩ <;> rfl

/-- Versions conflict iff none is given and two different ones are declared. -/
theorem resolveVersion_snd_eq_nil_iff {given : Option Version} {declared : List Declared} :
    (resolveVersion given declared).2 = [] ↔
      given.isSome ∨ ∀ v ∈ declared.map Prod.snd, ∀ w ∈ declared.map Prod.snd, v = w := by
  unfold resolveVersion
  cases given with
  | some v => simp
  | none =>
    have hlength : (versions declared).length ≤ 1 ↔ _ := Ordered.length_distinct_le_one_iff
    rw [← hlength]
    match hv : versions declared with
    | [] => simp
    | [_] => simp
    | _ :: _ :: _ => simp

theorem isError_of_mem_resolveVersion {given : Option Version} {declared : List Declared}
    {x : Finding} (h : x ∈ (resolveVersion given declared).2) : x.isError = true := by
  unfold resolveVersion at h
  split at h
  · simp at h
  · split at h
    · simp at h
    · simp at h
    · exact Report.isError_of_mem_singleton h rfl

/-! ## Merging -/

/-- **Merging finds nothing iff the declarations are unanimous and the versions agree.** -/
theorem ofFragments_findings_eq_nil_iff {given : Option Version} {fs : List Fragment}
    {declared : List Declared} :
    (ofFragments given fs declared).findings = [] ↔
      (given.isSome ∨ ∀ v ∈ declared.map Prod.snd, ∀ w ∈ declared.map Prod.snd, v = w)
        ∧ Unanimous fs := by
  rw [ofFragments, List.append_eq_nil_iff, resolveVersion_snd_eq_nil_iff,
    conflicts_flatMap_eq_nil_iff]

theorem isError_of_mem_ofFragments {given : Option Version} {fs : List Fragment}
    {declared : List Declared} {x : Finding}
    (h : x ∈ (ofFragments given fs declared).findings) : x.isError = true := by
  rcases List.mem_append.mp h with h | h
  · exact isError_of_mem_resolveVersion h
  · obtain ⟨key, -, hx⟩ := List.mem_flatMap.mp h
    exact isError_of_mem_conflicts hx

theorem mem_entries {fs : List Fragment} {e : Entry} (h : e ∈ entries fs) :
    ∃ f ∈ fs, f.definition = e.definition := by
  obtain ⟨key, -, he⟩ := List.mem_filterMap.mp h
  unfold entryOf? at he
  split at he
  · next first others hv =>
    split at he
    · cases he
      obtain ⟨⟨f, hf, hdef⟩, -⟩ := mem_variants (show first ∈ variants _ by rw [hv]; simp)
      exact ⟨f, (mem_declarationsOf.mp hf).1, hdef⟩
    · simp at he
  · simp at he

/-- Every declared key has an entry. -/
theorem exists_mem_entries {fs : List Fragment} {f : Fragment} (hf : f ∈ fs) :
    ∃ e ∈ entries fs, e.definition.key = f.definition.key := by
  have hdecl : f ∈ declarationsOf fs f.definition.key := mem_declarationsOf.mpr ⟨hf, rfl⟩
  obtain ⟨first, others, hv⟩ := List.exists_cons_of_ne_nil (variants_ne_nil hdecl)
  obtain ⟨⟨g, hg, hdef⟩, -⟩ := mem_variants (show first ∈ variants _ by rw [hv]; simp)
  have hkey : first.definition.key = f.definition.key := by
    rw [← hdef]
    exact (mem_declarationsOf.mp hg).2
  refine ⟨⟨first.definition, Ordered.distinct Origin.compare first.origins⟩, ?_, hkey⟩
  refine List.mem_filterMap.mpr ⟨f.definition.key, mem_keys.mpr ⟨f, hf, rfl⟩, ?_⟩
  unfold entryOf?
  rw [hv]
  exact if_pos hkey

/-- **A merged registry holds exactly the declared definitions** if each key is declared in one way. -/
theorem mem_attributes_ofFragments {given : Option Version} {fs : List Fragment}
    {declared : List Declared}
    (h : ∀ f ∈ fs, ∀ g ∈ fs, f.definition.key = g.definition.key → f.definition = g.definition)
    {a : Attribute} :
    a ∈ (ofFragments given fs declared).registry.attributes ↔ a ∈ fs.map Fragment.definition := by
  show a ∈ (entries fs).map Entry.definition ↔ _
  rw [List.mem_map, List.mem_map]
  constructor
  · rintro ⟨e, he, rfl⟩
    exact mem_entries he
  · rintro ⟨f, hf, rfl⟩
    -- the entry of the key may come from another declaration `g`, which has the same definition
    obtain ⟨e, he, hkey⟩ := exists_mem_entries hf
    obtain ⟨g, hg, hdef⟩ := mem_entries he
    refine ⟨e, he, ?_⟩
    rw [← hdef]
    exact h g hg f hf (by rw [hdef, hkey])

end AttributeRegistry.Resolution
