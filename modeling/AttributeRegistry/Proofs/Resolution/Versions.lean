import AttributeRegistry.Proofs.Validation.Codes
import AttributeRegistry.Proofs.Version.Order
import Mathlib.Data.List.Dedup
import Mathlib.Data.List.Perm.Basic

/-!
# The version of a registry

Declarations of versions fall into groups, one for each version. Versions that compare equal are equal,
build metadata included, so no two versions share a group, and each declaration is in the group of its
version as often as it is made (`grouped_groups`).

Main statement: a given version stands, whatever is declared; otherwise the least declared one does, and
there is one conflict, which shows all the groups, iff two declared versions differ
(`version_resolved`).
-/

namespace AttributeRegistry.Resolution

open Report

variable {declared : List Declared} {v : Version}

/-! ## Groups -/

/-- Declarations in groups by version. -/
structure Grouped (declared : List Declared) (groups : List (Version × List String)) : Prop where
  /-- The versions are ascending, none of them twice. -/
  ascending : (groups.map Prod.fst).Pairwise fun v w => Version.compare v w = .lt
  /-- Every version has documents that declare it, in the order of their names. -/
  documents : ∀ g ∈ groups, g.2 ≠ [] ∧ g.2.Pairwise fun a b => (compare a b).isLE
  /-- Every declaration is in one group, as often as it is made. -/
  complete : (groups.flatMap fun g => g.2.map fun name => (name, g.1)).Perm declared

/-- The declared versions, each with the documents that declare it. -/
def groups (declared : List Declared) : List (Version × List String) :=
  (versions declared).map fun v => (v, documentsOf declared v)

theorem mem_versions : v ∈ versions declared ↔ ∃ d ∈ declared, d.2 = v := by
  rw [versions, Ordered.mem_distinct, List.mem_map]

theorem pairwise_versions (declared : List Declared) :
    (versions declared).Pairwise fun v w => Version.compare v w = .lt :=
  Ordered.pairwise_distinct _

/-- Elements taken out by their keys, one key after the other, are all there. -/
theorem perm_flatMap_filter {α β : Type} [DecidableEq β] {key : α → β} {ks : List β} (hks : ks.Nodup)
    {as : List α} (h : ∀ a ∈ as, key a ∈ ks) :
    (ks.flatMap fun k => as.filter fun a => key a = k).Perm as := by
  induction ks generalizing as with
  | nil =>
    have hnil : as = [] := List.eq_nil_iff_forall_not_mem.mpr fun a ha => List.not_mem_nil (h a ha)
    rw [hnil, List.flatMap_nil]
  | cons k ks ih =>
    obtain ⟨hk, hks⟩ := List.nodup_cons.mp hks
    -- the other keys find what they look for among the elements that are left
    have hleft : ∀ l ∈ ks, (as.filter fun a => key a = l) =
        (as.filter fun a => !decide (key a = k)).filter fun a => key a = l := by
      intro l hl
      rw [List.filter_filter]
      refine List.filter_congr fun a _ => ?_
      have hne : l ≠ k := fun heq => hk (heq ▸ hl)
      by_cases hal : key a = l
      · simp [hal, hne]
      · simp [hal]
    have hrest : ∀ a ∈ as.filter fun a => !decide (key a = k), key a ∈ ks := by
      intro a ha
      obtain ⟨ha, hne⟩ := List.mem_filter.mp ha
      exact (List.mem_cons.mp (h a ha)).resolve_left (by simpa using hne)
    rw [List.flatMap_cons, List.flatMap_congr hleft]
    exact ((ih hks hrest).append_left _).trans (List.filter_append_perm _ as)

theorem perm_documentsOf (declared : List Declared) (v : Version) :
    ((documentsOf declared v).map fun name => (name, v)).Perm
      (declared.filter fun d => d.2 = v) := by
  have hnames : (declared.filter fun d => d.2 = v).map (fun d => (d.1, v)) =
      declared.filter fun d => d.2 = v := by
    have hsame : ∀ d ∈ declared.filter fun d => d.2 = v, (d.1, v) = d := by
      intro d hd
      rw [← of_decide_eq_true (List.mem_filter.mp hd).2]
    exact (List.map_congr_left hsame).trans (List.map_id _)
  have hsorted := (Ordered.perm_sort compare ((declared.filter fun d => d.2 = v).map Prod.fst)).map
    fun name => (name, v)
  rw [List.map_map] at hsorted
  exact hsorted.trans (.of_eq hnames)

/-- **Grouping keeps every declaration.** -/
theorem grouped_groups (declared : List Declared) : Grouped declared (groups declared) where
  ascending := by
    rw [groups, List.map_map]
    exact (List.map_id _).symm ▸ pairwise_versions declared
  documents := by
    intro g hg
    obtain ⟨v, hv, rfl⟩ := List.mem_map.mp hg
    refine ⟨fun hnone => ?_, Ordered.pairwise_sort _⟩
    obtain ⟨d, hd, rfl⟩ := mem_versions.mp hv
    have hempty := Ordered.sort_eq_nil_iff.mp hnone
    rw [List.map_eq_nil_iff, List.filter_eq_nil_iff] at hempty
    exact hempty d hd (decide_eq_true rfl)
  complete := by
    rw [groups, List.flatMap_map]
    refine (List.Perm.flatMap_left _ fun v _ => perm_documentsOf declared v).trans ?_
    exact perm_flatMap_filter (Ordered.nodup_distinct _ _) fun d hd => mem_versions.mpr ⟨d, hd, rfl⟩

theorem length_versions (declared : List Declared) :
    (versions declared).length = (declared.map Prod.snd).dedup.length := by
  refine List.Perm.length_eq ((List.perm_ext_iff_of_nodup (Ordered.nodup_distinct _ _)
    (List.nodup_dedup _)).mpr fun v => ?_)
  rw [List.mem_dedup]
  exact Ordered.mem_distinct

/-! ## Resolving -/

theorem one_lt_length_versions_iff :
    1 < (versions declared).length ↔ ∃ d ∈ declared, ∃ e ∈ declared, d.2 ≠ e.2 := by
  rw [← Nat.not_le, versions, Ordered.length_distinct_le_one_iff]
  simp only [List.forall_mem_map, not_forall, exists_prop, ne_eq]

theorem fst_resolveVersion (declared : List Declared) :
    (resolveVersion none declared).1 = (versions declared).head?.getD default := by
  unfold resolveVersion
  rcases versions declared with _ | ⟨v, _ | ⟨w, rest⟩⟩ <;> rfl

theorem snd_resolveVersion (declared : List Declared) :
    (resolveVersion none declared).2 =
      if 1 < (versions declared).length then [versionConflict declared] else [] := by
  unfold resolveVersion
  rcases versions declared with _ | ⟨v, _ | ⟨w, rest⟩⟩ <;> simp

/-- The conflicts of versions among the findings of a merge are those found in resolving them. -/
theorem withCode_versionConflict (given : Option Version) (fs : List Fragment)
    (declared : List Declared) :
    withCode (ofFragments given fs declared).findings .versionConflict =
      (resolveVersion given declared).2 := by
  have hconflicts : Within [.conflictingDefinition]
      ((keys fs).flatMap fun key => conflicts key (declarationsOf fs key)) :=
    within_flatMap.mpr fun key _ => within_conflicts key _
  show withCode ((resolveVersion given declared).2 ++ _) _ = _
  rw [withCode_append, withCode_eq_self (within_resolveVersion given declared),
    withCode_eq_nil hconflicts (by decide), List.append_nil]

/-- Of ascending versions the first one is the least. -/
theorem least_version (hne : declared ≠ []) :
    (∃ d ∈ declared, d.2 = (resolveVersion none declared).1) ∧
      ∀ d ∈ declared, (Version.compare (resolveVersion none declared).1 d.2).isLE := by
  rw [fst_resolveVersion]
  have hordered := pairwise_versions declared
  cases hversions : versions declared with
  | nil =>
    obtain ⟨d, hd⟩ := List.exists_mem_of_ne_nil _ hne
    have hmem := mem_versions.mpr ⟨d, hd, rfl⟩
    rw [hversions] at hmem
    cases hmem
  | cons v rest =>
    rw [hversions] at hordered
    refine ⟨mem_versions.mp (by rw [hversions]; exact List.mem_cons_self), fun d hd => ?_⟩
    have hmem := mem_versions.mpr ⟨d, hd, rfl⟩
    rw [hversions] at hmem
    show (Version.compare v d.2).isLE
    rcases List.mem_cons.mp hmem with heq | hlater
    · have hself : Version.compare v v = .eq := Std.ReflCmp.compare_self
      rw [heq, hself]
      rfl
    · rw [(List.pairwise_cons.mp hordered).1 _ hlater]
      rfl

/-- **The version of a merge.** A given version stands, and nothing is said against those declared.
Otherwise the least declared version stands, or `0.0.0` if there is none; and there is one conflict,
which counts the declared versions and lists each with its documents, iff two of them differ. -/
theorem version_resolved (fs : List Fragment) (declared : List Declared) :
    (∀ given, (ofFragments (some given) fs declared).registry.version = given ∧
      withCode (ofFragments (some given) fs declared).findings .versionConflict = []) ∧
    (∃ groups, Grouped declared groups ∧
      ((∃ d ∈ declared, ∃ e ∈ declared, d.2 ≠ e.2) →
        withCode (ofFragments none fs declared).findings .versionConflict =
          [⟨"registry", .versionConflict, .error,
            "documents declare " ++ toString (declared.map Prod.snd).dedup.length
              ++ " different registry versions",
            groups.map fun g => g.1.text ++ ": " ++ String.intercalate ", " g.2⟩]) ∧
      ((¬ ∃ d ∈ declared, ∃ e ∈ declared, d.2 ≠ e.2) →
        withCode (ofFragments none fs declared).findings .versionConflict = [])) ∧
    (declared = [] → (ofFragments none fs declared).registry.version = .release 0 0 0) ∧
    (declared ≠ [] →
      (∃ d ∈ declared, d.2 = (ofFragments none fs declared).registry.version) ∧
        ∀ d ∈ declared,
          (Version.compare (ofFragments none fs declared).registry.version d.2).isLE) := by
  refine ⟨fun given => ⟨rfl, withCode_versionConflict _ _ _⟩,
    ⟨groups declared, grouped_groups declared, fun hdiffer => ?_, fun hsame => ?_⟩, ?_, least_version⟩
  · rw [withCode_versionConflict, snd_resolveVersion, if_pos (one_lt_length_versions_iff.mpr hdiffer),
      versionConflict, length_versions, groups, List.map_map]
    rfl
  · rw [withCode_versionConflict, snd_resolveVersion,
      if_neg fun hlength => hsame (one_lt_length_versions_iff.mp hlength)]
  · rintro rfl
    have hnone : versions [] = [] :=
      List.eq_nil_iff_forall_not_mem.mpr fun v hv => by simpa using mem_versions.mp hv
    show (resolveVersion none []).1 = _
    rw [fst_resolveVersion, hnone]
    rfl

end AttributeRegistry.Resolution
