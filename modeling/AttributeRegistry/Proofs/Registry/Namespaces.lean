import AttributeRegistry.Proofs.Document.Parsed
import AttributeRegistry.Proofs.Validation.Complete
import Mathlib.Data.String.Basic

/-!
# Namespaces of a registry

A well-formed key is its namespace, a period and something more (`Key.WellFormed.exists_eq`). A namespace
has no period, so the keys that begin with it and a period are those whose own namespace it is, also if
one namespace begins with another or if a later segment of a key repeats one (`mem_attributesIn_iff`).

A period comes before all characters of segments. So the attributes of the namespaces, one after the
other, are in the order of their keys (`flatMap_attributesIn`).

Main statement: the namespaces of a validated registry divide its attributes (`namespaces_divide`).
-/

namespace AttributeRegistry

open Text

/-! ## Namespaces of keys -/

/-- A well-formed key is a segment, a period and something more. -/
theorem Key.WellFormed.exists_eq {key : List Char} (h : Key.WellFormed key) :
    ∃ first rest, Key.Segment first ∧ rest ≠ [] ∧ key = first ++ '.' :: rest := by
  obtain ⟨segments, hlength, hsegments, rfl⟩ := h
  match segments, hlength, hsegments with
  | first :: second :: more, _, hsegments =>
    obtain ⟨c, cs, hsecond, -⟩ := hsegments second (by simp)
    refine ⟨first, joinWith ['.'] (second :: more), hsegments first (by simp), ?_, ?_⟩
    · rw [joinWith_cons, hsecond]
      simp
    · rw [joinWith, List.append_assoc, List.singleton_append]

/-- The characters of a segment come behind the period. -/
theorem Key.Segment.period_lt {segment : List Char} (h : Key.Segment segment) {c : Char}
    (hc : c ∈ segment) : '.' < c := by
  have hlow : ∀ d : Char, '.' < d → d ≤ c → '.' < c := fun d => lt_of_lt_of_le
  obtain ⟨first, rest, rfl, hfirst, hrest⟩ := h
  rcases List.mem_cons.mp hc with rfl | hc
  · exact hlow 'a' (by decide) hfirst.1
  · rcases hrest c hc with hc | hc | rfl
    · exact hlow 'a' (by decide) hc.1
    · exact hlow '0' (by decide) hc.1
    · decide

theorem takeWhile_period {name rest : List Char} (h : '.' ∉ name) :
    (name ++ '.' :: rest).takeWhile (· != '.') = name := by
  refine (takeWhile_dropWhile_append (fun c hc => ?_) (by simp)).1
  rw [bne_iff_ne]
  rintro rfl
  exact h hc

namespace Attribute

variable {a : Attribute} {name : String}

/-- In a namespace without a period is what has it for its own. -/
theorem InNamespace.ownNamespace_eq (h : a.InNamespace name) (hname : '.' ∉ name.toList) :
    a.ownNamespace.name = name := by
  obtain ⟨rest, -, hkey⟩ := h
  have hchars : a.key.toList = name.toList ++ '.' :: rest.toList := by
    simp [hkey]
  rw [ownNamespace, Namespace.ofKey, hchars, takeWhile_period hname, String.ofList_toList]

/-- The namespace of a well-formed key is a segment, and the key lies in it. -/
theorem inNamespace_ownNamespace (h : Key.WellFormed a.key.toList) :
    Key.Segment a.ownNamespace.name.toList ∧ a.InNamespace a.ownNamespace.name := by
  obtain ⟨first, rest, hfirst, hne, hkey⟩ := h.exists_eq
  have hname : a.ownNamespace.name = String.ofList first := by
    rw [ownNamespace, Namespace.ofKey, hkey, takeWhile_period hfirst.not_mem_period]
  rw [hname, String.toList_ofList]
  refine ⟨hfirst, String.ofList rest, ?_, ?_⟩
  · rwa [Ne, ← String.toList_eq_nil_iff, String.toList_ofList]
  · rw [← String.toList_inj, hkey]
    simp

end Attribute

/-! ## Order -/

/-- Texts stay in order with a period and something more behind each, if all characters of the second
come behind the period. -/
theorem append_period_lt {name next : List Char} (hnext : ∀ c ∈ next, '.' < c) (h : name < next)
    (rest more : List Char) : name ++ '.' :: rest < next ++ '.' :: more := by
  induction name generalizing next with
  | nil =>
    cases next with
    | nil => exact absurd h (lt_irrefl _)
    | cons d ds => exact List.cons_lt_cons_iff.mpr (.inl (hnext d List.mem_cons_self))
  | cons c cs ih =>
    cases next with
    | nil => exact absurd h (List.not_lt_nil _)
    | cons d ds =>
      rw [List.forall_mem_cons] at hnext
      rcases List.cons_lt_cons_iff.mp h with hlt | ⟨rfl, hlt⟩
      · exact List.cons_lt_cons_iff.mpr (.inl hlt)
      · exact List.cons_lt_cons_iff.mpr (.inr ⟨rfl, ih hnext.2 hlt⟩)

namespace Attribute

/-- Attributes of different namespaces are in the order of their namespaces. -/
theorem compare_key_eq_lt {a b : Attribute} (ha : Key.WellFormed a.key.toList)
    (hb : Key.WellFormed b.key.toList)
    (h : compare a.ownNamespace.name b.ownNamespace.name = .lt) : compare a.key b.key = .lt := by
  obtain ⟨-, rest, -, hakey⟩ := inNamespace_ownNamespace ha
  obtain ⟨hsegment, more, -, hbkey⟩ := inNamespace_ownNamespace hb
  have hchars : ∀ name rest : String,
      (name ++ "." ++ rest).toList = name.toList ++ '.' :: rest.toList := by
    simp
  have hlt : a.ownNamespace.name < b.ownNamespace.name := compare_lt_iff_lt.mp h
  refine compare_lt_iff_lt.mpr (String.lt_iff_toList_lt.mpr ?_)
  rw [hakey, hbkey, hchars, hchars]
  exact append_period_lt (fun c => hsegment.period_lt) (String.lt_iff_toList_lt.mp hlt) _ _

end Attribute

/-! ## Registries -/

namespace Registry

variable {r : Registry} {n : String} {a : Attribute}

theorem mem_namespaces : n ∈ r.namespaces ↔ ∃ a ∈ r.attributes, a.ownNamespace.name = n := by
  rw [namespaces, Ordered.mem_distinct, List.mem_map]

theorem mem_attributesIn : a ∈ r.attributesIn ⟨n⟩ ↔ a ∈ r.attributes ∧ a.InNamespace n := by
  rw [attributesIn, List.mem_filter, ← liesUnder_iff]
  rfl

/-- **The attributes of a namespace** are those that have it for their own. -/
theorem WellFormed.mem_attributesIn_iff (hwf : r.WellFormed) (hn : n ∈ r.namespaces) :
    a ∈ r.attributesIn ⟨n⟩ ↔ a ∈ r.attributes ∧ n = a.ownNamespace.name := by
  obtain ⟨b, hb, rfl⟩ := mem_namespaces.mp hn
  have hperiod := (Attribute.inNamespace_ownNamespace (hwf.attributes b hb).key).1.not_mem_period
  rw [mem_attributesIn]
  refine and_congr_right fun ha => ⟨fun h => (h.ownNamespace_eq hperiod).symm, fun h => ?_⟩
  rw [h]
  exact (Attribute.inNamespace_ownNamespace (hwf.attributes a ha).key).2

/-- **One namespace after the other, the attributes come in the order of the registry.** -/
theorem WellFormed.flatMap_attributesIn (hwf : r.WellFormed) :
    (r.namespaces.flatMap fun n => r.attributesIn ⟨n⟩) = r.attributes := by
  have hordered : r.namespaces.Pairwise fun m n => compare m n = .lt := Ordered.pairwise_distinct _
  have hascending : (r.namespaces.flatMap fun n => r.attributesIn ⟨n⟩).Pairwise fun a b =>
      compare a.key b.key = .lt := by
    refine List.pairwise_flatMap.mpr
      ⟨fun n _ => r.pairwise_attributes.sublist List.filter_sublist, ?_⟩
    refine hordered.imp_of_mem fun hm hn hlt a ha b hb => ?_
    obtain ⟨ha, hm⟩ := (hwf.mem_attributesIn_iff hm).mp ha
    obtain ⟨hb, hn⟩ := (hwf.mem_attributesIn_iff hn).mp hb
    rw [hm, hn] at hlt
    exact Attribute.compare_key_eq_lt (hwf.attributes a ha).key (hwf.attributes b hb).key hlt
  have hmem : ∀ a, a ∈ (r.namespaces.flatMap fun n => r.attributesIn ⟨n⟩) ↔ a ∈ r.attributes := by
    intro a
    rw [List.mem_flatMap]
    constructor
    · rintro ⟨n, -, ha⟩
      exact (mem_attributesIn.mp ha).1
    · intro ha
      have hown : a.ownNamespace.name ∈ r.namespaces := mem_namespaces.mpr ⟨a, ha, rfl⟩
      exact ⟨_, hown, (hwf.mem_attributesIn_iff hown).mpr ⟨ha, rfl⟩⟩
  have := Ordered.transCmp_comap compare Attribute.key
  exact Ordered.eq_of_pairwise_lt hascending r.pairwise_attributes hmem

/-- **The namespaces of a validated registry divide its attributes.** They differ from each other, an
attribute is in one of them only, which is its own, none of them is without attributes, and one after the
other they have all attributes in the order of their keys, each once. -/
theorem namespaces_divide {prior : Report} {strict : Bool} {v : ValidRegistry}
    (h : r.validate prior strict = .ok v) :
    v.registry.namespaces.Nodup ∧
    (∀ a ∈ v.registry.attributes, a.ownNamespace.name ∈ v.registry.namespaces ∧
      ∀ n ∈ v.registry.namespaces,
        a ∈ v.registry.attributesIn ⟨n⟩ ↔ n = a.ownNamespace.name) ∧
    (∀ n ∈ v.registry.namespaces, v.registry.attributesIn ⟨n⟩ ≠ []) ∧
    (v.registry.namespaces.flatMap fun n => v.registry.attributesIn ⟨n⟩) = v.registry.attributes ∧
    v.registry.attributes.Nodup := by
  have hwf := wellFormed_of_validate h
  have hown : ∀ a ∈ v.registry.attributes, a.ownNamespace.name ∈ v.registry.namespaces :=
    fun a ha => mem_namespaces.mpr ⟨a, ha, rfl⟩
  refine ⟨Ordered.nodup_distinct _ _, fun a ha => ⟨hown a ha, fun n hn => ?_⟩, fun n hn => ?_,
    hwf.flatMap_attributesIn, ?_⟩
  · rw [hwf.mem_attributesIn_iff hn, and_iff_right ha]
  · obtain ⟨a, ha, rfl⟩ := mem_namespaces.mp hn
    exact List.ne_nil_of_mem ((hwf.mem_attributesIn_iff hn).mpr ⟨ha, rfl⟩)
  · refine v.registry.pairwise_attributes.imp ?_
    rintro a b hlt rfl
    exact Ordered.not_lt_self _ hlt

/-- A registry with namespaces that begin alike, and with a key that repeats its namespace. -/
private def alike : Registry :=
  { version := .release 1 0 0
    entries :=
      ["media.media.media", "media.song", "media_x.media", "mediation.id"].map fun key =>
        ⟨Attribute.new key (.primitive (.scalar .string)) "A text." [.text "a"], []⟩
    ordered := by decide }

/-- The namespaces of that registry divide its attributes. -/
theorem namespaces_divide_alike :
    ∃ v, alike.validate [] false = .ok v ∧ v.registry = alike ∧
      v.registry.namespaces.Nodup ∧
      (∀ a ∈ v.registry.attributes, a.ownNamespace.name ∈ v.registry.namespaces ∧
        ∀ n ∈ v.registry.namespaces,
          a ∈ v.registry.attributesIn ⟨n⟩ ↔ n = a.ownNamespace.name) ∧
      (∀ n ∈ v.registry.namespaces, v.registry.attributesIn ⟨n⟩ ≠ []) ∧
      (v.registry.namespaces.flatMap fun n => v.registry.attributesIn ⟨n⟩) = v.registry.attributes ∧
      v.registry.attributes.Nodup := by
  have hown : ∀ a ∈ alike.attributes, ∀ f ∈ a.ownFindings, f.isError = false := by
    decide
  have hstable : ∀ a ∈ alike.attributes, a.stability ≠ .deprecated ∧ a.deprecatedBy = none := by
    decide
  have hwf : alike.WellFormed :=
    ⟨fun a ha => Attribute.noErrors_ownFindings.mp (hown a ha),
      fun a ha => ⟨fun hdep => absurd hdep (hstable a ha).1, fun _ => (hstable a ha).2⟩,
      by decide⟩
  obtain ⟨v, hv⟩ := hwf.exists_validate
  exact ⟨v, hv, registry_of_validate hv, namespaces_divide hv⟩

end Registry

end AttributeRegistry
