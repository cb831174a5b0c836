import AttributeRegistry.Proofs.Order.Stable
import AttributeRegistry.Proofs.Resolution.Permuted
import AttributeRegistry.Proofs.Resolution.Unanimous

/-!
# Classes of declarations

The declarations of a key that have one checksum are a class. A class stands where the first of its
declarations does. The variants of a key are its classes, in the order of these places; classes that
stand at the same place are in the order of their checksums, because the variants are sorted from
that order and sorting is stable (`pairwise_sort_then`).

Main statement: `isClasses_classes`.
-/

namespace AttributeRegistry

namespace Ordered

variable {α : Type} {cmp₁ cmp₂ : α → α → Ordering}

/-- What does not change how a list is ordered may be done before the list is sorted. -/
theorem map_sort {β : Type} {cmp : β → β → Ordering} {f : α → β} {as : List α}
    (h : ∀ a ∈ as, ∀ b ∈ as, cmp₁ a b = cmp (f a) (f b)) :
    (sort cmp₁ as).map f = sort cmp (as.map f) :=
  List.map_mergeSort fun a ha b hb => congrArg Ordering.isLE (h a ha b hb)

theorem head?_dropRepeats [DecidableEq α] (as : List α) :
    (dropRepeats as).head? = as.head? := by
  induction as with
  | nil => rfl
  | cons a as ih =>
    cases as with
    | nil => rfl
    | cons b as =>
      rw [dropRepeats]
      split
      · next h => rw [ih, h, List.head?_cons, List.head?_cons]
      · rfl

/-- Sorting a strictly ascending list by another comparison first makes it strictly ascending in both,
one after the other. -/
theorem pairwise_sort_then [Std.TransCmp cmp₁] {as : List α}
    (h : as.Pairwise fun a b => cmp₂ a b = .lt) :
    (sort cmp₁ as).Pairwise fun a b => (cmp₁ a b).then (cmp₂ a b) = .lt := by
  rw [List.pairwise_iff_forall_sublist]
  intro a b hab
  have hle : (cmp₁ a b).isLE :=
    List.pairwise_iff_forall_sublist.mp (pairwise_sort as) hab
  cases hcmp : cmp₁ a b with
  | lt => rfl
  | gt =>
    rw [hcmp] at hle
    cases hle
  | eq =>
    -- the two are in one class, so they stand in the list as they do in the sorted one
    have hself : cmp₁ a a = .eq := Std.ReflCmp.compare_self
    have hties : ties cmp₁ a [a, b] = [a, b] := by
      rw [ties_cons_of_eq hself, ties_cons_of_eq hcmp]
      rfl
    have hsub : (ties cmp₁ a [a, b]).Sublist (ties cmp₁ a (sort cmp₁ as)) := hab.filter _
    rw [ties_sort, hties] at hsub
    exact List.pairwise_iff_forall_sublist.mp h (hsub.trans List.filter_sublist)

end Ordered

namespace Resolution

instance : Std.TransCmp Variant.compareFirst where
  eq_swap := by
    intro a b
    unfold Variant.compareFirst
    cases a.origins with
    | nil => cases b.origins <;> rfl
    | cons x _ =>
      cases b.origins with
      | nil => rfl
      | cons y _ =>
        show x.compare y = (y.compare x).swap
        exact Std.OrientedCmp.eq_swap
  isLE_trans := by
    intro a b c hab hbc
    unfold Variant.compareFirst at *
    cases ha : a.origins with
    | nil => cases c.origins <;> rfl
    | cons x _ =>
      cases hb : b.origins with
      | nil => simp [ha, hb] at hab
      | cons y _ =>
        cases hc : c.origins with
        | nil => simp [hb, hc] at hbc
        | cons z _ =>
          simp only [ha, hb, hc] at hab hbc ⊢
          exact Std.TransCmp.isLE_trans hab hbc

/-- The declarations of a key that have one checksum: the least place where one of them is, and the
checksum. -/
abbrev Class := Origin × Checksum

/-- A declaration of a key that has the checksum of a class. -/
def Class.Declares (c : Class) (key : String) (f : Fragment) : Prop :=
  f.definition.key = key ∧ f.definition.checksum = c.2

/-- Classes are ordered by their places, those with one place by their checksums. -/
def Class.compare (a b : Class) : Ordering :=
  (a.1.compare b.1).then (Ord.compare a.2.hex b.2.hex)

/-- A class of the declarations of a key: it stands at the least place of its declarations. -/
structure IsClass (fs : List Fragment) (key : String) (c : Class) : Prop where
  mem : ∃ f ∈ fs, c.Declares key f ∧ f.origin = c.1
  least : ∀ f ∈ fs, c.Declares key f → (c.1.compare f.origin).isLE

/-- All classes of the declarations of a key, in order, each once. -/
structure IsClasses (fs : List Fragment) (key : String) (cs : List Class) : Prop where
  mem_iff : ∀ c, c ∈ cs ↔ IsClass fs key c
  ascending : cs.Pairwise fun a b => a.compare b = .lt

/-- The class of a variant. -/
def classOf? (v : Variant) : Option Class :=
  v.origins.head?.map fun place => (place, v.definition.checksum)

/-- The classes of a key, in order. -/
def classes (fs : List Fragment) (key : String) : List Class :=
  (variants (declarationsOf fs key)).filterMap classOf?

variable {fs : List Fragment} {key hex : String} {v : Variant} {c : Class}

/-! ## Variants -/

/-- A variant has one of the definitions with its checksum, and the places of all of them. -/
theorem variant?_eq_some_iff : variant? fs hex = some v ↔
    ∃ f rest, fs.filter (fun f => f.definition.checksum.hex = hex) = f :: rest ∧
      v = ⟨f.definition, Ordered.sort Origin.compare ((f :: rest).map Fragment.origin)⟩ := by
  unfold variant?
  cases fs.filter fun f => f.definition.checksum.hex = hex with
  | nil => simp
  | cons f rest => simp [eq_comm]

theorem mem_origins_of_variant? (h : variant? fs hex = some v) {place : Origin} :
    place ∈ v.origins ↔ ∃ f ∈ fs, f.definition.checksum.hex = hex ∧ f.origin = place := by
  obtain ⟨f, rest, hfilter, rfl⟩ := variant?_eq_some_iff.mp h
  rw [Ordered.mem_sort, ← hfilter, List.mem_map]
  simp only [List.mem_filter, decide_eq_true_eq, and_assoc]

theorem hex_of_variant? (h : variant? fs hex = some v) : v.definition.checksum.hex = hex := by
  obtain ⟨⟨f, -, hdef, hsum⟩, -⟩ := variant?_eq_some h
  rwa [hdef] at hsum

/-- The places of a variant are in order. -/
theorem pairwise_origins (h : variant? fs hex = some v) :
    v.origins.Pairwise fun a b => (a.compare b).isLE := by
  obtain ⟨f, rest, -, rfl⟩ := variant?_eq_some_iff.mp h
  exact Ordered.pairwise_sort _

/-- The variants stand in the order of their first places, then in that of their checksums. -/
theorem pairwise_variants_then (fs : List Fragment) :
    (variants fs).Pairwise fun v w =>
      (Variant.compareFirst v w).then (compare v.definition.checksum.hex w.definition.checksum.hex) =
        .lt := by
  unfold variants
  refine Ordered.pairwise_sort_then
    (List.Pairwise.filterMap (variant? fs) (fun a b hlt v hv w hw => ?_) (Ordered.pairwise_distinct _))
  rw [hex_of_variant? hv, hex_of_variant? hw]
  exact hlt

theorem mem_variants_iff : v ∈ variants fs ↔ ∃ hex, variant? fs hex = some v := by
  unfold variants
  rw [Ordered.mem_sort, List.mem_filterMap]
  constructor
  · rintro ⟨hex, -, hv⟩
    exact ⟨hex, hv⟩
  · rintro ⟨hex, hv⟩
    obtain ⟨⟨f, hf, -, rfl⟩, -⟩ := variant?_eq_some hv
    exact ⟨_, Ordered.mem_distinct.mpr (List.mem_map_of_mem hf), hv⟩

/-! ## Classes -/

theorem classOf?_eq_some_iff :
    classOf? v = some c ↔ v.origins.head? = some c.1 ∧ v.definition.checksum = c.2 := by
  obtain ⟨place, sum⟩ := c
  simp [classOf?]

/-- Every variant has a class. -/
theorem exists_classOf? (h : v ∈ variants fs) : ∃ c, classOf? v = some c := by
  obtain ⟨place, rest, horigins⟩ := List.exists_cons_of_ne_nil (mem_variants h).2
  exact ⟨(place, v.definition.checksum), classOf?_eq_some_iff.mpr ⟨by rw [horigins]; rfl, rfl⟩⟩

/-- The class of a variant is one of its key. -/
theorem isClass_of_variant? (h : variant? (declarationsOf fs key) hex = some v)
    (hc : classOf? v = some c) : IsClass fs key c := by
  obtain ⟨hhead, hsum⟩ := classOf?_eq_some_iff.mp hc
  obtain ⟨rest, horigins⟩ := List.head?_eq_some_iff.mp hhead
  have hhex : c.2.hex = hex := by rw [← hsum, hex_of_variant? h]
  constructor
  · have hplace : c.1 ∈ v.origins := List.mem_of_head? hhead
    obtain ⟨f, hf, hfhex, hforigin⟩ := (mem_origins_of_variant? h).mp hplace
    obtain ⟨hf, hfkey⟩ := mem_declarationsOf.mp hf
    exact ⟨f, hf, ⟨hfkey, congrArg Checksum.mk (hfhex.trans hhex.symm)⟩, hforigin⟩
  · rintro f hf ⟨hfkey, hfsum⟩
    have hforigin : f.origin ∈ v.origins :=
      (mem_origins_of_variant? h).mpr
        ⟨f, mem_declarationsOf.mpr ⟨hf, hfkey⟩, by rw [hfsum, hhex], rfl⟩
    have hpairwise := pairwise_origins h
    rw [horigins] at hforigin hpairwise
    rcases List.mem_cons.mp hforigin with heq | hmem
    · have hself : c.1.compare c.1 = .eq := Std.ReflCmp.compare_self
      rw [heq, hself]
      rfl
    · exact (List.pairwise_cons.mp hpairwise).1 _ hmem

/-- A class is determined by its checksum. -/
theorem IsClass.unique {d : Class} (hc : IsClass fs key c) (hd : IsClass fs key d) (h : c.2 = d.2) :
    c = d := by
  obtain ⟨f, hf, hfdeclares, hforigin⟩ := hc.mem
  obtain ⟨g, hg, hgdeclares, hgorigin⟩ := hd.mem
  have hle : (c.1.compare d.1).isLE := by
    rw [← hgorigin]
    exact hc.least g hg ⟨hgdeclares.1, hgdeclares.2.trans h.symm⟩
  have hge : (d.1.compare c.1).isLE := by
    rw [← hforigin]
    exact hd.least f hf ⟨hfdeclares.1, hfdeclares.2.trans h⟩
  exact Prod.ext (Std.LawfulEqCmp.eq_of_compare (Std.OrientedCmp.isLE_antisymm hle hge)) h

/-- **The variants of a key are its classes.** -/
theorem isClasses_classes (fs : List Fragment) (key : String) :
    IsClasses fs key (classes fs key) := by
  constructor
  · intro c
    rw [classes, List.mem_filterMap]
    constructor
    · rintro ⟨v, hv, hc⟩
      obtain ⟨hex, hv⟩ := mem_variants_iff.mp hv
      exact isClass_of_variant? hv hc
    · intro hc
      obtain ⟨f, hf, ⟨hfkey, hfsum⟩, -⟩ := hc.mem
      obtain ⟨v, hv⟩ := exists_variant? (mem_declarationsOf.mpr ⟨hf, hfkey⟩)
      have hmem := mem_variants_iff.mpr ⟨_, hv⟩
      obtain ⟨d, hd⟩ := exists_classOf? hmem
      refine ⟨v, hmem, ?_⟩
      -- the variant with the checksum has the class of the checksum
      have hsum : c.2 = d.2 := by
        rw [← hfsum, ← (classOf?_eq_some_iff.mp hd).2]
        exact congrArg Checksum.mk (hex_of_variant? hv).symm
      rw [hd, hc.unique (isClass_of_variant? hv hd) hsum]
  · refine List.Pairwise.filterMap classOf? (fun v w hlt c hc d hd => ?_) (pairwise_variants_then _)
    obtain ⟨hchead, hcsum⟩ := classOf?_eq_some_iff.mp hc
    obtain ⟨hdhead, hdsum⟩ := classOf?_eq_some_iff.mp hd
    obtain ⟨_, hcorigins⟩ := List.head?_eq_some_iff.mp hchead
    obtain ⟨_, hdorigins⟩ := List.head?_eq_some_iff.mp hdhead
    rw [Class.compare, ← hcsum, ← hdsum]
    rw [Variant.compareFirst, hcorigins, hdorigins] at hlt
    exact hlt

end Resolution

end AttributeRegistry
