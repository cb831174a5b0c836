import AttributeRegistry.Proofs.Resolution.Classes
import AttributeRegistry.Proofs.Validation.Codes

/-!
# What a merge keeps

The registry holds the declared keys. Of the classes of a key it keeps the first one, with every place
where that is declared, and each of the other classes is one conflict with it, in their order.

A declaration that is there already is of a class that is there, at one of its places, so declaring it
again changes nothing: variants that differ only in how often they list their places (`once`) are
merged alike.

Main statement: `merge_exact`.
-/

namespace AttributeRegistry.Resolution

/-- A registry keeps a class of a key: one of its definitions, and the places of all of them in order,
each once. -/
structure Keeps (r : Registry) (fs : List Fragment) (key : String) (kept : Class) : Prop where
  definition : ∃ f ∈ fs, kept.Declares key f ∧ r.get? key = some f.definition
  mem_origins : ∀ place, place ∈ r.origins key ↔ ∃ f ∈ fs, kept.Declares key f ∧ f.origin = place
  ascending : (r.origins key).Pairwise fun a b => a.compare b = .lt

/-- A class of a key that differs from the one that is kept. -/
structure Clash where
  key : String
  kept : Class
  other : Class

/-- The clashes of the classes of a key, the first of which is kept. -/
def clashes (key : String) : List Class → List Clash
  | [] => []
  | kept :: others => others.map (Clash.mk key kept)

/-- A finding reports a clash: it names the places of both classes. -/
structure Reports (c : Clash) (x : Finding) : Prop where
  subject : x.subject = c.key
  message : x.message = "conflicting definitions of '" ++ c.key ++ "' in " ++ c.kept.1.document
    ++ " and " ++ c.other.1.document
  context : ["first declared at " ++ c.kept.1.display,
    "conflicting declaration at " ++ c.other.1.display] <+: x.context

variable {given : Option Version} {fs : List Fragment} {declared : List Declared} {key : String}

/-! ## Keys -/

theorem keys_ofFragments : (ofFragments given fs declared).registry.keys = keys fs := by
  refine Ordered.eq_of_pairwise_lt (pairwise_entries fs) (Ordered.pairwise_distinct _) fun key => ?_
  show key ∈ (entries fs).map Entry.key ↔ key ∈ keys fs
  rw [List.mem_map, mem_keys]
  constructor
  · rintro ⟨e, he, rfl⟩
    obtain ⟨f, hf, hdef⟩ := mem_entries he
    exact ⟨f, hf, by rw [hdef, Entry.key]⟩
  · rintro ⟨f, hf, rfl⟩
    exact exists_mem_entries hf

/-! ## Entries -/

/-- The entry of a declared key is its first variant. -/
theorem exists_entryOf? (h : key ∈ keys fs) : ∃ first others,
    variants (declarationsOf fs key) = first :: others ∧
      entryOf? fs key =
        some ⟨first.definition, Ordered.distinct Origin.compare first.origins⟩ := by
  obtain ⟨f, hf⟩ := mem_keys.mp h
  obtain ⟨first, others, hvariants⟩ :=
    List.exists_cons_of_ne_nil (variants_ne_nil (mem_declarationsOf.mpr hf))
  have hmem : first ∈ variants (declarationsOf fs key) := by
    rw [hvariants]
    exact List.mem_cons_self
  obtain ⟨⟨g, hg, hdef⟩, -⟩ := mem_variants hmem
  have hkey : first.definition.key = key := by
    rw [← hdef]
    exact (mem_declarationsOf.mp hg).2
  refine ⟨first, others, hvariants, ?_⟩
  unfold entryOf?
  rw [hvariants]
  exact if_pos hkey

/-- The entry of a declared key is found in the registry. -/
theorem find?_ofFragments {e : Entry} (hdeclared : key ∈ keys fs) (h : entryOf? fs key = some e)
    (given : Option Version) (declared : List Declared) :
    (ofFragments given fs declared).registry.find? key = some e := by
  have hkey : e.key = key := entryOf?_key h
  have hmem : e ∈ entries fs := List.mem_filterMap.mpr ⟨key, hdeclared, h⟩
  show (entries fs).find? (fun e => e.key = key) = some e
  cases hfind : (entries fs).find? fun e => e.key = key with
  | none =>
    rw [List.find?_eq_none] at hfind
    exact absurd (decide_eq_true hkey) (hfind e hmem)
  | some e' =>
    have hkey' : e'.key = key := by simpa using List.find?_some hfind
    obtain ⟨key', -, hentry⟩ := List.mem_filterMap.mp (List.mem_of_find?_eq_some hfind)
    rw [← entryOf?_key hentry, hkey', h] at hentry
    exact hentry.symm

/-- **The first class of a key is kept.** -/
theorem keeps_ofFragments (h : key ∈ keys fs) : ∃ kept others,
    classes fs key = kept :: others ∧
      Keeps (ofFragments given fs declared).registry fs key kept := by
  obtain ⟨first, others, hvariants, hentry⟩ := exists_entryOf? h
  have hfirst : first ∈ variants (declarationsOf fs key) := by
    rw [hvariants]
    exact List.mem_cons_self
  obtain ⟨kept, hkept⟩ := exists_classOf? hfirst
  obtain ⟨-, hsum⟩ := classOf?_eq_some_iff.mp hkept
  obtain ⟨hex, hv⟩ := mem_variants_iff.mp hfirst
  have hdeclares : ∀ f, f ∈ declarationsOf fs key ∧ f.definition.checksum.hex = hex ↔
      f ∈ fs ∧ kept.Declares key f := by
    intro f
    rw [mem_declarationsOf, and_assoc, Class.Declares, ← hsum, ← hex_of_variant? hv]
    exact and_congr_right fun _ => and_congr_right fun _ =>
      ⟨congrArg Checksum.mk, congrArg Checksum.hex⟩
  have hfind := find?_ofFragments h hentry given declared
  have horigins : (ofFragments given fs declared).registry.origins key =
      Ordered.distinct Origin.compare first.origins := by
    rw [Registry.origins, hfind]
  refine ⟨kept, others.filterMap classOf?, ?_, ?_, fun place => ?_, ?_⟩
  · rw [classes, hvariants, List.filterMap_cons_some hkept]
  · obtain ⟨⟨f, hf, hdef, hfhex⟩, -⟩ := variant?_eq_some hv
    obtain ⟨hf, hdeclares⟩ := (hdeclares f).mp ⟨hf, hfhex⟩
    refine ⟨f, hf, hdeclares, ?_⟩
    rw [Registry.get?, hfind, hdef]
    rfl
  · rw [horigins, Ordered.mem_distinct, mem_origins_of_variant? hv]
    simp only [← and_assoc, hdeclares]
  · rw [horigins]
    exact Ordered.pairwise_distinct _

/-! ## Conflicts -/

/-- The conflict of two variants reports that their classes clash. -/
theorem reports_conflict (key : String) {first other : Variant} {kept c : Class}
    (hkept : classOf? first = some kept) (hc : classOf? other = some c) :
    ∃ x, conflict key first other = [x] ∧ Reports ⟨key, kept, c⟩ x := by
  obtain ⟨_, hfirst⟩ := List.head?_eq_some_iff.mp (classOf?_eq_some_iff.mp hkept).1
  obtain ⟨_, hother⟩ := List.head?_eq_some_iff.mp (classOf?_eq_some_iff.mp hc).1
  unfold conflict
  rw [hfirst, hother]
  exact ⟨_, rfl, rfl, rfl, List.prefix_append _ _⟩

/-- The conflicts of a key report the clashes of its classes, one by one. -/
theorem forall₂_conflicts (fs : List Fragment) (key : String) :
    List.Forall₂ Reports (clashes key (classes fs key)) (conflicts key (declarationsOf fs key)) := by
  have hothers : ∀ {first : Variant} {kept : Class}, classOf? first = some kept →
      ∀ others : List Variant, (∀ v ∈ others, ∃ c, classOf? v = some c) →
        List.Forall₂ Reports ((others.filterMap classOf?).map (Clash.mk key kept))
          (others.flatMap (conflict key first)) := by
    intro first kept hkept others
    induction others with
    | nil => exact fun _ => .nil
    | cons other others ih =>
      intro hclass
      obtain ⟨⟨c, hc⟩, hclass⟩ := List.forall_mem_cons.mp hclass
      obtain ⟨x, hx, hreports⟩ := reports_conflict key hkept hc
      rw [List.filterMap_cons_some hc, List.map_cons, List.flatMap_cons, hx]
      exact .cons hreports (ih hclass)
  have hclass : ∀ v ∈ variants (declarationsOf fs key), ∃ c, classOf? v = some c := fun v =>
    exists_classOf?
  unfold classes conflicts
  cases hvariants : variants (declarationsOf fs key) with
  | nil => exact .nil
  | cons first others =>
    rw [hvariants] at hclass
    obtain ⟨⟨kept, hkept⟩, hclass⟩ := List.forall_mem_cons.mp hclass
    rw [List.filterMap_cons_some hkept]
    exact hothers hkept others hclass

/-! ## Declarations that are there already -/

/-- A variant that lists each of its places once. -/
def once (v : Variant) : Variant :=
  ⟨v.definition, Ordered.distinct Origin.compare v.origins⟩

/-- The first place of a variant is the same if each is listed once. -/
theorem head?_origins_once {hex : String} {v : Variant} (h : variant? fs hex = some v) :
    (once v).origins.head? = v.origins.head? := by
  have hsorted : Ordered.sort Origin.compare v.origins = v.origins :=
    List.mergeSort_of_pairwise (pairwise_origins h)
  show (Ordered.dropRepeats (Ordered.sort Origin.compare v.origins)).head? = _
  rw [Ordered.head?_dropRepeats, hsorted]

theorem compareFirst_eq_of_head? {v v' w w' : Variant} (hv : v.origins.head? = v'.origins.head?)
    (hw : w.origins.head? = w'.origins.head?) :
    Variant.compareFirst v w = Variant.compareFirst v' w' := by
  unfold Variant.compareFirst
  cases hvo : v.origins <;> cases hvo' : v'.origins <;> cases hwo : w.origins <;>
    cases hwo' : w'.origins <;> simp_all

/-- Declarations that are there already make no other variant. -/
theorem variant?_append {copies : List Fragment} (h : ∀ f ∈ copies, f ∈ fs) (hex : String) :
    (variant? (fs ++ copies) hex).map once = (variant? fs hex).map once := by
  unfold variant?
  rw [List.filter_append]
  cases hfs : fs.filter fun f => f.definition.checksum.hex = hex with
  | nil =>
    have hcopies : copies.filter (fun f => f.definition.checksum.hex = hex) = [] := by
      rw [List.filter_eq_nil_iff] at hfs ⊢
      exact fun f hf => hfs f (h f hf)
    rw [hcopies]
    rfl
  | cons f rest =>
    refine congrArg some ?_
    unfold once
    rw [Variant.mk.injEq]
    refine ⟨rfl, Ordered.distinct_congr fun place => ?_⟩
    rw [Ordered.mem_sort, Ordered.mem_sort]
    show place ∈ (f :: rest ++ copies.filter _).map Fragment.origin ↔ _
    rw [List.map_append, List.mem_append, or_iff_left_iff_imp]
    intro hplace
    obtain ⟨g, hg, rfl⟩ := List.mem_map.mp hplace
    rw [← hfs]
    rw [List.mem_filter] at hg
    exact List.mem_map_of_mem (List.mem_filter.mpr ⟨h g hg.1, hg.2⟩)

/-- Listing each place once may be done before the variants are sorted. -/
theorem map_once_variants (fs : List Fragment) : (variants fs).map once =
    Ordered.sort Variant.compareFirst
      ((Ordered.distinct compare (fs.map fun f => f.definition.checksum.hex)).filterMap fun hex =>
        (variant? fs hex).map once) := by
  unfold variants
  refine (Ordered.map_sort fun v hv w hw => ?_).trans (congrArg _ List.map_filterMap)
  obtain ⟨_, -, hv⟩ := List.mem_filterMap.mp hv
  obtain ⟨_, -, hw⟩ := List.mem_filterMap.mp hw
  exact (compareFirst_eq_of_head? (head?_origins_once hv) (head?_origins_once hw)).symm

theorem map_once_variants_append {copies : List Fragment} (h : ∀ f ∈ copies, f ∈ fs) :
    (variants (fs ++ copies)).map once = (variants fs).map once := by
  have hsums : Ordered.distinct compare ((fs ++ copies).map fun f => f.definition.checksum.hex) =
      Ordered.distinct compare (fs.map fun f => f.definition.checksum.hex) :=
    Ordered.distinct_congr fun hex => by
      rw [List.map_append, List.mem_append, or_iff_left_iff_imp]
      intro hhex
      obtain ⟨f, hf, rfl⟩ := List.mem_map.mp hhex
      exact List.mem_map_of_mem (h f hf)
  rw [map_once_variants, map_once_variants, hsums]
  simp only [variant?_append h]

/-- An entry lists each place once. -/
theorem entryOf?_eq (fs : List Fragment) (key : String) :
    entryOf? fs key =
      match (variants (declarationsOf fs key)).map once with
      | first :: _ => if first.definition.key = key then some ⟨first.definition, first.origins⟩ else none
      | [] => none := by
  unfold entryOf?
  cases variants (declarationsOf fs key) <;> rfl

/-- A conflict is about first places. -/
theorem conflict_once {hex hex' : String} {first other : Variant} (hfirst : variant? fs hex = some first)
    (hother : variant? fs hex' = some other) :
    conflict key (once first) (once other) = conflict key first other := by
  have hfhead := head?_origins_once hfirst
  have hohead := head?_origins_once hother
  obtain ⟨a, as, ha⟩ := List.exists_cons_of_ne_nil (variant?_eq_some hfirst).2
  obtain ⟨b, bs, hb⟩ := List.exists_cons_of_ne_nil (variant?_eq_some hother).2
  rw [ha] at hfhead
  rw [hb] at hohead
  obtain ⟨as', ha'⟩ := List.head?_eq_some_iff.mp hfhead
  obtain ⟨bs', hb'⟩ := List.head?_eq_some_iff.mp hohead
  unfold conflict
  rw [ha, hb, ha', hb']
  rfl

theorem conflicts_eq (fs : List Fragment) (key : String) :
    conflicts key fs =
      match (variants fs).map once with
      | [] => []
      | first :: others => others.flatMap (conflict key first) := by
  have hmem : ∀ v ∈ variants fs, ∃ hex, variant? fs hex = some v := fun v => mem_variants_iff.mp
  unfold conflicts
  cases hvariants : variants fs with
  | nil => rfl
  | cons first others =>
    rw [hvariants] at hmem
    obtain ⟨⟨hex, hfirst⟩, hmem⟩ := List.forall_mem_cons.mp hmem
    simp only [List.map_cons, List.flatMap_map]
    refine List.flatMap_congr fun other hother => ?_
    obtain ⟨hex', hother⟩ := hmem other hother
    exact (conflict_once hfirst hother).symm

/-- **Declarations that are there already change nothing.** -/
theorem ofFragments_append {copies : List Fragment} (h : ∀ f ∈ copies, f ∈ fs)
    (given : Option Version) (declared : List Declared) :
    ofFragments given (fs ++ copies) declared = ofFragments given fs declared := by
  have hvariants : ∀ key, (variants (declarationsOf (fs ++ copies) key)).map once =
      (variants (declarationsOf fs key)).map once := by
    intro key
    rw [declarationsOf, List.filter_append]
    refine map_once_variants_append fun f hf => ?_
    rw [List.mem_filter] at hf
    exact List.mem_filter.mpr ⟨h f hf.1, hf.2⟩
  have hkeys : keys (fs ++ copies) = keys fs := Ordered.distinct_congr fun key => by
    rw [List.map_append, List.mem_append, or_iff_left_iff_imp]
    intro hkey
    obtain ⟨f, hf, rfl⟩ := List.mem_map.mp hkey
    exact List.mem_map_of_mem (h f hf)
  have hentries : entries (fs ++ copies) = entries fs := by
    unfold entries
    rw [hkeys]
    refine List.filterMap_congr fun key _ => ?_
    rw [entryOf?_eq, entryOf?_eq, hvariants]
  have hconflicts : ∀ key, conflicts key (declarationsOf (fs ++ copies) key) =
      conflicts key (declarationsOf fs key) := by
    intro key
    rw [conflicts_eq, conflicts_eq, hvariants]
  unfold ofFragments
  simp only [hentries, hkeys, hconflicts]

/-! ## The whole merge -/

/-- **A merge keeps the class of each key that is declared first, and reports all others.** The keys of
the registry are the declared ones. Of the classes of a key, which are ordered by where they are
declared first and then by checksum, the registry keeps the first one; the conflicts found are those of
the kept class with each other one, key by key and class by class. Declarations that are there already
change nothing. -/
theorem merge_exact (given : Option Version) (fs : List Fragment) (declared : List Declared) :
    let merged := ofFragments given fs declared
    (∀ key, key ∈ merged.registry.keys ↔ ∃ f ∈ fs, f.definition.key = key) ∧
    merged.registry.keys.Pairwise (fun k l => compare k l = .lt) ∧
    (∃ classes : String → List Class, (∀ key, IsClasses fs key (classes key)) ∧
      (∀ key ∈ merged.registry.keys, ∃ kept others, classes key = kept :: others ∧
        Keeps merged.registry fs key kept) ∧
      List.Forall₂ Reports (merged.registry.keys.flatMap fun key => clashes key (classes key))
        (Report.withCode merged.findings .conflictingDefinition)) ∧
    ∀ copies : List Fragment, (∀ f ∈ copies, f ∈ fs) →
      ofFragments given (fs ++ copies) declared = merged := by
  intro merged
  have hkeys : merged.registry.keys = keys fs := keys_ofFragments
  refine ⟨fun key => ?_, merged.registry.ordered, ⟨classes fs, isClasses_classes fs, ?_, ?_⟩, ?_⟩
  · rw [hkeys, mem_keys]
  · intro key hkey
    rw [hkeys] at hkey
    exact keeps_ofFragments hkey
  · rw [hkeys, withCode_conflictingDefinition]
    induction keys fs with
    | nil => exact .nil
    | cons key keys ih =>
      rw [List.flatMap_cons, List.flatMap_cons]
      exact List.rel_append (forall₂_conflicts fs key) ih
  · intro copies hcopies
    exact ofFragments_append hcopies given declared

end AttributeRegistry.Resolution
