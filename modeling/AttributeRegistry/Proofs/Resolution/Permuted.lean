import AttributeRegistry.Proofs.Order.Stable
import AttributeRegistry.Proofs.Version.Order
import AttributeRegistry.Resolution

/-!
# Merging forgets the order of declarations

Every list that merging makes is sorted by what it holds, so that declarations may come in any order:
the merged registry is the same with the places of its definitions, and so are the findings, item by
item (`ofFragments_perm`). Two declarations with one checksum must have one definition for that, since
the definition that is found first stands.
-/

namespace AttributeRegistry

instance : Std.TransCmp Origin.compare :=
  have h₁ := Ordered.transCmp_comap Ord.compare Origin.document
  have h₂ := Ordered.transCmp_comap Ord.compare Origin.index
  @Ordered.transCmp_then _ _ _ h₁ h₂

instance : Std.LawfulEqCmp Origin.compare where
  eq_of_compare := by
    intro a b h
    obtain ⟨hdocument, hindex⟩ := Ordering.then_eq_eq.mp h
    cases a
    cases b
    rw [Origin.mk.injEq]
    exact ⟨Std.LawfulEqCmp.eq_of_compare hdocument, Std.LawfulEqCmp.eq_of_compare hindex⟩

namespace Resolution

/-- A checksum belongs to one definition of a key. -/
def Identified (fs : List Fragment) : Prop :=
  ∀ f ∈ fs, ∀ g ∈ fs, f.definition.key = g.definition.key →
    f.definition.checksum = g.definition.checksum → f.definition = g.definition

variable {fs gs : List Fragment} {declared declared' : List Declared}

/-! ## Versions -/

theorem versions_perm (h : declared.Perm declared') : versions declared = versions declared' :=
  Ordered.distinct_congr fun _ => (h.map Prod.snd).mem_iff

theorem documentsOf_perm (h : declared.Perm declared') : documentsOf declared = documentsOf declared' := by
  funext v
  exact Ordered.sort_eq_of_perm ((h.filter _).map Prod.fst)

theorem resolveVersion_perm (given : Option Version) (h : declared.Perm declared') :
    resolveVersion given declared = resolveVersion given declared' := by
  unfold resolveVersion versionConflict
  rw [versions_perm h, documentsOf_perm h]

/-! ## Variants -/

/-- The variant of a checksum is the same if all definitions with that checksum are. -/
theorem variant?_perm (h : fs.Perm gs) {hex : String}
    (hsame : ∀ f ∈ fs, ∀ g ∈ fs, f.definition.checksum.hex = hex →
      g.definition.checksum.hex = hex → f.definition = g.definition) :
    variant? fs hex = variant? gs hex := by
  have hfilter := h.filter fun f => f.definition.checksum.hex = hex
  have hmem : ∀ {f}, f ∈ fs.filter (fun f => f.definition.checksum.hex = hex) →
      f ∈ fs ∧ f.definition.checksum.hex = hex := by
    intro f hf
    simpa using List.mem_filter.mp hf
  unfold variant?
  cases hfs : fs.filter fun f => f.definition.checksum.hex = hex with
  | nil =>
    rw [hfs] at hfilter
    rw [hfilter.symm.eq_nil]
  | cons f rest =>
    cases hgs : gs.filter fun f => f.definition.checksum.hex = hex with
    | nil =>
      rw [hgs] at hfilter
      rw [hfilter.eq_nil] at hfs
      cases hfs
    | cons g rest' =>
      have hf := hmem (f := f) (by rw [hfs]; exact List.mem_cons_self)
      have hg := hmem (f := g) (hfilter.mem_iff.mpr (by rw [hgs]; exact List.mem_cons_self))
      rw [hfs, hgs] at hfilter
      dsimp only
      rw [hsame f hf.1 g hg.1 hf.2 hg.2,
        Ordered.sort_eq_of_perm (hfilter.map Fragment.origin)]

/-- **The variants of a key do not show the order of its declarations.** -/
theorem variants_perm (h : fs.Perm gs)
    (hsame : ∀ f ∈ fs, ∀ g ∈ fs, f.definition.checksum = g.definition.checksum →
      f.definition = g.definition) :
    variants fs = variants gs := by
  have hsums : Ordered.distinct compare (fs.map fun f => f.definition.checksum.hex) =
      Ordered.distinct compare (gs.map fun f => f.definition.checksum.hex) :=
    Ordered.distinct_congr fun _ => (h.map _).mem_iff
  have hvariant : variant? fs = variant? gs := by
    funext hex
    refine variant?_perm h fun f hf g hg hfhex hghex => hsame f hf g hg ?_
    exact congrArg Checksum.mk (hfhex.trans hghex.symm)
  unfold variants
  rw [hsums, hvariant]

/-! ## Entries and conflicts -/

theorem keys_perm (h : fs.Perm gs) : keys fs = keys gs :=
  Ordered.distinct_congr fun _ => (h.map _).mem_iff

theorem variants_declarationsOf_perm (h : fs.Perm gs) (hid : Identified fs) (key : String) :
    variants (declarationsOf fs key) = variants (declarationsOf gs key) := by
  refine variants_perm (h.filter _) fun f hf g hg => ?_
  obtain ⟨hf, hfkey⟩ := List.mem_filter.mp hf
  obtain ⟨hg, hgkey⟩ := List.mem_filter.mp hg
  rw [decide_eq_true_eq] at hfkey hgkey
  exact hid f hf g hg (hfkey.trans hgkey.symm)

theorem entries_perm (h : fs.Perm gs) (hid : Identified fs) : entries fs = entries gs := by
  have hentry : entryOf? fs = entryOf? gs := by
    funext key
    unfold entryOf?
    rw [variants_declarationsOf_perm h hid]
  unfold entries
  rw [keys_perm h, hentry]

theorem conflicts_perm (h : fs.Perm gs) (hid : Identified fs) (key : String) :
    conflicts key (declarationsOf fs key) = conflicts key (declarationsOf gs key) := by
  unfold conflicts
  rw [variants_declarationsOf_perm h hid]

/-- **Merging forgets the order of declarations.** -/
theorem ofFragments_perm (given : Option Version) (h : fs.Perm gs)
    (hdeclared : declared.Perm declared') (hid : Identified fs) :
    ofFragments given fs declared = ofFragments given gs declared' := by
  have hconflicts : (fun key => conflicts key (declarationsOf fs key)) =
      fun key => conflicts key (declarationsOf gs key) :=
    funext (conflicts_perm h hid)
  unfold ofFragments
  simp only [resolveVersion_perm given hdeclared, entries_perm h hid, keys_perm h, hconflicts]

end Resolution

end AttributeRegistry
