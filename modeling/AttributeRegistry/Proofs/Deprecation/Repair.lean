import AttributeRegistry.Proofs.Deprecation.Chains

/-!
# Following the advice

The finding about a chain may advise to name the key at the end of the walk instead. A registry in
which that is done (`redirect`) has the same cycles, the same keys are missing a replacement or name
one in vain, and only the key itself is in a chain no longer: every other key leads to the key it led
to, which is deprecated as it was.

Main statement: `chain_findings`.
-/

namespace AttributeRegistry

/-- An attribute that names another replacement than before, if it has a certain key. -/
def Attribute.redirect (a : Attribute) (key target : String) : Attribute :=
  if a.key = key then { a with deprecatedBy := some target } else a

@[simp] theorem Attribute.redirect_key (a : Attribute) (key target : String) :
    (a.redirect key target).key = a.key := by
  unfold redirect
  split <;> rfl

@[simp] theorem Attribute.redirect_stability (a : Attribute) (key target : String) :
    (a.redirect key target).stability = a.stability := by
  unfold redirect
  split <;> rfl

namespace Registry

/-- A registry in which a key names another replacement than before. -/
def redirect (r : Registry) (key target : String) : Registry where
  version := r.version
  entries := r.entries.map fun e => { e with definition := e.definition.redirect key target }
  ordered := by
    rw [List.map_map]
    have hkey : (Entry.key ∘ fun e : Entry =>
        { e with definition := e.definition.redirect key target }) = Entry.key :=
      funext fun e => e.definition.redirect_key key target
    rw [hkey]
    exact r.ordered

/-- The codes of what is found about replacements. -/
def deprecationCodes : List Code :=
  replacementCodes ++ [.deprecationChain, .deprecationCycle]

/-- Which keys have findings about replacements, and of which codes. -/
def deprecationMarks (r : Registry) : Set (String × Code) :=
  {mark | mark.2 ∈ deprecationCodes ∧ ∃ f ∈ r.check, (f.subject, f.code) = mark}

variable {r : Registry} {key target k next : String}

/-! ## What stays the same -/

theorem attributes_redirect (r : Registry) (key target : String) :
    (r.redirect key target).attributes = r.attributes.map (Attribute.redirect · key target) := by
  rw [attributes, attributes, redirect, List.map_map, List.map_map]
  rfl

@[simp] theorem keys_redirect (r : Registry) (key target : String) :
    (r.redirect key target).keys = r.keys := by
  rw [keys_eq, keys_eq, attributes_redirect, List.map_map]
  exact List.map_congr_left fun a _ => a.redirect_key key target

theorem exists_redirect_iff {p : Attribute → Prop} :
    (∃ a ∈ (r.redirect key target).attributes, p a) ↔
      ∃ a ∈ r.attributes, p (a.redirect key target) := by
  rw [attributes_redirect]
  constructor
  · rintro ⟨b, hb, h⟩
    obtain ⟨a, ha, rfl⟩ := List.mem_map.mp hb
    exact ⟨a, ha, h⟩
  · rintro ⟨a, ha, h⟩
    exact ⟨_, List.mem_map_of_mem ha, h⟩

/-- The same keys are in use. -/
theorem inUse_redirect : (r.redirect key target).InUse k ↔ r.InUse k := by
  unfold InUse
  simp only [exists_redirect_iff, Attribute.redirect_key, Attribute.redirect_stability]

/-- The same keys are deprecated. -/
theorem exists_deprecated_redirect :
    (∃ b ∈ (r.redirect key target).attributes, b.key = k ∧ b.stability = .deprecated) ↔
      ∃ b ∈ r.attributes, b.key = k ∧ b.stability = .deprecated := by
  simp only [exists_redirect_iff, Attribute.redirect_key, Attribute.redirect_stability]

/-- Every other key leads where it led. -/
theorem leads_redirect_of_ne (hne : k ≠ key) :
    (r.redirect key target).Leads k next ↔ r.Leads k next := by
  unfold Leads
  rw [exists_redirect_iff]
  simp only [Attribute.redirect_key, Attribute.redirect_stability, keys_redirect]
  refine exists_congr fun a => and_congr_right fun _ => and_congr_right fun hkey => ?_
  rw [Attribute.redirect, if_neg (hkey ▸ hne)]

/-- The key leads to nothing but its new replacement. -/
theorem eq_of_leads_redirect (h : (r.redirect key target).Leads key next) : next = target := by
  unfold Leads at h
  rw [exists_redirect_iff] at h
  obtain ⟨a, -, hkey, -, hby, -⟩ := h
  rw [Attribute.redirect_key] at hkey
  rw [Attribute.redirect, if_pos hkey] at hby
  exact (Option.some.inj hby).symm

/-! ## Cycles -/

/-- A cycle is one in every registry in which its keys lead where they led. -/
theorem IsCycle.of_leads {s : Registry} {c : Cycle String} (hc : r.IsCycle c)
    (h : ∀ k ∈ c, ∀ next, r.Leads k next → s.Leads k next) : s.IsCycle c := by
  obtain ⟨start, hstart⟩ := hc.exists_isLeast
  obtain ⟨rest, rfl⟩ := exists_coe_cons_of_mem hstart.1
  obtain ⟨hnodup, hchain⟩ := isCycle_cons.mp hc
  refine isCycle_cons.mpr ⟨hnodup, hchain.imp_of_mem_imp fun k next hk _ hnext => h k ?_ next hnext⟩
  rw [← List.cons_append, List.mem_append, List.mem_singleton] at hk
  rw [Cycle.mem_coe_iff]
  rcases hk with hk | rfl
  · exact hk
  · exact List.mem_cons_self

/-- The cycles are the same, if the key is on none and the new replacement is in use. -/
theorem isCycle_redirect (hkey : ¬ ∃ c, r.IsCycle c ∧ key ∈ c) (htarget : r.InUse target)
    {c : Cycle String} : (r.redirect key target).IsCycle c ↔ r.IsCycle c := by
  constructor
  · intro hc
    refine hc.of_leads fun k hk next hnext => ?_
    have hne : k ≠ key := by
      rintro rfl
      -- the new replacement would be on the cycle too
      obtain ⟨next, hmem, hnext⟩ := hc.exists_leads hk
      rw [eq_of_leads_redirect hnext] at hmem
      exact (inUse_redirect.mpr htarget).not_mem_cycle ⟨c, hc, hmem⟩
    exact (leads_redirect_of_ne hne).mp hnext
  · intro hc
    refine hc.of_leads fun k hk next hnext => ?_
    have hne : k ≠ key := by
      rintro rfl
      exact hkey ⟨c, hc, hk⟩
    exact (leads_redirect_of_ne hne).mpr hnext

/-! ## Chains -/

/-- The key is in a chain no longer, every other key is as before. -/
theorem chained_redirect (hkey : ¬ ∃ c, r.IsCycle c ∧ key ∈ c) (htarget : r.InUse target) :
    (r.redirect key target).Chained k ↔ r.Chained k ∧ k ≠ key := by
  unfold Chained
  simp only [isCycle_redirect hkey htarget, exists_deprecated_redirect]
  by_cases hne : k = key
  · subst hne
    refine ⟨?_, fun h => absurd rfl h.2⟩
    rintro ⟨⟨next, hnext, b, hb, rfl, hdep⟩, -⟩
    obtain ⟨t, ht, htkey, hstable⟩ := htarget
    obtain rfl := eq_of_key_eq hb ht ((eq_of_leads_redirect hnext).trans htkey.symm)
    exact absurd hdep hstable
  · simp only [leads_redirect_of_ne hne, ne_eq, hne, not_false_eq_true, and_true]

/-! ## Findings -/

/-- An attribute whose key leads to another one names a replacement as it should. -/
theorem Leads.namesReplacement {a : Attribute} (ha : a ∈ r.attributes) (h : r.Leads a.key next) :
    r.NamesReplacement a := by
  obtain ⟨b, hb, hkey, hdep, hby, hnext⟩ := h
  obtain rfl := eq_of_key_eq hb ha hkey
  obtain ⟨c, hc, rfl⟩ := Registry.mem_keys.mp hnext
  exact ⟨fun _ => ⟨c, hc, hby⟩, fun hstable => absurd hdep hstable⟩

/-- An attribute has the same findings about its replacement, if what leads to a key is made to lead to
another one. -/
theorem replacementFindings_redirect {a : Attribute} (ha : a ∈ r.attributes)
    (hleads : r.Leads key next) (htarget : target ∈ r.keys) :
    (r.redirect key target).replacementFindings (a.redirect key target) =
      r.replacementFindings a := by
  by_cases hkey : a.key = key
  · subst hkey
    have hmem : a.redirect a.key target ∈ (r.redirect a.key target).attributes := by
      rw [attributes_redirect]
      exact List.mem_map_of_mem ha
    have hstability : a.stability = .deprecated := by
      obtain ⟨b, hb, hbkey, hdep, -⟩ := hleads
      rwa [← eq_of_key_eq hb ha hbkey]
    have hleads' : (r.redirect a.key target).Leads (a.redirect a.key target).key target := by
      refine ⟨_, hmem, rfl, ?_, ?_, ?_⟩
      · rwa [Attribute.redirect_stability]
      · rw [Attribute.redirect, if_pos rfl]
      · rwa [keys_redirect]
    rw [replacementFindings_eq_nil_iff.mpr (hleads.namesReplacement ha),
      replacementFindings_eq_nil_iff.mpr (hleads'.namesReplacement hmem)]
  · have hcontains : ∀ k, (r.redirect key target).contains k = r.contains k := by
      intro k
      rw [Bool.eq_iff_iff, contains_iff, contains_iff, ← mem_keys, ← mem_keys, keys_redirect]
    rw [Attribute.redirect, if_neg hkey]
    unfold replacementFindings
    simp only [hcontains, keys_redirect]

theorem mem_check_of_replacementCodes {f : Finding} (h : f.code ∈ replacementCodes) :
    f ∈ r.check ↔ ∃ a ∈ r.attributes, f ∈ r.replacementFindings a := by
  unfold check graphFindings
  constructor
  · intro hf
    rcases List.mem_append.mp hf with hf | hf
    · rcases List.mem_append.mp hf with hf | hf
      · obtain ⟨a, ha, hf⟩ := List.mem_flatMap.mp hf
        rcases List.mem_append.mp hf with hf | hf
        · have hdisjoint : ∀ c ∈ replacementCodes, c ∉ Attribute.ownCodes := by decide
          exact absurd (Attribute.within_ownFindings f hf) (hdisjoint _ h)
        · exact ⟨a, ha, hf⟩
      · rcases List.mem_append.mp hf with hf | hf
        · rw [List.mem_singleton.mp (within_cycles _ f hf)] at h
          exact absurd h (by decide)
        · rw [List.mem_singleton.mp (within_chains _ f hf)] at h
          exact absurd h (by decide)
    · rw [List.mem_singleton.mp (within_collisionFindings f hf)] at h
      exact absurd h (by decide)
  · rintro ⟨a, ha, hf⟩
    refine List.mem_append_left _ (List.mem_append_left _ (List.mem_flatMap.mpr ⟨a, ha, ?_⟩))
    exact List.mem_append_right _ hf

/-- There is a finding about the least key of every cycle, and about no other one. -/
theorem exists_cycle_finding_iff :
    (∃ f ∈ Report.withCode r.check .deprecationCycle, f.subject = key) ↔
      ∃ c, r.IsCycle c ∧ IsLeast key c := by
  rw [withCode_cycle]
  constructor
  · rintro ⟨f, hf, rfl⟩
    obtain ⟨ks, hks, hf⟩ := List.mem_flatMap.mp hf
    obtain ⟨start, rest, rfl, hc, hleast⟩ := mem_cycles.mp hks
    obtain ⟨g, hg, hshows⟩ := shows_cycleFinding hc hleast
    rw [hg, List.mem_singleton] at hf
    subst hf
    exact ⟨_, hc, hshows.least⟩
  · rintro ⟨c, hc, hleast⟩
    obtain ⟨rest, rfl⟩ := exists_coe_cons_of_mem hleast.1
    obtain ⟨f, hf, hshows⟩ := shows_cycleFinding hc hleast
    refine ⟨f, List.mem_flatMap.mpr ⟨_, mem_cycles.mpr ⟨key, rest, rfl, hc, hleast⟩, ?_⟩,
      hshows.least.unique hleast⟩
    rw [hf]
    exact List.mem_singleton.mpr rfl

/-- What the findings about replacements are about. -/
theorem mem_deprecationMarks {code : Code} :
    (k, code) ∈ r.deprecationMarks ↔
      (code ∈ replacementCodes ∧
        ∃ a ∈ r.attributes, ∃ f ∈ r.replacementFindings a, f.subject = k ∧ f.code = code) ∨
      (code = .deprecationChain ∧ r.Chained k) ∨
      (code = .deprecationCycle ∧ ∃ c, r.IsCycle c ∧ IsLeast k c) := by
  have hwith : ∀ c, (∃ f ∈ Report.withCode r.check c, f.subject = k) ↔
      ∃ f ∈ r.check, (f.subject, f.code) = (k, c) := by
    intro c
    simp only [Report.withCode, List.mem_filter, decide_eq_true_eq, Prod.mk.injEq]
    exact exists_congr fun f => by rw [and_assoc, and_comm (b := f.subject = k)]
  constructor
  · rintro ⟨hcode, f, hf, hmark⟩
    obtain ⟨rfl, rfl⟩ := Prod.mk.inj hmark
    rcases List.mem_append.mp hcode with hcode | hcode
    · obtain ⟨a, ha, hf⟩ := (mem_check_of_replacementCodes hcode).mp hf
      exact .inl ⟨hcode, a, ha, f, hf, rfl, rfl⟩
    · rcases List.mem_cons.mp hcode with hchain | hcycle
      · refine .inr (.inl ⟨hchain, exists_chain_finding_iff.mp ((hwith _).mpr ⟨f, hf, ?_⟩)⟩)
        rw [← hchain]
      · have hcycle := List.mem_singleton.mp hcycle
        refine .inr (.inr ⟨hcycle, exists_cycle_finding_iff.mp ((hwith _).mpr ⟨f, hf, ?_⟩)⟩)
        rw [← hcycle]
  · rintro (⟨hcode, a, ha, f, hf, rfl, rfl⟩ | ⟨rfl, h⟩ | ⟨rfl, h⟩)
    · exact ⟨List.mem_append_left _ hcode, f,
        (mem_check_of_replacementCodes hcode).mpr ⟨a, ha, hf⟩, rfl⟩
    · have hcode : Code.deprecationChain ∈ deprecationCodes := by decide
      exact ⟨hcode, (hwith _).mp (exists_chain_finding_iff.mpr h)⟩
    · have hcode : Code.deprecationCycle ∈ deprecationCodes := by decide
      exact ⟨hcode, (hwith _).mp (exists_cycle_finding_iff.mpr h)⟩

/-- **Naming a key in use instead removes the finding about the chain, and nothing else.** -/
theorem deprecationMarks_redirect (hkey : r.Chained key) (htarget : r.InUse target) :
    (r.redirect key target).deprecationMarks =
      r.deprecationMarks \ {(key, .deprecationChain)} := by
  obtain ⟨⟨next, hnext, -⟩, hcycle⟩ := hkey
  have hmem : target ∈ r.keys := by
    obtain ⟨t, ht, htkey, -⟩ := htarget
    exact mem_keys.mpr ⟨t, ht, htkey⟩
  ext ⟨k, code⟩
  rw [Set.mem_sdiff, Set.mem_singleton_iff, Prod.mk.injEq, mem_deprecationMarks,
    mem_deprecationMarks]
  simp only [isCycle_redirect hcycle htarget, chained_redirect hcycle htarget, exists_redirect_iff]
  have hreplacement : (∃ a ∈ r.attributes,
      ∃ f ∈ (r.redirect key target).replacementFindings (a.redirect key target),
        f.subject = k ∧ f.code = code) ↔
      ∃ a ∈ r.attributes, ∃ f ∈ r.replacementFindings a, f.subject = k ∧ f.code = code := by
    refine exists_congr fun a => and_congr_right fun ha => ?_
    rw [replacementFindings_redirect ha hnext hmem]
  rw [hreplacement]
  by_cases hcode : code = .deprecationChain
  · subst hcode
    have hnot : Code.deprecationChain ∉ replacementCodes := by decide
    simp [hnot]
  · simp [hcode]

/-! ## The advice -/

/-- The line that shows a chain gives no advice. -/
theorem advice_ne (key path : String) : advice key ≠ "chain: " ++ path := by
  intro h
  have hadvice : "point deprecated_by at '".toList = 'p' :: "oint deprecated_by at '".toList := by
    decide
  have hchain : "chain: ".toList = 'c' :: "hain: ".toList := by decide
  have hlist := congrArg String.toList h
  unfold advice at hlist
  rw [String.toList_append, String.toList_append, String.toList_append, hadvice, hchain] at hlist
  exact absurd (List.cons.inj hlist).1 (by decide)

theorem advice_injective : Function.Injective advice := by
  intro key other h
  unfold advice at h
  rwa [String.append_left_inj, String.append_right_inj] at h

/-- Advice to name a key is given if that key is in use and the walk ends there. -/
theorem eq_of_advice_mem {path last : String}
    (h : advice target ∈ ("chain: " ++ path) :: if r.InUse last then [advice last] else []) :
    target = last ∧ r.InUse last := by
  rw [List.mem_cons] at h
  have hmem := h.resolve_left (advice_ne target path)
  by_cases huse : r.InUse last
  · rw [if_pos huse, List.mem_singleton] at hmem
    exact ⟨advice_injective hmem, huse⟩
  · rw [if_neg huse] at hmem
    cases hmem

/-- **Chains are reported exactly, and following the advice repairs them.** Every key in a chain has one
finding, which shows the one whole walk from it, and advises to name the key at the end of the walk if
that is in use. Whoever does so loses this finding and gets no other one about replacements. -/
theorem chain_findings (r : Registry) :
    (∃ keys : List String, keys.Nodup ∧ (∀ key, key ∈ keys ↔ r.Chained key) ∧
      List.Forall₂ r.ShowsChain keys (Report.withCode r.check .deprecationChain)) ∧
    (∀ front last other last', r.IsWalk front last → r.IsWalk other last' →
      (front ++ [last]).head? = (other ++ [last']).head? →
        front ++ [last] = other ++ [last']) ∧
    ∀ f ∈ Report.withCode r.check .deprecationChain, ∀ target, advice target ∈ f.context →
      (r.redirect f.subject target).deprecationMarks =
        r.deprecationMarks \ {(f.subject, .deprecationChain)} := by
  refine ⟨forall₂_chains r, fun _ _ _ _ h h' => h.unique h', fun f hf target hadvice => ?_⟩
  obtain ⟨hchained, hshows⟩ := showsChain_of_mem hf
  obtain ⟨rest, last, -, hcontext⟩ := hshows.path
  rw [hcontext] at hadvice
  obtain ⟨rfl, huse⟩ := eq_of_advice_mem hadvice
  exact deprecationMarks_redirect hchained huse

end Registry

end AttributeRegistry
