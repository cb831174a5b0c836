import AttributeRegistry.Proofs.Registry.Definitions
import AttributeRegistry.Proofs.Validation.Codes

/-!
# Hints

The best of some candidates has the greatest score, and is the least in order of those that have it
(`Best`). Candidates are looked at in order and a later one has to be strictly better to be kept, so what
is kept is the best of those seen so far (`KeepsBest.better`, `keepsBest_foldl`). Which candidate is suggested
depends on neither the order nor the repetition of candidates (`suggest_congr`).

The finding of a replacement that is not registered names the registered key most like it, and never the
key of the attribute itself. Main statement: `suggestion_exact`.
-/

namespace AttributeRegistry

/-! ## The best candidate -/

/-- A candidate with the greatest score, and the least in order of those that have it. -/
structure Best (score : String → Option Int) (candidates : List String) (top : Int) (c : String) :
    Prop where
  mem : c ∈ candidates
  scored : score c = some top
  greatest : ∀ d ∈ candidates, ∀ n, score d = some n → n ≤ top
  least : ∀ d ∈ candidates, score d = some top → (compare c d).isLE

/-- What is kept of some candidates: the best with its score, and nothing if none of them has one. -/
def KeepsBest (score : String → Option Int) (candidates : List String) : Option (Int × String) → Prop
  | none => ∀ c ∈ candidates, score c = none
  | some (top, c) => Best score candidates top c

variable {score : String → Option Int} {candidates others seen : List String} {c d : String}

/-- There is one best candidate only. -/
theorem Best.unique {m n : Int} (hc : Best score candidates m c) (hd : Best score candidates n d) :
    c = d := by
  have htop : m = n :=
    Int.le_antisymm (hd.greatest c hc.mem m hc.scored) (hc.greatest d hd.mem n hd.scored)
  subst htop
  exact Std.LawfulEqCmp.eq_of_compare
    (Std.OrientedCmp.isLE_antisymm (hc.least d hd.mem hd.scored) (hd.least c hc.mem hc.scored))

theorem Best.congr {top : Int} (hmem : ∀ c, c ∈ others ↔ c ∈ candidates)
    (h : Best score candidates top c) : Best score others top c :=
  ⟨(hmem c).mpr h.mem, h.scored, fun d hd => h.greatest d ((hmem d).mp hd),
    fun d hd => h.least d ((hmem d).mp hd)⟩

/-- A candidate that is not better, and behind the best one in order, does not take its place. -/
theorem Best.stays {top : Int} (h : Best score seen top d) (hle : ∀ n, score c = some n → n ≤ top)
    (hbehind : (compare d c).isLE) : Best score (seen ++ [c]) top d := by
  refine ⟨List.mem_append_left _ h.mem, h.scored, ?_, ?_⟩
  · exact List.forall_mem_append.mpr ⟨h.greatest, List.forall_mem_singleton.mpr hle⟩
  · exact List.forall_mem_append.mpr ⟨h.least, List.forall_mem_singleton.mpr fun _ => hbehind⟩

/-- A candidate that is better than all before it is the best. -/
theorem best_of_lt {top : Int} (hscored : score c = some top)
    (hlt : ∀ d ∈ seen, ∀ n, score d = some n → n < top) : Best score (seen ++ [c]) top c := by
  refine ⟨List.mem_append_right _ (List.mem_singleton_self c), hscored, ?_, ?_⟩
  · refine List.forall_mem_append.mpr ⟨fun d hd n hn => (hlt d hd n hn).le, ?_⟩
    simp [hscored]
  · refine List.forall_mem_append.mpr ⟨fun d hd htop => ?_, ?_⟩
    · exact absurd (hlt d hd top htop) (lt_irrefl top)
    · simp

/-- **One turn**: behind a candidate in order, the best of all those seen is kept. -/
theorem KeepsBest.better {best : Option (Int × String)} (h : KeepsBest score seen best)
    (hbehind : ∀ d ∈ seen, (compare d c).isLE) :
    KeepsBest score (seen ++ [c]) (betterCandidate score best c) := by
  unfold betterCandidate
  cases hscore : score c with
  | none =>
    cases best with
    | none => exact List.forall_mem_append.mpr ⟨h, List.forall_mem_singleton.mpr hscore⟩
    | some best => exact Best.stays h (by simp [hscore]) (hbehind _ h.mem)
  | some n =>
    cases best with
    | none =>
      -- none of the candidates before has a score
      exact best_of_lt hscore fun d hd m hm => by simp [h d hd] at hm
    | some best =>
      obtain ⟨top, old⟩ := best
      by_cases hlt : top < n
      · simp only [hlt, if_true]
        exact best_of_lt hscore fun d hd m hm => (h.greatest d hd m hm).trans_lt hlt
      · simp only [hlt, if_false]
        refine Best.stays h (fun m hm => ?_) (hbehind old h.mem)
        rw [hscore, Option.some.injEq] at hm
        omega

/-- **A whole run** over candidates in order keeps the best of them. -/
theorem keepsBest_foldl {best : Option (Int × String)} (h : KeepsBest score seen best)
    (hordered : (seen ++ candidates).Pairwise fun a b => (compare a b).isLE) :
    KeepsBest score (seen ++ candidates) (candidates.foldl (betterCandidate score) best) := by
  induction candidates generalizing seen best with
  | nil => simpa using h
  | cons c rest ih =>
    have hc : ∀ d ∈ seen, (compare d c).isLE :=
      fun d hd => (List.pairwise_append.mp hordered).2.2 d hd c List.mem_cons_self
    rw [List.append_cons] at hordered ⊢
    rw [List.foldl_cons]
    exact ih (h.better hc) hordered

theorem keepsBest_sortStrings (score : String → Option Int) (candidates : List String) :
    KeepsBest score candidates
      ((Ordered.sortStrings candidates).foldl (betterCandidate score) none) := by
  have hsorted : KeepsBest score ([] ++ Ordered.sortStrings candidates)
      ((Ordered.sortStrings candidates).foldl (betterCandidate score) none) :=
    keepsBest_foldl (fun c hc => absurd hc List.not_mem_nil) (Ordered.pairwise_sort candidates)
  cases hbest : (Ordered.sortStrings candidates).foldl (betterCandidate score) none with
  | none =>
    rw [hbest] at hsorted
    exact fun c hc => hsorted c (Ordered.mem_sort.mpr hc)
  | some best =>
    rw [hbest] at hsorted
    exact Best.congr (fun c => Ordered.mem_sort.symm) hsorted

theorem suggest_eq_none_iff :
    suggest score candidates = none ↔ ∀ c ∈ candidates, score c = none := by
  have hkeeps := keepsBest_sortStrings score candidates
  rw [suggest, Option.map_eq_none_iff]
  constructor
  · intro hnone
    rwa [hnone] at hkeeps
  · intro h
    cases hbest : (Ordered.sortStrings candidates).foldl (betterCandidate score) none with
    | none => rfl
    | some best =>
      rw [hbest] at hkeeps
      have hscored := hkeeps.scored
      simp [h _ hkeeps.mem] at hscored

/-- **The best candidate is suggested.** -/
theorem suggest_eq_some_iff :
    suggest score candidates = some c ↔ ∃ top, Best score candidates top c := by
  have hkeeps := keepsBest_sortStrings score candidates
  rw [suggest, Option.map_eq_some_iff]
  constructor
  · rintro ⟨⟨top, c⟩, hbest, rfl⟩
    rw [hbest] at hkeeps
    exact ⟨top, hkeeps⟩
  · rintro ⟨top, hc⟩
    cases hbest : (Ordered.sortStrings candidates).foldl (betterCandidate score) none with
    | none =>
      rw [hbest] at hkeeps
      have hscored := hc.scored
      simp [hkeeps c hc.mem] at hscored
    | some best =>
      rw [hbest] at hkeeps
      exact ⟨best, rfl, hkeeps.unique hc⟩

/-- The same candidates have the same best one, however they are listed. -/
theorem suggest_congr (h : ∀ c, c ∈ others ↔ c ∈ candidates) :
    suggest score others = suggest score candidates := by
  refine Option.ext fun c => ?_
  rw [suggest_eq_some_iff, suggest_eq_some_iff]
  exact exists_congr fun top => ⟨Best.congr fun d => (h d).symm, Best.congr h⟩

/-! ## Replacements that are not registered -/

theorem hint_eq (needle : String) (candidates : List String) :
    (hint needle candidates = [] ∧ ∀ c ∈ candidates, Text.similarity? needle c = none) ∨
      ∃ c top, Best (Text.similarity? needle) candidates top c ∧
        hint needle candidates = ["did you mean '" ++ c ++ "'?"] := by
  unfold hint
  cases hsuggest : suggest (Text.similarity? needle) candidates with
  | none => exact .inl ⟨rfl, suggest_eq_none_iff.mp hsuggest⟩
  | some c =>
    obtain ⟨top, hbest⟩ := suggest_eq_some_iff.mp hsuggest
    exact .inr ⟨c, top, hbest, rfl⟩

namespace Registry

variable {r : Registry} {f : Finding}

/-- The findings of replacements that are not registered come from the check of an attribute's
replacement. -/
theorem exists_of_danglingDeprecation (hf : f ∈ r.check) (hcode : f.code = .danglingDeprecation) :
    ∃ a ∈ r.attributes, f ∈ r.replacementFindings a := by
  have hother : ∀ {cs : List Code} {p : Report}, Report.Within cs p → .danglingDeprecation ∉ cs →
      f ∉ p := fun hwithin hcs hp => hcs (hcode ▸ hwithin f hp)
  rw [check, graphFindings, List.mem_append, List.mem_append, List.mem_append] at hf
  rcases hf with (hf | hf | hf) | hf
  · obtain ⟨a, ha, hf⟩ := List.mem_flatMap.mp hf
    rcases List.mem_append.mp hf with hf | hf
    · exact absurd hf (hother Attribute.within_ownFindings (by decide))
    · exact ⟨a, ha, hf⟩
  · exact absurd hf (hother (within_cycles _) (by decide))
  · exact absurd hf (hother (within_chains _) (by decide))
  · exact absurd hf (hother within_collisionFindings (by decide))

theorem eq_of_danglingDeprecation {a : Attribute} (hf : f ∈ r.replacementFindings a)
    (hcode : f.code = .danglingDeprecation) :
    ∃ target, a.deprecatedBy = some target ∧ r.contains target = false ∧
      f = .new a.key .danglingDeprecation
        ("deprecated_by references unknown key '" ++ target ++ "'")
        (hint target (r.keys.filter (· ≠ a.key))) := by
  unfold replacementFindings at hf
  split at hf
  · cases List.mem_singleton.mp hf
    cases hcode
  · cases hf
  · cases List.mem_singleton.mp hf
    cases hcode
  · next target hby _ =>
    split at hf
    · cases hf
    · next hcontains =>
      exact ⟨target, hby, Bool.eq_false_iff.mpr hcontains, List.mem_singleton.mp hf⟩

end Registry

/-- **The best candidate is suggested**, whatever the scores are: nothing if no candidate has a score, and
else the least in order of those with the greatest score; neither the order nor the repetition of
candidates counts. So the finding of a replacement that is not registered advises another registered key,
the best of all but the attribute's own, unless none of them is like it at all. -/
theorem suggestion_exact :
    (∀ (score : String → String → Option Int) (needle : String) (candidates : List String),
      (suggest (score needle) candidates = none ↔ ∀ c ∈ candidates, score needle c = none) ∧
      (∀ c, suggest (score needle) candidates = some c ↔
        ∃ top, Best (score needle) candidates top c) ∧
      ∀ others, (∀ c, c ∈ others ↔ c ∈ candidates) →
        suggest (score needle) others = suggest (score needle) candidates) ∧
    ∀ (r : Registry) (f : Finding), f ∈ r.check → f.code = .danglingDeprecation →
      ∃ a ∈ r.attributes, ∃ target, a.deprecatedBy = some target ∧ target ∉ r.keys ∧
        f.subject = a.key ∧
        ((f.context = [] ∧ ∀ key ∈ r.keys, key ≠ a.key → Text.similarity? target key = none) ∨
          ∃ key ∈ r.keys, key ≠ a.key ∧ f.context = ["did you mean '" ++ key ++ "'?"] ∧
            ∃ top, Best (Text.similarity? target) (r.keys.filter (· ≠ a.key)) top key) := by
  refine ⟨fun score needle candidates => ⟨suggest_eq_none_iff, fun c => suggest_eq_some_iff,
    fun others => suggest_congr⟩, fun r f hf hcode => ?_⟩
  obtain ⟨a, ha, hf⟩ := Registry.exists_of_danglingDeprecation hf hcode
  obtain ⟨target, hby, hcontains, rfl⟩ := Registry.eq_of_danglingDeprecation hf hcode
  have hmissing : target ∉ r.keys := by
    rw [Registry.mem_keys, ← Registry.contains_iff, hcontains]
    simp
  refine ⟨a, ha, target, hby, hmissing, rfl, ?_⟩
  have hother : ∀ key, key ∈ r.keys.filter (· ≠ a.key) ↔ key ∈ r.keys ∧ key ≠ a.key := by
    simp
  rcases hint_eq target (r.keys.filter (· ≠ a.key)) with ⟨hnil, hnone⟩ | ⟨key, top, hbest, hhint⟩
  · exact .inl ⟨hnil, fun key hkey hne => hnone key ((hother key).mpr ⟨hkey, hne⟩)⟩
  · obtain ⟨hkey, hne⟩ := (hother key).mp hbest.mem
    exact .inr ⟨key, hkey, hne, hhint, top, hbest⟩

/-- A registry with a misspelt replacement that is most like the key of its own attribute, and as much
like one other key as like the next. -/
private def misspelt : Registry :=
  { version := .release 1 0 0
    entries :=
      [⟨Attribute.new "host.arch" (.primitive (.scalar .string)) "Its kind." [.text "a"], []⟩,
        ⟨{ Attribute.new "host.name" (.primitive (.scalar .string)) "Its name." [.text "a"] with
          stability := .deprecated, deprecatedBy := some "host.nam" }, []⟩,
        ⟨Attribute.new "host.named" (.primitive (.scalar .string)) "Its name." [.text "a"], []⟩,
        ⟨Attribute.new "host.names" (.primitive (.scalar .string)) "Its names." [.text "a"], []⟩]
    ordered := by decide }

/-- The finding of that replacement. -/
private def misspeltFinding : Finding :=
  .new "host.name" .danglingDeprecation "deprecated_by references unknown key 'host.nam'"
    ["did you mean 'host.named'?"]

/-- Repeated candidates, and the finding of a misspelt replacement. -/
theorem suggestion_exact_misspelt :
    (∀ c, c ∈ ["profile", "trace", "profile"] ↔ c ∈ ["trace", "profile"]) ∧
    suggest (Text.similarity? "profil") ["profile", "trace", "profile"] =
      suggest (Text.similarity? "profil") ["trace", "profile"] ∧
    misspeltFinding ∈ misspelt.check ∧ misspeltFinding.code = .danglingDeprecation ∧
    ∃ a ∈ misspelt.attributes, ∃ target, a.deprecatedBy = some target ∧ target ∉ misspelt.keys ∧
      misspeltFinding.subject = a.key ∧
      ((misspeltFinding.context = [] ∧
          ∀ key ∈ misspelt.keys, key ≠ a.key → Text.similarity? target key = none) ∨
        ∃ key ∈ misspelt.keys, key ≠ a.key ∧
          misspeltFinding.context = ["did you mean '" ++ key ++ "'?"] ∧
          ∃ top, Best (Text.similarity? target) (misspelt.keys.filter (· ≠ a.key)) top key) := by
  have hsame : ∀ c, c ∈ ["profile", "trace", "profile"] ↔ c ∈ ["trace", "profile"] := by
    intro c
    simp only [List.mem_cons, List.not_mem_nil, or_false]
    tauto
  have hhint : hint "host.nam" (misspelt.keys.filter (· ≠ "host.name")) =
      ["did you mean 'host.named'?"] := by
    have hkeys : misspelt.keys.filter (· ≠ "host.name") = ["host.arch", "host.named", "host.names"] := by
      decide
    have hsorted : Ordered.sortStrings ["host.arch", "host.named", "host.names"] =
        ["host.arch", "host.named", "host.names"] :=
      List.mergeSort_of_pairwise (by decide)
    rw [hkeys, hint, suggest, hsorted]
    decide
  have hfound : misspeltFinding ∈ misspelt.check := by
    refine List.mem_append_left _ (List.mem_append_left _ (List.mem_flatMap.mpr
      ⟨misspelt.attributes[1], List.getElem_mem _, List.mem_append_right _ ?_⟩))
    rw [misspeltFinding, ← hhint]
    exact List.mem_singleton_self _
  exact ⟨hsame, (suggestion_exact.1 Text.similarity? "profil" ["trace", "profile"]).2.2 _ hsame,
    hfound, rfl, suggestion_exact.2 misspelt misspeltFinding hfound rfl⟩

end AttributeRegistry
