import AttributeRegistry.Proofs.Deprecation.Graph
import AttributeRegistry.Proofs.Validation.Codes

/-!
# Every cycle is found once

Walking on from a key of a cycle comes back to the key, within as many steps as the registry has keys
(`cycleThrough?_eq_some_iff`), and from no other key. So the cycles that are collected, each at its
least key, are all cycles of the graph of replacements, each once (`mem_cycles`, `nodup_cycles`).

Main statement: the findings about cycles are the cycles, one by one (`cycle_findings`).
-/

namespace AttributeRegistry.Registry

open Relation

variable {r : Registry} {key next goal : String}

/-! ## Walking back to a key -/

/-- The walk to a key finds the way to the first place where the key is met, if there is one that is
short enough. -/
theorem pathBackTo_eq_some_iff {steps : Nat} {ks : List String} :
    r.pathBackTo goal steps key = some ks ↔
      ∃ rest, ks = key :: rest ∧ (key :: (rest ++ [goal])).IsChain r.Leads ∧ goal ∉ rest ∧
        rest.length < steps := by
  induction steps generalizing key ks with
  | zero => simp [pathBackTo]
  | succ steps ih =>
    rw [pathBackTo]
    cases hnext : r.successor? key with
    | none =>
      constructor
      · intro h
        cases h
      · rintro ⟨rest, -, hchain, -⟩
        -- the first step of the way would be one
        have hstep : ∃ next, r.Leads key next := by
          cases rest with
          | nil => exact ⟨goal, (List.isChain_cons_cons.mp hchain).1⟩
          | cons b rest => exact ⟨b, (List.isChain_cons_cons.mp hchain).1⟩
        obtain ⟨next, hstep⟩ := hstep
        rw [successor?_eq_some_iff.mpr hstep] at hnext
        cases hnext
    | some next =>
      have hstep : r.Leads key next := successor?_eq_some_iff.mp hnext
      dsimp only
      by_cases hgoal : next = goal
      · subst hgoal
        rw [if_pos rfl]
        constructor
        · intro h
          cases h
          exact ⟨[], rfl, List.isChain_pair.mpr hstep, List.not_mem_nil, Nat.succ_pos _⟩
        · rintro ⟨rest, rfl, hchain, hrest, -⟩
          cases rest with
          | nil => rfl
          | cons b rest =>
            obtain rfl : next = b := hstep.unique (List.isChain_cons_cons.mp hchain).1
            exact absurd List.mem_cons_self hrest
      · rw [if_neg hgoal, Option.map_eq_some_iff]
        constructor
        · rintro ⟨ks, hks, rfl⟩
          obtain ⟨rest, rfl, hchain, hrest, hlength⟩ := ih.mp hks
          refine ⟨next :: rest, rfl, List.isChain_cons_cons.mpr ⟨hstep, hchain⟩, ?_, ?_⟩
          · rw [List.mem_cons, not_or]
            exact ⟨Ne.symm hgoal, hrest⟩
          · simp only [List.length_cons]
            omega
        · rintro ⟨rest, rfl, hchain, hrest, hlength⟩
          cases rest with
          | nil => exact absurd (hstep.unique (List.isChain_cons_cons.mp hchain).1) hgoal
          | cons b rest =>
            obtain ⟨hb, hchain⟩ := List.isChain_cons_cons.mp hchain
            obtain rfl : next = b := hstep.unique hb
            rw [List.mem_cons, not_or] at hrest
            rw [List.length_cons] at hlength
            exact ⟨next :: rest, ih.mpr ⟨rest, rfl, hchain, hrest.2, by omega⟩, rfl⟩

/-- **The cycle through a key is found iff there is one**: no cycle is longer than the walk. -/
theorem cycleThrough?_eq_some_iff {ks : List String} :
    r.cycleThrough? key = some ks ↔ ∃ rest, ks = key :: rest ∧ r.IsCycle ↑(key :: rest) := by
  rw [cycleThrough?, pathBackTo_eq_some_iff]
  refine exists_congr fun rest => and_congr_right fun _ => ?_
  constructor
  · rintro ⟨hchain, hkey, -⟩
    exact isCycle_of_path hchain hkey
  · intro hc
    obtain ⟨hnodup, hchain⟩ := isCycle_cons.mp hc
    have hle : (key :: rest).length ≤ r.size := length_le_size hnodup (mem_keys_of_path hchain)
    exact ⟨hchain, (List.nodup_cons.mp hnodup).1, Nat.lt_of_succ_le hle⟩

/-- A walk along a cycle ends where it comes back to a key that was met, and not before. -/
theorem walk_of_path {rest met : List String} {steps : Nat} (hsteps : rest.length < steps)
    (hchain : (key :: (rest ++ [goal])).IsChain r.Leads) (hnodup : (met ++ key :: rest).Nodup)
    (hgoal : goal ∈ met ++ [key]) : r.walk steps met key = key :: (rest ++ [goal]) := by
  have hreplacement : ∀ {k l : String}, r.Leads k l →
      (r.get? k).bind Attribute.replacement? = some l ∧ r.contains l = true := by
    rintro k l ⟨a, ha, hkey, hstability, hby, hl⟩
    rw [get?_eq_some_iff.mpr ⟨ha, hkey⟩]
    refine ⟨?_, contains_iff.mpr (mem_keys.mp hl)⟩
    simp [Attribute.replacement?, Attribute.isDeprecated, hstability, hby]
  induction rest generalizing key met steps with
  | nil =>
    obtain ⟨steps, rfl⟩ := Nat.exists_eq_add_of_lt hsteps
    have hstep := (hreplacement (List.isChain_cons_cons.mp hchain).1).1
    simp [walk, hstep, hgoal]
  | cons b rest ih =>
    obtain ⟨hstep, hchain⟩ := List.isChain_cons_cons.mp hchain
    obtain ⟨hnext, hcontains⟩ := hreplacement hstep
    cases steps with
    | zero => exact absurd hsteps (Nat.not_lt_zero _)
    | succ steps =>
      have happend : met ++ key :: b :: rest = (met ++ [key]) ++ b :: rest := by simp
      rw [happend] at hnodup
      have hnew : b ∉ met ++ [key] := fun hb =>
        (List.nodup_append.mp hnodup).2.2 b hb b List.mem_cons_self rfl
      have hlength : rest.length < steps := by simpa using hsteps
      have hrest := ih hlength hchain hnodup (List.mem_append_left _ hgoal)
      simp only [List.mem_append, List.mem_singleton, not_or] at hnew
      simp [walk, hnext, hcontains, hnew, hrest]

/-! ## Collecting the cycles -/

/-- The least key of a list is the key no other one of the list is below. -/
theorem leastKey?_eq_some_iff {keys : List String} :
    leastKey? keys = some key ↔ key ∈ keys ∧ ∀ k ∈ keys, (compare key k).isLE := by
  have hsorted : (Ordered.sort compare keys).Pairwise fun k l => (compare k l).isLE :=
    Ordered.pairwise_sort keys
  have hmem : ∀ k, k ∈ Ordered.sortStrings keys ↔ k ∈ keys := fun _ => Ordered.mem_sort
  unfold leastKey?
  rw [Ordered.sortStrings] at hmem ⊢
  cases hsort : Ordered.sort compare keys with
  | nil =>
    rw [hsort] at hmem
    simp [← hmem]
  | cons first rest =>
    rw [hsort] at hmem hsorted
    have hfirst : ∀ k ∈ keys, (compare first k).isLE := by
      intro k hk
      rcases List.mem_cons.mp ((hmem k).mpr hk) with rfl | hk
      · have hself : compare k k = .eq := Std.ReflCmp.compare_self
        rw [hself]
        rfl
      · exact (List.pairwise_cons.mp hsorted).1 k hk
    have hfirstmem : first ∈ keys := (hmem first).mp List.mem_cons_self
    rw [List.head?_cons, Option.some.injEq]
    constructor
    · rintro rfl
      exact ⟨hfirstmem, hfirst⟩
    · rintro ⟨hkey, hleast⟩
      exact Std.LawfulEqCmp.eq_of_compare
        (Std.OrientedCmp.isLE_antisymm (hfirst key hkey) (hleast first hfirstmem))

/-- Every key that leads on is linked. -/
theorem mem_linked_of_leads (h : r.Leads key next) : key ∈ r.linked := by
  obtain ⟨a, ha, rfl, hstability, -⟩ := id h
  refine List.mem_flatMap.mpr ⟨a, List.mem_filter.mpr ⟨ha, ?_⟩, ?_⟩
  · rw [Attribute.isDeprecated, hstability]
    rfl
  · rw [successor?_eq_some_iff.mpr h]
    exact List.mem_cons_self

/-- A key that no key of its cycle is below. -/
def IsLeast (key : String) (c : Cycle String) : Prop :=
  key ∈ c ∧ ∀ k ∈ c, (compare key k).isLE

theorem IsLeast.unique {other : String} {c : Cycle String} (h : IsLeast key c)
    (h' : IsLeast other c) : key = other :=
  Std.LawfulEqCmp.eq_of_compare
    (Std.OrientedCmp.isLE_antisymm (h.2 other h'.1) (h'.2 key h.1))

theorem leastKey?_eq_some_iff_isLeast {keys : List String} :
    leastKey? keys = some key ↔ IsLeast key ↑keys := by
  rw [leastKey?_eq_some_iff, IsLeast]
  simp only [Cycle.mem_coe_iff]

theorem IsCycle.exists_isLeast {c : Cycle String} (hc : r.IsCycle c) : ∃ key, IsLeast key c := by
  induction c using Quotient.inductionOn with
  | h keys =>
    cases hleast : leastKey? keys with
    | some key => exact ⟨key, leastKey?_eq_some_iff_isLeast.mp hleast⟩
    | none =>
      unfold leastKey? at hleast
      rw [List.head?_eq_none_iff, Ordered.sortStrings, Ordered.sort_eq_nil_iff] at hleast
      exact absurd ((Cycle.coe_eq_nil _).mpr hleast) hc.ne_nil

/-- The starts are the least keys of the cycles. -/
theorem mem_cycleStarts : key ∈ r.cycleStarts ↔ ∃ c, r.IsCycle c ∧ IsLeast key c := by
  unfold cycleStarts
  rw [List.mem_reverse, List.mem_eraseDups, List.mem_filterMap]
  constructor
  · rintro ⟨k, -, hk⟩
    obtain ⟨ks, hks, hleast⟩ := Option.bind_eq_some_iff.mp hk
    obtain ⟨rest, rfl, hc⟩ := cycleThrough?_eq_some_iff.mp hks
    exact ⟨_, hc, leastKey?_eq_some_iff_isLeast.mp hleast⟩
  · rintro ⟨c, hc, hleast⟩
    obtain ⟨rest, rfl⟩ := exists_coe_cons_of_mem hleast.1
    obtain ⟨next, -, hnext⟩ := hc.exists_leads hleast.1
    refine ⟨key, mem_linked_of_leads hnext, ?_⟩
    rw [cycleThrough?_eq_some_iff.mpr ⟨rest, rfl, hc⟩, Option.bind_some]
    exact leastKey?_eq_some_iff_isLeast.mpr hleast

/-- **What is collected are the cycles, read from their least keys on.** -/
theorem mem_cycles {ks : List String} :
    ks ∈ r.cycles ↔ ∃ start rest, ks = start :: rest ∧ r.IsCycle ↑ks ∧ IsLeast start ↑ks := by
  unfold cycles
  rw [List.mem_filterMap]
  constructor
  · rintro ⟨start, hstart, hks⟩
    obtain ⟨rest, rfl, hc⟩ := cycleThrough?_eq_some_iff.mp hks
    obtain ⟨c, hc', hleast⟩ := mem_cycleStarts.mp hstart
    refine ⟨start, rest, rfl, hc, Cycle.mem_coe_iff.mpr List.mem_cons_self, fun k hk => ?_⟩
    -- both cycles go through `start`
    exact hleast.2 k (hc'.mem_of_transGen hleast.1
      (hc.transGen (Cycle.mem_coe_iff.mpr List.mem_cons_self) hk))
  · rintro ⟨start, rest, rfl, hc, hleast⟩
    exact ⟨start, mem_cycleStarts.mpr ⟨_, hc, hleast⟩, cycleThrough?_eq_some_iff.mpr ⟨rest, rfl, hc⟩⟩

theorem nodup_eraseDups {α : Type} [BEq α] [LawfulBEq α] : ∀ as : List α, as.eraseDups.Nodup
  | [] => by simp
  | a :: as => by
    rw [List.eraseDups_cons, List.nodup_cons]
    refine ⟨fun h => ?_, nodup_eraseDups _⟩
    simpa using List.mem_eraseDups.mp h
termination_by as => as.length
decreasing_by
  have := List.length_filter_le (fun b => !b == a) as
  simp only [List.length_cons]
  omega

/-- No cycle is collected twice, from whichever key it is read. -/
theorem nodup_cycles (r : Registry) : (r.cycles.map Cycle.ofList).Nodup := by
  have hstarts : r.cycleStarts.Nodup := List.nodup_reverse.mpr (nodup_eraseDups _)
  refine List.pairwise_map.mpr (List.pairwise_filterMap.mpr ?_)
  refine hstarts.imp_of_mem fun {s t} hs ht hne ks hks ls hls heq => hne ?_
  have hleast : ∀ {start ks}, start ∈ r.cycleStarts → r.cycleThrough? start = some ks →
      IsLeast start ↑ks := by
    intro start ks hstart hks
    obtain ⟨_, _, rfl, -, hleast⟩ := mem_cycles.mp (List.mem_filterMap.mpr ⟨start, hstart, hks⟩)
    obtain ⟨rest, hcons, -⟩ := cycleThrough?_eq_some_iff.mp hks
    cases hcons
    exact hleast
  have hs := hleast hs hks
  rw [heq] at hs
  exact hs.unique (hleast ht hls)

/-! ## Findings -/

/-- A finding shows a cycle: it is about the least key of the cycle, and its path goes from that key
through every key of the cycle once and back to where it started. -/
structure Shows (r : Registry) (c : Cycle String) (f : Finding) : Prop where
  least : IsLeast f.subject c
  path : ∃ rest : List String, c = ↑(f.subject :: rest) ∧ (f.subject :: rest).Nodup ∧
    (f.subject :: (rest ++ [f.subject])).IsChain r.Leads ∧
    f.context = ["cycle: " ++ arrows (f.subject :: (rest ++ [f.subject]))] ∧
    -- following replacements for more steps than there are other keys on the cycle gives this path
    ∀ steps, rest.length < steps → r.walk steps [] f.subject = f.subject :: (rest ++ [f.subject])
  message : f.message = if c.length = 1 then "'" ++ f.subject ++ "' is deprecated in favour of itself"
    else "deprecation cycle through " ++ toString c.length ++ " attributes"

theorem shows_cycleFinding {start : String} {rest : List String}
    (hc : r.IsCycle ↑(start :: rest)) (hleast : IsLeast start ↑(start :: rest)) :
    ∃ f, cycleFinding (start :: rest) = [f] ∧ r.Shows ↑(start :: rest) f := by
  obtain ⟨hnodup, hchain⟩ := isCycle_cons.mp hc
  refine ⟨_, rfl, hleast, ⟨rest, rfl, hnodup, hchain, rfl, ?_⟩, ?_⟩
  · intro steps hsteps
    exact walk_of_path hsteps hchain hnodup List.mem_cons_self
  · cases rest with
    | nil => rfl
    | cons b rest => simp [Finding.new]

/-- **Every cycle of replacements is found exactly once.** The findings about cycles show, one by one,
all the cycles of the graph of replacements, which are its strongly connected components. -/
theorem cycle_findings (r : Registry) :
    (∃ cycles : List (Cycle String), cycles.Nodup ∧ (∀ c, c ∈ cycles ↔ r.IsCycle c) ∧
      List.Forall₂ r.Shows cycles (Report.withCode r.check .deprecationCycle)) ∧
    ∀ key goal, (∃ c, r.IsCycle c ∧ key ∈ c ∧ goal ∈ c) ↔
      TransGen r.Leads key goal ∧ TransGen r.Leads goal key := by
  refine ⟨⟨r.cycles.map Cycle.ofList, nodup_cycles r, fun c => ?_, ?_⟩,
    fun key goal => exists_isCycle_iff⟩
  · rw [List.mem_map]
    constructor
    · rintro ⟨ks, hks, rfl⟩
      obtain ⟨_, _, -, hc, -⟩ := mem_cycles.mp hks
      exact hc
    · intro hc
      obtain ⟨start, hleast⟩ := hc.exists_isLeast
      obtain ⟨rest, rfl⟩ := exists_coe_cons_of_mem hleast.1
      exact ⟨start :: rest, mem_cycles.mpr ⟨start, rest, rfl, hc, hleast⟩, rfl⟩
  · rw [withCode_cycle, List.forall₂_map_left_iff]
    have hall : ∀ ks ∈ r.cycles, ∃ f, cycleFinding ks = [f] ∧ r.Shows ↑ks f := by
      intro ks hks
      obtain ⟨start, rest, rfl, hc, hleast⟩ := mem_cycles.mp hks
      exact shows_cycleFinding hc hleast
    generalize r.cycles = cycles at hall
    induction cycles with
    | nil => exact .nil
    | cons ks cycles ih =>
      obtain ⟨⟨f, hf, hshows⟩, hall⟩ := List.forall_mem_cons.mp hall
      rw [List.flatMap_cons, hf]
      exact .cons hshows (ih hall)

end AttributeRegistry.Registry
