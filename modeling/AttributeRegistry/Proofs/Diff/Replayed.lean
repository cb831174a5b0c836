import AttributeRegistry.Proofs.Diff.Compact
import AttributeRegistry.Proofs.Diff.Hunks
import AttributeRegistry.Proofs.Diff.Myers
import AttributeRegistry.Proofs.Diff.Written

/-!
# Replaying unified diffs

The lines of a hunk are those its part of the script covers (`Leads.before_eq`, `Leads.after_eq`). Its
header says the same if its first edit begins and its last edit ends where the script has come to. That
is so for kept lines; a change may say any place in the text that has none of its lines, so at the two
ends of a diff it depends on the script (`Anchored`).

Main statement: the hunks of the diff of two texts turn one into the other in both directions if and
only if they are anchored (`readPatch_unified_iff`).
-/

namespace AttributeRegistry.Diff

variable {s : Sides} {h es : List Edit} {hs : List (List Edit)} {e : Edit} {i j i' j' a b c d n : Nat}

/-! ## Lines of texts -/

theorem length_oldLines (s : Sides) : s.oldLines.length = s.old.size := by
  rw [Sides.oldLines, List.length_map, Array.length_toList]

theorem length_newLines (s : Sides) : s.newLines.length = s.new.size := by
  rw [Sides.newLines, List.length_map, Array.length_toList]

theorem Sides.Same.slice_eq (h : s.Same i j n) : slice s.oldLines i n = slice s.newLines j n := by
  refine List.ext_getElem? fun k => ?_
  rw [slice, slice, List.getElem?_take, List.getElem?_take]
  split
  · next hk =>
    rw [List.getElem?_drop, List.getElem?_drop, oldLines, newLines, List.getElem?_map,
      List.getElem?_map, Array.getElem?_toList, Array.getElem?_toList, h k hk]
  · rfl

theorem Sides.Gap.drop_eq (h : s.Gap i j s.old.size s.new.size) :
    s.oldLines.drop i = s.newLines.drop j := by
  obtain ⟨n, hold, hnew, hsame⟩ := h
  have heq := hsame.slice_eq
  rwa [slice, slice, List.take_of_length_le, List.take_of_length_le] at heq
  · rw [List.length_drop, length_newLines]
    omega
  · rw [List.length_drop, length_oldLines]
    omega

section Texts

variable {old new : String}

theorem oldLines_ofTexts (h : '\r' ∉ old.toList) :
    (Sides.ofTexts old new).oldLines = cutLines old.toList := by
  simp [Sides.ofTexts, Sides.oldLines, Function.comp_def, splitLines_eq h]

theorem newLines_ofTexts (h : '\r' ∉ new.toList) :
    (Sides.ofTexts old new).newLines = cutLines new.toList := by
  simp [Sides.ofTexts, Sides.newLines, Function.comp_def, splitLines_eq h]

theorem readable_ofTexts (hold : '\r' ∉ old.toList) (hnew : '\r' ∉ new.toList) :
    (Sides.ofTexts old new).Readable := by
  have hlines : ∀ (text : String), '\r' ∉ text.toList → ∀ line ∈ cutLines text.toList,
      OneLine line ∧ '\r' ∉ line := by
    intro text htext line hline
    refine ⟨(oneLine_of_mem_cutLines hline).2, fun hmem => htext ?_⟩
    rw [← flatten_cutLines text.toList]
    exact List.mem_flatten.mpr ⟨line, hline, hmem⟩
  intro line hline
  rw [oldLines_ofTexts hold, newLines_ofTexts hnew, List.mem_append] at hline
  exact hline.elim (hlines old hold line) (hlines new hnew line)

end Texts

/-! ## Lines of hunks -/

theorem Covers.before_eq (h : Covers s e i j) :
    (hunkLines s e).filterMap HunkLine.old? = slice s.oldLines i e.oldCount := by
  cases h with
  | replace => simp [hunkLines, List.filterMap_map, Function.comp_def, HunkLine.old?]
  | simple fits =>
    cases fits with
    | keep => simp [hunkLines, Edit.keeping, List.filterMap_map, Function.comp_def, HunkLine.old?]
    | remove => simp [hunkLines, Edit.removing, List.filterMap_map, Function.comp_def, HunkLine.old?,
        slice_zero]
    | insert => simp [hunkLines, Edit.inserting, List.filterMap_map, Function.comp_def,
        HunkLine.old?, slice_zero]

theorem Covers.after_eq (h : Covers s e i j) :
    (hunkLines s e).filterMap HunkLine.new? = slice s.newLines j e.newCount := by
  cases h with
  | replace => simp [hunkLines, List.filterMap_map, Function.comp_def, HunkLine.new?]
  | simple fits =>
    cases fits with
    | keep same => simp [hunkLines, Edit.keeping, List.filterMap_map, Function.comp_def,
        HunkLine.new?, same.slice_eq]
    | remove => simp [hunkLines, Edit.removing, List.filterMap_map, Function.comp_def, HunkLine.new?,
        slice_zero]
    | insert => simp [hunkLines, Edit.inserting, List.filterMap_map, Function.comp_def,
        HunkLine.new?, slice_zero]

theorem Leads.before_eq (h : Leads (Covers s) es i j i' j') :
    (es.flatMap (hunkLines s)).filterMap HunkLine.old? = slice s.oldLines i (i' - i) := by
  induction es generalizing i j with
  | nil => rw [h.1, Nat.sub_self, slice_zero]; rfl
  | cons e es ih =>
    have hle := h.2.le
    rw [List.flatMap_cons, List.filterMap_append, h.1.before_eq, ih h.2, ← slice_add]
    congr 1
    omega

theorem Leads.after_eq (h : Leads (Covers s) es i j i' j') :
    (es.flatMap (hunkLines s)).filterMap HunkLine.new? = slice s.newLines j (j' - j) := by
  induction es generalizing i j with
  | nil => rw [h.2, Nat.sub_self, slice_zero]; rfl
  | cons e es ih =>
    have hle := h.2.le
    rw [List.flatMap_cons, List.filterMap_append, h.1.after_eq, ih h.2, ← slice_add]
    congr 1
    omega

/-! ## Headers of hunks -/

/-- A change that a hunk begins with stands where the texts begin, and a change that it ends with stands
where they end, and the edit says so. -/
def AnchoredHunk (s : Sides) (h : List Edit) : Prop :=
  (∀ e ∈ h.head?, e.kind ≠ .keep → e.oldStart = 0 ∧ e.newStart = 0) ∧
    ∀ e ∈ h.getLast?, e.kind ≠ .keep → e.oldEnd = s.old.size ∧ e.newEnd = s.new.size

instance (s : Sides) (h : List Edit) : Decidable (AnchoredHunk s h) :=
  inferInstanceAs (Decidable (_ ∧ _))

/-- The changes at both ends of the diff of two texts say where they stand. -/
def Anchored (old new : String) : Prop :=
  ∀ h ∈ (Sides.ofTexts old new).hunks, AnchoredHunk (.ofTexts old new) h

instance (old new : String) : Decidable (Anchored old new) :=
  inferInstanceAs (Decidable (∀ h ∈ _, _))

/-- A hunk at its places. -/
structure Placed (s : Sides) (h : List Edit) (a b c d : Nat) : Prop where
  leads : Leads (Covers s) h a b c d
  opens : Opens h a b
  closes : Closes s.old.size s.new.size h c d
  oldFits : c ≤ s.old.size
  newFits : d ≤ s.new.size

section Edges

variable {first last : Edit}

/-- Where the first edit of a hunk begins. -/
theorem Placed.start (hp : Placed s h a b c d) (hfirst : h.head? = some first) :
    (first.kind = .keep ∧ first.oldStart = a ∧ first.newStart = b ∧ a < c ∧ b < d) ∨
      a = 0 ∧ b = 0 ∧ (first.kind = .keep → first.oldStart = 0 ∧ first.newStart = 0) := by
  obtain ⟨es, rfl⟩ := List.head?_eq_some_iff.mp hfirst
  rcases hp.opens with ⟨n, hn, hhead⟩ | ⟨rfl, rfl⟩
  · cases hhead
    have hle : a + n ≤ c ∧ b + n ≤ d := hp.leads.2.le
    exact .inl ⟨rfl, rfl, rfl, by omega, by omega⟩
  · refine .inr ⟨rfl, rfl, fun hkeep => ?_⟩
    obtain ⟨n, rfl, -⟩ := hp.leads.1.exists_keeping hkeep
    exact ⟨rfl, rfl⟩

/-- Where the last edit of a hunk ends. -/
theorem Placed.stop (hp : Placed s h a b c d) (hlast : h.getLast? = some last) :
    (last.kind = .keep ∧ last.oldEnd = c ∧ last.newEnd = d ∧ a < c ∧ b < d) ∨
      c = s.old.size ∧ d = s.new.size ∧
        (last.kind = .keep → last.oldEnd = s.old.size ∧ last.newEnd = s.new.size) := by
  obtain ⟨es, rfl⟩ := List.getLast?_eq_some_iff.mp hlast
  obtain ⟨x, y, hes, hcovers, hc, hd⟩ := leads_append.mp hp.leads
  have hle := hes.le
  rcases hp.closes with ⟨i, j, n, hn, hi, hj, hend⟩ | ⟨hi, hj⟩
  · rw [hlast, Option.some.injEq] at hend
    obtain ⟨m, heq, -⟩ := hcovers.exists_keeping (hend ▸ rfl)
    rw [hend] at heq
    cases heq
    subst hend
    exact .inl ⟨rfl, hi, hj, by omega, by omega⟩
  · refine .inr ⟨hi, hj, fun hkeep => ?_⟩
    obtain ⟨n, rfl, -⟩ := hcovers.exists_keeping hkeep
    exact ⟨hc.trans hi, hd.trans hj⟩

/-- **The header of an anchored hunk is right.** -/
theorem Placed.header_eq (hp : Placed s h a b c d) (hanchored : AnchoredHunk s h)
    (hfirst : h.head? = some first) (hlast : h.getLast? = some last) :
    first.oldStart = a ∧ first.newStart = b ∧ last.oldEnd = c ∧ last.newEnd = d := by
  have hstart := hanchored.1 first hfirst
  have hstop := hanchored.2 last hlast
  have hplace : first.oldStart = a ∧ first.newStart = b := by
    rcases hp.start hfirst with ⟨-, hold, hnew, -⟩ | ⟨rfl, rfl, hkeep⟩
    · exact ⟨hold, hnew⟩
    · by_cases h : first.kind = .keep
      · exact hkeep h
      · exact hstart h
  have hplace' : last.oldEnd = c ∧ last.newEnd = d := by
    rcases hp.stop hlast with ⟨-, hold, hnew, -⟩ | ⟨rfl, rfl, hkeep⟩
    · exact ⟨hold, hnew⟩
    · by_cases h : last.kind = .keep
      · exact hkeep h
      · exact hstop h
  exact ⟨hplace.1, hplace.2, hplace'⟩

/-- **A hunk whose header has the right numbers, within the texts, is anchored.** -/
theorem Placed.anchored (hp : Placed s h a b c d) (hfirst : h.head? = some first)
    (hlast : h.getLast? = some last) (hold : last.oldEnd - first.oldStart = c - a)
    (hnew : last.newEnd - first.newStart = d - b)
    (holdFits : first.oldStart + (last.oldEnd - first.oldStart) ≤ s.old.size)
    (hnewFits : first.newStart + (last.newEnd - first.newStart) ≤ s.new.size) :
    AnchoredHunk s h := by
  -- A wrong place with the right number of lines would lead out of the text: a hunk that begins with a
  -- change begins with the text, so it can only be said to be further down than it is.
  have hstart := hp.start hfirst
  have hstop := hp.stop hlast
  refine ⟨fun e he hkind => ?_, fun e he hkind => ?_⟩
  · obtain rfl : first = e := Option.some.inj (hfirst.symm.trans he)
    rcases hstart with ⟨hkeep, -⟩ | ⟨rfl, rfl, -⟩
    · exact absurd hkeep hkind
    · rcases hstop with hstop | ⟨rfl, rfl, -⟩ <;> omega
  · obtain rfl : last = e := Option.some.inj (hlast.symm.trans he)
    rcases hstop with ⟨hkeep, -⟩ | ⟨rfl, rfl, -⟩
    · exact absurd hkeep hkind
    · rcases hstart with hstart | ⟨rfl, rfl, -⟩ <;> omega

end Edges

/-! ## All hunks -/

variable {N M : Nat}

theorem Spaced.le (h : Spaced s N M hs i j i' j') : i ≤ i' ∧ j ≤ j' := by
  induction h with
  | nil gap =>
    obtain ⟨n, rfl, rfl, -⟩ := gap
    omega
  | cons gap _ leads _ _ _ ih =>
    obtain ⟨n, rfl, rfl, -⟩ := gap
    have := leads.le
    omega

theorem exists_ends (hne : h ≠ []) : ∃ first last, h.head? = some first ∧ h.getLast? = some last :=
  ⟨_, _, List.head?_eq_some_head hne, List.getLast?_eq_some_getLast hne⟩

theorem hunkOf_eq {first last : Edit} (hfirst : h.head? = some first)
    (hlast : h.getLast? = some last) : hunkOf s h = ⟨first.oldStart, last.oldEnd - first.oldStart,
      first.newStart, last.newEnd - first.newStart, h.flatMap (hunkLines s)⟩ := by
  obtain ⟨es, rfl⟩ := List.head?_eq_some_iff.mp hfirst
  rw [hunkOf.eq_def, hlast]

theorem Spaced.exists_placed (hspaced : Spaced s s.old.size s.new.size hs i j s.old.size s.new.size)
    (hmem : h ∈ hs) : h ≠ [] ∧ ∃ a b c d, Placed s h a b c d := by
  induction hs generalizing i j with
  | nil => cases hmem
  | cons g hs ih =>
    cases hspaced with
    | cons _ ne leads opens closes rest =>
      rcases List.mem_cons.mp hmem with rfl | hmem
      · exact ⟨ne, _, _, _, _, leads, opens, closes, rest.le.1, rest.le.2⟩
      · exact ih rest hmem

/-- **Anchored hunks fit.** -/
theorem Spaced.patches (hspaced : Spaced s s.old.size s.new.size hs i j s.old.size s.new.size)
    (hanchored : ∀ h ∈ hs, AnchoredHunk s h) :
    Patches s.oldLines s.newLines (hs.map (hunkOf s)) i j := by
  induction hs generalizing i j with
  | nil =>
    cases hspaced with
    | nil gap => exact .nil gap.drop_eq
  | cons h hs ih =>
    cases hspaced with
    | @cons _ _ _ _ a b c d _ _ gap ne leads opens closes rest =>
      obtain ⟨hhunk, hhunks⟩ := List.forall_mem_cons.mp hanchored
      obtain ⟨first, last, hfirst, hlast⟩ := exists_ends ne
      have hplaced : Placed s h a b c d := ⟨leads, opens, closes, rest.le.1, rest.le.2⟩
      obtain ⟨hold, hnew, holdEnd, hnewEnd⟩ := hplaced.header_eq hhunk hfirst hlast
      have hle := leads.le
      have holdFits := hplaced.oldFits
      have hnewFits := hplaced.newFits
      have heq : hunkOf s h = ⟨a, c - a, b, d - b, h.flatMap (hunkLines s)⟩ := by
        rw [hunkOf_eq hfirst hlast, hold, hnew, holdEnd, hnewEnd]
      have hrest := ih rest hhunks
      obtain ⟨n, rfl, rfl, hsame⟩ := gap
      rw [List.map_cons, heq]
      refine .cons hsame.slice_eq rfl rfl ?_ ?_ leads.before_eq leads.after_eq ?_
      · rw [length_oldLines]
        dsimp only
        omega
      · rw [length_newLines]
        dsimp only
        omega
      · dsimp only
        rwa [Nat.add_sub_cancel' hle.1, Nat.add_sub_cancel' hle.2]

/-- **Hunks that are replayed in both directions are anchored.** -/
theorem Spaced.anchored (hspaced : Spaced s s.old.size s.new.size hs 0 0 s.old.size s.new.size)
    {lines lines' : List (List Char)} (hold : replay 0 s.oldLines (hs.map (hunkOf s)) = some lines)
    (hnew : replay 0 s.newLines ((hs.map (hunkOf s)).map Hunk.swap) = some lines') :
    ∀ h ∈ hs, AnchoredHunk s h := by
  intro h hmem
  obtain ⟨hne, a, b, c, d, hplaced⟩ := hspaced.exists_placed hmem
  obtain ⟨first, last, hfirst, hlast⟩ := exists_ends hne
  have hhunk := List.mem_map_of_mem (f := hunkOf s) hmem
  obtain ⟨hcounted, holdFits⟩ : (hunkOf s h).Counted ∧
      (hunkOf s h).oldStart + (hunkOf s h).oldCount ≤ s.oldLines.length :=
    counted_of_replay (Nat.zero_le _) hold _ hhunk
  have hnewFits : (hunkOf s h).newStart + (hunkOf s h).newCount ≤ s.newLines.length :=
    (counted_of_replay (Nat.zero_le _) hnew _ (List.mem_map_of_mem hhunk)).2
  rw [hunkOf_eq hfirst hlast] at hcounted holdFits hnewFits
  rw [length_oldLines] at holdFits
  rw [length_newLines] at hnewFits
  obtain ⟨hcount, hcount'⟩ := hcounted
  have hle := hplaced.leads.le
  have hend := hplaced.oldFits
  have hend' := hplaced.newFits
  rw [Hunk.before, hplaced.leads.before_eq, length_slice (by rw [length_oldLines]; omega)] at hcount
  rw [Hunk.after, hplaced.leads.after_eq, length_slice (by rw [length_newLines]; omega)] at hcount'
  exact hplaced.anchored hfirst hlast hcount.symm hcount'.symm holdFits hnewFits

/-! ## Diffs of texts -/

theorem Sides.spaced_hunks (s : Sides) :
    Spaced s s.old.size s.new.size s.hunks 0 0 s.old.size s.new.size :=
  Diff.spaced_hunks (leads_compact (leads_script s))

section Texts

variable {old new : String}

/-- The diff of different texts has a hunk. -/
theorem hunks_ne_nil (hold : '\r' ∉ old.toList) (hnew : '\r' ∉ new.toList) (hne : old ≠ new) :
    (Sides.ofTexts old new).hunks ≠ [] := by
  intro hnil
  have hspaced := (Sides.ofTexts old new).spaced_hunks
  rw [hnil] at hspaced
  cases hspaced with
  | nil gap =>
    have hlines := gap.drop_eq
    rw [List.drop_zero, List.drop_zero, oldLines_ofTexts hold, newLines_ofTexts hnew] at hlines
    have htext := congrArg List.flatten hlines
    rw [flatten_cutLines, flatten_cutLines] at htext
    exact hne (String.toList_inj.mp htext)

theorem applyPatch_of_replay {text text' : String} {hs : List Hunk}
    (h : replay 0 (cutLines text.toList) hs = some (cutLines text'.toList)) :
    applyPatch hs text = some text' := by
  rw [applyPatch, h, Option.map_some, flatten_cutLines, String.ofList_toList]

/-- **The diff of two texts is read as hunks that turn one text into the other, in both directions, if
and only if it is anchored.** -/
theorem readPatch_unified_iff (fileName : String) (hold : '\r' ∉ old.toList)
    (hnew : '\r' ∉ new.toList) (hne : old ≠ new) :
    ∃ hs, readPatch fileName (unified fileName old new) = some hs ∧ hs ≠ [] ∧
      (applyPatch hs old = some new ∧ applyPatch (hs.map Hunk.swap) new = some old ↔
        Anchored old new) := by
  have hspaced := (Sides.ofTexts old new).spaced_hunks
  have hsome := hunks_ne_nil hold hnew hne
  have hread := readPatch_unified fileName (readable_ofTexts hold hnew) hsome
    fun h hh => (hspaced.exists_placed hh).1
  refine ⟨_, hread, mt List.map_eq_nil_iff.mp hsome, fun ⟨happly, hundo⟩ => ?_, fun hanchored => ?_⟩
  · obtain ⟨lines, hreplay, -⟩ := Option.map_eq_some_iff.mp happly
    obtain ⟨lines', hreplay', -⟩ := Option.map_eq_some_iff.mp hundo
    rw [← oldLines_ofTexts hold] at hreplay
    rw [← newLines_ofTexts hnew] at hreplay'
    exact hspaced.anchored hreplay hreplay'
  · have hpatches := hspaced.patches hanchored
    rw [oldLines_ofTexts hold, newLines_ofTexts hnew] at hpatches
    exact ⟨applyPatch_of_replay hpatches.replay_eq, applyPatch_of_replay hpatches.swap.replay_eq⟩

end Texts

end AttributeRegistry.Diff
