import AttributeRegistry.Diff.Compact
import AttributeRegistry.Proofs.Diff.Script

/-!
# Joining edits keeps what a script does

Each move changes a few neighbouring edits and leads to the same places: a removal and an insertion
change places, two edits of a kind become one, and an insertion slides along kept lines that are equal
to its own (`leads_swap`, `leads_join`, `leads_slideUp`, `leads_slideDown`). A removal never slides:
of the new list it has no lines to compare with.

An edit that changes places keeps what it said of the list that has none of its lines, so a script
whose edits have moved says what is not so there. It still leads to the same places.

Main statement: `leads_compact`.
-/

namespace AttributeRegistry.Diff

variable {s : Sides} {i j i' j' a b n : Nat} {e : Edit} {es : List Edit}

theorem Leads.append_congr {p : Edit → Nat → Nat → Prop} {as bs cs : List Edit}
    (hes : Leads p (as ++ bs) i j i' j') (h : ∀ a b, Leads p bs a b i' j' → Leads p cs a b i' j') :
    Leads p (as ++ cs) i j i' j' := by
  obtain ⟨a, b, has, hbs⟩ := leads_append.mp hes
  exact leads_append.mpr ⟨a, b, has, h a b hbs⟩

/-! ## Moves -/

section Moves

variable {f : Focus} {here : Edit}

/-- Edits of one list and of the other one may change places. -/
theorem leads_swap (he : e.kind ≠ .keep) (hhere : here.kind ≠ .keep) (hne : e.kind ≠ here.kind)
    (h : Leads (Fits s) (e :: here :: es) i j i' j') :
    Leads (Fits s) (here :: e :: es) i j i' j' := by
  obtain ⟨hfits, hfits', hes⟩ := h
  cases hfits with
  | keep => exact absurd rfl he
  | remove i m =>
    cases hfits' with
    | keep => exact absurd rfl hhere
    | remove => exact absurd rfl hne
    | insert => exact ⟨.insert _ _ _, .remove _ _ _, hes⟩
  | insert oldStart j m =>
    cases hfits' with
    | keep => exact absurd rfl hhere
    | remove => exact ⟨.remove _ _ _, .insert _ _ _, hes⟩
    | insert => exact absurd rfl hne

/-- Edits of a kind, one behind the other, are one edit. -/
theorem leads_join (he : e.kind ≠ .keep) (heq : e.kind = here.kind)
    (h : Leads (Fits s) (e :: here :: es) i j i' j') :
    Leads (Fits s) (e.grow (here.oldCount + here.newCount) :: es) i j i' j' := by
  obtain ⟨hfits, hfits', hes⟩ := h
  cases hfits with
  | keep => exact absurd rfl he
  | remove i m newStart =>
    cases hfits' with
    | keep => cases heq
    | insert => cases heq
    | remove _ n =>
      refine ⟨.remove i (m + n) newStart, ?_⟩
      simpa [Edit.removing, Edit.grow, Nat.add_assoc] using hes
  | insert oldStart j m =>
    cases hfits' with
    | keep => cases heq
    | remove => cases heq
    | insert _ _ n =>
      refine ⟨.insert oldStart j (m + (0 + n)), ?_⟩
      simpa [Edit.inserting, Edit.grow, Nat.add_assoc] using hes

/-- An edit without lines does nothing. -/
theorem Leads.of_isEmpty (hempty : e.isEmpty = true) (h : Leads (Fits s) (e :: es) i j i' j') :
    Leads (Fits s) es i j i' j' := by
  simp only [Edit.isEmpty, Bool.and_eq_true, decide_eq_true_eq] at hempty
  have hes := h.2
  rwa [hempty.1, hempty.2] at hes

theorem leads_consUnlessEmpty (h : Leads (Fits s) (e :: es) i j i' j') :
    Leads (Fits s) (Focus.consUnlessEmpty e es) i j i' j' := by
  rw [Focus.consUnlessEmpty]
  split
  · next hempty => exact h.of_isEmpty hempty
  · exact h

theorem leads_reverse_consUnlessEmpty {rest : List Edit}
    (h : Leads (Fits s) (es.reverse ++ e :: rest) i j i' j') :
    Leads (Fits s) ((Focus.consUnlessEmpty e es).reverse ++ rest) i j i' j' := by
  rw [Focus.consUnlessEmpty]
  split
  · next hempty => exact h.append_congr fun _ _ => Leads.of_isEmpty hempty
  · simpa using h

theorem leads_keepAfter (hsame : s.Same i j n)
    (h : Leads (Fits s) f.after (i + n) (j + n) i' j') :
    Leads (Fits s) (f.keepAfter (i + n) (j + n) n) i j i' j' := by
  have hnew : Leads (Fits s) (.keeping i j n :: f.after) i j i' j' := ⟨.keep hsame, h⟩
  rw [Focus.keepAfter]
  cases hafter : f.after with
  | nil => simpa [hafter] using hnew
  | cons e es =>
    rw [hafter] at h hnew
    dsimp only
    split
    · next hkeep =>
      obtain ⟨hfits, hes⟩ := h
      cases hfits with
      | remove => cases hkeep
      | insert => cases hkeep
      | @keep _ _ m hmore =>
        have heq : ((Edit.keeping (i + n) (j + n) m).up n).grow n = .keeping i j (n + m) := by
          simp [Edit.up, Edit.grow, Edit.keeping, Nat.add_comm]
        rw [heq]
        refine ⟨.keep (Sides.same_add.mpr ⟨hsame, hmore⟩), ?_⟩
        simpa [Edit.keeping, Nat.add_assoc] using hes
    · simpa using hnew

theorem leads_keepBefore (hsame : s.Same i j n) (h : Leads (Fits s) f.before.reverse a b i j) :
    Leads (Fits s) (f.keepBefore i j n).reverse a b (i + n) (j + n) := by
  have hnew : Leads (Fits s) (f.before.reverse ++ [.keeping i j n]) a b (i + n) (j + n) :=
    leads_append.mpr ⟨i, j, h, .keep hsame, rfl, rfl⟩
  rw [Focus.keepBefore]
  cases hbefore : f.before with
  | nil => simpa [hbefore] using hnew
  | cons e es =>
    rw [hbefore] at h hnew
    dsimp only
    split
    · next hkeep =>
      rw [List.reverse_cons] at h ⊢
      obtain ⟨c, d, hes, hfits, rfl, rfl⟩ := leads_append.mp h
      refine leads_append.mpr ⟨c, d, hes, ?_⟩
      cases hfits with
      | remove => cases hkeep
      | insert => cases hkeep
      | @keep _ _ m hmore =>
        exact ⟨.keep (Sides.same_add.mpr ⟨hmore, hsame⟩), (Nat.add_assoc _ _ _).symm,
          (Nat.add_assoc _ _ _).symm⟩
    · rwa [List.reverse_cons]

/-- How far an insertion slides up: it ends with lines the kept ones end with. -/
theorem commonEnd_spec {m oldStart k c : Nat}
    (h : s.commonEnd (.keeping i j m) (.inserting oldStart k n) = c) :
    c ≤ m ∧ c ≤ n ∧ s.Same (i + m - c) (k + n - c) c := by
  have hle := s.suffixLength_le (i + m) (k + n) (min m n)
  have hsame := s.same_suffixLength (i + m) (k + n) (min m n) (by omega) (by omega)
  rw [show s.suffixLength (i + m) (k + n) (min m n) = c from h] at hle hsame
  exact ⟨by omega, by omega, hsame⟩

/-- How far an insertion slides down: it begins with lines the kept ones begin with. -/
theorem commonStart_spec {m oldStart k c : Nat}
    (h : s.commonStart (.keeping i j m) (.inserting oldStart k n) = c) :
    c ≤ m ∧ c ≤ n ∧ s.Same i k c := by
  have hle := s.prefixLength_le i k (min m n)
  have hsame := s.same_prefixLength i k (min m n)
  rw [show s.prefixLength i k (min m n) = c from h] at hle hsame
  exact ⟨by omega, by omega, hsame⟩

/-- An insertion slides up along kept lines that end as it does. -/
theorem leads_slideUp {c : Nat} (he : e.kind = .keep) (hhere : f.here.kind ≠ .keep)
    (hc : s.commonEnd e f.here = c) (hpos : c ≠ 0)
    (h : Leads (Fits s) (e :: f.here :: f.after) i j i' j') :
    Leads (Fits s) (e.shrink c :: f.here.up c :: f.keepAfter e.oldEnd f.here.newEnd c) i j i' j' := by
  obtain ⟨before, here, after⟩ := f
  obtain ⟨hfits, hfits', hafter⟩ := h
  cases hfits with
  | remove => cases he
  | insert => cases he
  | @keep _ _ m hsame =>
    cases hfits' with
    | keep => exact absurd rfl hhere
    | remove _ n newStart =>
      exact absurd (hc.symm.trans (by simp [Sides.commonEnd, Sides.suffixLength])) hpos
    | insert oldStart _ n =>
      obtain ⟨hle, hle', hend⟩ := commonEnd_spec
        (show s.commonEnd (.keeping i j m) (.inserting oldStart (j + m) n) = c from hc)
      have hplace : (Edit.inserting oldStart (j + m) n).up c =
          .inserting (oldStart - c) (j + (m - c)) n := by
        simp [Edit.up, Edit.inserting, Nat.add_sub_assoc hle]
      rw [show i + m - c = i + (m - c) by omega,
        show j + m + n - c = j + (m - c) + n by omega] at hend
      have hrest := @leads_keepAfter s _ _ i' j' c ⟨before, .inserting oldStart (j + m) n, after⟩ hend
      rw [show i + (m - c) + c = i + m by omega,
        show j + (m - c) + n + c = j + m + n by omega] at hrest
      have hfirst : s.Same i j (m - c) := (Sides.same_add.mp
        (show s.Same i j (m - c + c) from (Nat.sub_add_cancel hle).symm ▸ hsame)).1
      refine ⟨.keep hfirst, ?_, hrest hafter⟩
      exact hplace ▸ .insert _ _ _

/-- An insertion slides down along kept lines that begin as it does. -/
theorem leads_slideDown {c : Nat} (he : e.kind = .keep) (hhere : f.here.kind ≠ .keep)
    (hc : s.commonStart e f.here = c) (hpos : c ≠ 0)
    (h : Leads (Fits s) (f.before.reverse ++ f.here :: e :: es) i j i' j') :
    Leads (Fits s) ((f.keepBefore e.oldStart f.here.newStart c).reverse ++
      f.here.down c :: (e.down c).shrink c :: es) i j i' j' := by
  obtain ⟨before, here, after⟩ := f
  obtain ⟨a, b, hbefore, hfits, hfits', hes⟩ := leads_append.mp h
  cases hfits with
  | keep => exact absurd rfl hhere
  | remove _ n newStart =>
    exact absurd (hc.symm.trans (by simp [Sides.commonStart, Sides.prefixLength])) hpos
  | insert oldStart _ n =>
    cases hfits' with
    | remove => cases he
    | insert => cases he
    | @keep _ _ m hsame =>
      change Leads (Fits s) es (a + m) (b + n + m) i' j' at hes
      change s.Same a (b + n) m at hsame
      obtain ⟨hle, hle', hstart⟩ := commonStart_spec
        (show s.commonStart (.keeping a (b + n) m) (.inserting oldStart b n) = c from hc)
      have hsplit : c + (m - c) = m := Nat.add_sub_cancel' hle
      have hrest : s.Same (a + c) (b + n + c) (m - c) :=
        (Sides.same_add.mp (show s.Same a (b + n) (c + (m - c)) from hsplit.symm ▸ hsame)).2
      have hfirst := leads_keepBefore (f := ⟨before, .inserting oldStart b n, after⟩) hstart hbefore
      refine leads_append.mpr ⟨a + c, b + c, hfirst, .insert _ _ _, ?_⟩
      rw [show a + m = a + c + (m - c) by omega, show b + n + m = b + c + n + (m - c) by omega] at hes
      rw [show b + n + c = b + c + n by omega] at hrest
      have hplace : ((Edit.keeping a (b + n) m).down c).shrink c =
          .keeping (a + c) (b + c + n) (m - c) := by
        simp only [Edit.down, Edit.shrink, Edit.keeping, Edit.mk.injEq, true_and, and_true]
        omega
      have hkept : Leads (Fits s) (.keeping (a + c) (b + c + n) (m - c) :: es) (a + c) (b + c + n)
          i' j' := ⟨.keep hrest, hes⟩
      rw [← hplace] at hkept
      exact hkept

end Moves

/-! ## Shifting -/

namespace Focus

/-- A script seen from an edit that is not kept lines, and what it does. -/
structure Seen (s : Sides) (i' j' : Nat) (f : Focus) : Prop where
  here : f.here.kind ≠ .keep
  leads : Leads (Fits s) f.toList 0 0 i' j'

variable {f : Focus}

theorem seen_shiftUp (steps : Nat) (h : f.Seen s i' j') : (shiftUp s steps f).Seen s i' j' := by
  induction steps generalizing f with
  | zero => exact h
  | succ steps ih =>
    rw [shiftUp]
    split
    · exact h
    · next e es hbefore =>
      have hleads : Leads (Fits s) (es.reverse ++ e :: f.here :: f.after) 0 0 i' j' := by
        have := h.leads
        rwa [toList, hbefore, List.reverse_cons, List.append_assoc] at this
      split
      · next hkeep =>
        dsimp only
        split
        · split
          · next hempty => exact ih ⟨h.here, hleads.append_congr fun _ _ => Leads.of_isEmpty hempty⟩
          · exact h
        · next hn =>
          exact ih ⟨h.here, leads_reverse_consUnlessEmpty
            (hleads.append_congr fun _ _ => leads_slideUp hkeep h.here rfl hn)⟩
      · next hkeep =>
        split
        · next hkind =>
          refine ih ⟨?_, hleads.append_congr fun _ _ => leads_join hkeep hkind⟩
          show (e.grow _).kind ≠ _
          rw [Edit.grow_kind]
          exact hkeep
        · next hkind =>
          exact ih ⟨h.here, hleads.append_congr fun _ _ => leads_swap hkeep h.here hkind⟩

theorem seen_shiftDown (steps : Nat) (h : f.Seen s i' j') : (shiftDown s steps f).Seen s i' j' := by
  induction steps generalizing f with
  | zero => exact h
  | succ steps ih =>
    rw [shiftDown]
    split
    · exact h
    · next e es hafter =>
      have hleads : Leads (Fits s) (f.before.reverse ++ f.here :: e :: es) 0 0 i' j' := by
        have := h.leads
        rwa [toList, hafter] at this
      split
      · next hkeep =>
        dsimp only
        split
        · split
          · next hempty =>
            exact ih ⟨h.here, hleads.append_congr fun _ _ hrest => ⟨hrest.1, hrest.2.of_isEmpty hempty⟩⟩
          · exact h
        · next hn =>
          exact ih ⟨h.here, (leads_slideDown hkeep h.here rfl hn hleads).append_congr
            fun _ _ hrest => ⟨hrest.1, leads_consUnlessEmpty hrest.2⟩⟩
      · next hkeep =>
        split
        · next hkind =>
          refine ih ⟨?_, hleads.append_congr fun _ _ => leads_join h.here hkind.symm⟩
          show (f.here.grow _).kind ≠ _
          rw [Edit.grow_kind]
          exact h.here
        · next hkind =>
          have hswap := hleads.append_congr fun _ _ => leads_swap h.here hkeep (Ne.symm hkind)
          exact ih ⟨h.here, by simpa [toList] using hswap⟩

theorem leads_shiftAll {kind : EditKind} (hkind : kind ≠ .keep) (reach steps : Nat)
    (h : Leads (Fits s) f.toList 0 0 i' j') :
    Leads (Fits s) (shiftAll s kind reach steps f) 0 0 i' j' := by
  induction steps generalizing f with
  | zero => exact h
  | succ steps ih =>
    rw [shiftAll]
    have hshift : Leads (Fits s) (if f.here.kind = kind then shiftDown s reach (shiftUp s reach f)
        else f).toList 0 0 i' j' := by
      split
      · next heq => exact (seen_shiftDown reach (seen_shiftUp reach ⟨heq ▸ hkind, h⟩)).leads
      · exact h
    generalize (if f.here.kind = kind then shiftDown s reach (shiftUp s reach f) else f) = g at hshift
    split
    · exact hshift
    · next e es hafter =>
      refine ih ?_
      rw [toList, hafter] at hshift
      simpa [toList] using hshift

end Focus

theorem leads_shiftKind {kind : EditKind} (hkind : kind ≠ .keep)
    (h : Leads (Fits s) es 0 0 i' j') : Leads (Fits s) (shiftKind s kind es) 0 0 i' j' := by
  cases es with
  | nil => exact h
  | cons e es => exact Focus.leads_shiftAll hkind _ _ h

/-! ## Merging -/

namespace Merge

/-- What was collected leads from places to places: kept lines, or lines removed and inserted. -/
inductive Pending (s : Sides) : Merge → Nat → Nat → Nat → Nat → Prop
  | none {i j : Nat} : Pending s .empty i j i j
  | keep {i j n : Nat} (same : s.Same i j n) :
      Pending s ⟨some (.keeping i j n), none, none⟩ i j (i + n) (j + n)
  | remove {i j m newStart : Nat} : Pending s ⟨none, some (.removing i m newStart), none⟩ i j (i + m) j
  | insert {i j n oldStart : Nat} :
      Pending s ⟨none, none, some (.inserting oldStart j n)⟩ i j i (j + n)
  | both {i j m n newStart oldStart : Nat} :
      Pending s ⟨none, some (.removing i m newStart), some (.inserting oldStart j n)⟩
        i j (i + m) (j + n)

variable {m : Merge}

theorem Pending.finish (h : Pending s m i j a b) :
    Leads (Covers s) (m.keep.toList ++ m.change) i j a b := by
  cases h with
  | none => exact ⟨rfl, rfl⟩
  | keep same => exact ⟨.simple (.keep same), rfl, rfl⟩
  | remove => exact ⟨.simple (.remove _ _ _), rfl, rfl⟩
  | insert => exact ⟨.simple (.insert _ _ _), rfl, rfl⟩
  | both => exact ⟨.replace _ _ _ _, rfl, rfl⟩

/-- Taking in an edit completes what cannot be joined with it. -/
theorem Pending.add (h : Pending s m i j a b) (he : Fits s e a b) :
    ∃ c d, Leads (Covers s) (m.add e).1 i j c d ∧
      Pending s (m.add e).2 c d (a + e.oldCount) (b + e.newCount) := by
  cases he with
  | @keep _ _ n same =>
    cases h with
    | none => exact ⟨_, _, ⟨rfl, rfl⟩, .keep same⟩
    | @keep i j l before =>
      refine ⟨i, j, ⟨rfl, rfl⟩, ?_⟩
      have hjoined : Pending s _ i j (i + (l + n)) (j + (l + n)) :=
        .keep (Sides.same_add.mpr ⟨before, same⟩)
      simpa [add, join, Edit.grow, Edit.keeping, Nat.add_assoc] using hjoined
    | remove => exact ⟨_, _, ⟨.simple (.remove _ _ _), rfl, rfl⟩, .keep same⟩
    | insert => exact ⟨_, _, ⟨.simple (.insert _ _ _), rfl, rfl⟩, .keep same⟩
    | both => exact ⟨_, _, ⟨.replace _ _ _ _, rfl, rfl⟩, .keep same⟩
  | remove _ n newStart =>
    cases h with
    | none => exact ⟨_, _, ⟨rfl, rfl⟩, .remove⟩
    | keep same => exact ⟨_, _, ⟨.simple (.keep same), rfl, rfl⟩, .remove⟩
    | @remove _ _ l place =>
      refine ⟨i, j, ⟨rfl, rfl⟩, ?_⟩
      have hjoined : Pending s ⟨_, some (.removing i (l + n) place), _⟩ i j (i + (l + n)) j := .remove
      simpa [add, join, Edit.grow, Edit.removing, Nat.add_assoc] using hjoined
    | insert => exact ⟨i, j, ⟨rfl, rfl⟩, .both⟩
    | @both _ _ l k place place' =>
      refine ⟨i, j, ⟨rfl, rfl⟩, ?_⟩
      have hjoined : Pending s ⟨_, some (.removing i (l + n) place),
          some (.inserting place' j k)⟩ i j (i + (l + n)) (j + k) := .both
      simpa [add, join, Edit.grow, Edit.removing, Nat.add_assoc] using hjoined
  | insert oldStart _ n =>
    cases h with
    | none => exact ⟨_, _, ⟨rfl, rfl⟩, .insert⟩
    | keep same => exact ⟨_, _, ⟨.simple (.keep same), rfl, rfl⟩, .insert⟩
    | remove => exact ⟨i, j, ⟨rfl, rfl⟩, .both⟩
    | @insert _ _ l place =>
      refine ⟨i, j, ⟨rfl, rfl⟩, ?_⟩
      have hjoined : Pending s ⟨_, _, some (.inserting place j (l + n))⟩ i j i (j + (l + n)) := .insert
      simpa [add, join, Edit.grow, Edit.inserting, Nat.add_assoc] using hjoined
    | @both _ _ l k place place' =>
      refine ⟨i, j, ⟨rfl, rfl⟩, ?_⟩
      have hjoined : Pending s ⟨_, some (.removing i l place),
          some (.inserting place' j (k + n))⟩ i j (i + l) (j + (k + n)) := .both
      simpa [add, join, Edit.grow, Edit.inserting, Nat.add_assoc] using hjoined

end Merge

theorem leads_mergeFrom {m : Merge} (h : m.Pending s i j a b) (hes : Leads (Fits s) es a b i' j') :
    Leads (Covers s) (mergeFrom m es) i j i' j' := by
  induction es generalizing m i j a b with
  | nil =>
    obtain ⟨rfl, rfl⟩ := hes
    exact h.finish
  | cons e es ih =>
    obtain ⟨c, d, hdone, hpending⟩ := h.add hes.1
    exact leads_append.mpr ⟨c, d, hdone, ih hpending hes.2⟩

/-- **Joining the edits of a script keeps where it leads.** -/
theorem leads_compact (h : Leads (Fits s) es 0 0 i' j') : Leads (Covers s) (compact s es) 0 0 i' j' :=
  leads_mergeFrom .none (leads_shiftKind (by decide) (leads_shiftKind (by decide) h))

end AttributeRegistry.Diff
