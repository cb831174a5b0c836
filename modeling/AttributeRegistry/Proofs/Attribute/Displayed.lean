import AttributeRegistry.Proofs.Decimal.Equal
import AttributeRegistry.Proofs.Text.Literals
import AttributeRegistry.Proofs.Text.Printed

/-!
# Literals in documentation

How a literal reads in documentation says what it is. Its first character tells texts and lists from
scalars (`exists_cons_display`), scalars hold no mark that could end them and are told apart by their
characters (`identical_of_display_eq`), and what may follow an item of a list is never part of it. So a
literal is determined by any text it begins (`identical_of_display_append`).

Main statement: literals read the same exactly if they are the same, and hold no control character
(`display_unambiguous`).
-/

namespace AttributeRegistry.Example

open Text

/-! ## The same literals -/

mutual

/-- Literals of one kind with the same value; what is no number is the same as itself. -/
def Identical : Example → Example → Prop
  | .bool a, .bool b => a = b
  | .int m, .int n => m = n
  | .double x, .double y => x = y ∨ x.isNaN = true ∧ y.isNaN = true
  | .text s, .text t => s = t
  | .list as, .list bs => IdenticalItems as bs
  | _, _ => False

/-- Lists with the same literals in the same order. -/
def IdenticalItems : List Example → List Example → Prop
  | [], [] => True
  | a :: as, b :: bs => Identical a b ∧ IdenticalItems as bs
  | _, _ => False

end

/-- What follows an item of a list in the list. -/
def following : List Example → List Char
  | [] => []
  | items => ',' :: ' ' :: displayItems items

theorem displayItems_cons (e : Example) (items : List Example) :
    displayItems (e :: items) = e.display ++ following items := by
  cases items with
  | nil => rw [displayItems, following, List.append_nil]
  | cons f items => rw [displayItems, following] <;> simp

mutual

theorem display_eq_of_identical : ∀ {a b : Example}, Identical a b → a.display = b.display
  | .bool a, .bool b, h => by rw [show a = b from h]
  | .int m, .int n, h => by rw [show m = n from h]
  | .double x, .double y, h => by
    have hwrite := Decimal.write_fractionLayout_eq_iff.mpr (h.imp_right fun hnan =>
      ⟨(Decimal.isNaN_iff x).mp hnan.1, (Decimal.isNaN_iff y).mp hnan.2⟩)
    rw [display, display, hwrite]
  | .text s, .text t, h => by rw [show s = t from h]
  | .list as, .list bs, h => by rw [display, display, displayItems_eq_of_identical h]

theorem displayItems_eq_of_identical : ∀ {as bs : List Example}, IdenticalItems as bs →
    displayItems as = displayItems bs
  | [], [], _ => rfl
  | a :: as, b :: bs, h => by
    have hrest := displayItems_eq_of_identical h.2
    rw [displayItems_cons, displayItems_cons, display_eq_of_identical h.1]
    cases as with
    | nil =>
      cases bs with
      | nil => rfl
      | cons b' bs => exact h.2.elim
    | cons a' as =>
      cases bs with
      | nil => exact h.2.elim
      | cons b' bs => rw [following, following, hrest] <;> simp

end

/-! ## Forms -/

/-- What a displayed literal is seen to be by its first character. -/
inductive Form where
  | scalar | text | list
deriving DecidableEq

/-- The form of a literal. -/
def form : Example → Form
  | .text _ => .text
  | .list _ => .list
  | _ => .scalar

/-- The form of what begins with a character. -/
def Form.ofFirst (c : Char) : Form :=
  if c = '"' then .text else if c = '[' then .list else .scalar

/-- A text that holds none of the marks around texts, lists and their items. -/
def Bare (cs : List Char) : Prop :=
  ∀ c ∈ cs, c ∉ "\"[],".toList

instance : DecidablePred Bare :=
  fun cs => List.decidableBAll (fun c : Char => c ∉ "\"[],".toList) cs

/-- A text that ends an item of a list, or is empty. -/
def Stops (cs : List Char) : Prop :=
  ∀ c ∈ cs.head?, c ∈ ",]".toList

theorem bare_of_numeric {cs : List Char} (h : Numeric cs) : Bare cs := by
  have hmarks : ∀ c ∈ "\"[],".toList, c.isDigit = false ∧ c ∉ "-+.e".toList := by simp
  intro c hc hmark
  obtain ⟨hdigit, hnone⟩ := hmarks c hmark
  rcases h c hc with hd | hd
  · rw [hdigit] at hd
    cases hd
  · exact hnone hd

/-- A bare text ends where something stops it. -/
theorem Bare.append_inj {as bs r s : List Char} (ha : Bare as) (hb : Bare bs) (hr : Stops r)
    (hs : Stops s) (h : as ++ r = bs ++ s) : as = bs ∧ r = s := by
  have hmarks : ∀ c ∈ ",]".toList, c ∈ "\"[],".toList := by simp
  induction as generalizing bs with
  | nil =>
    cases bs with
    | nil => exact ⟨rfl, h⟩
    | cons b bs =>
      rw [List.nil_append] at h
      rw [h] at hr
      exact absurd (hmarks b (hr b rfl)) (hb b List.mem_cons_self)
  | cons a as ih =>
    cases bs with
    | nil =>
      rw [List.nil_append] at h
      rw [← h] at hs
      exact absurd (hmarks a (hs a rfl)) (ha a List.mem_cons_self)
    | cons b bs =>
      obtain ⟨rfl, hrest⟩ := List.cons.inj h
      obtain ⟨rfl, hrs⟩ := ih (fun c hc => ha c (List.mem_cons_of_mem _ hc))
        (fun c hc => hb c (List.mem_cons_of_mem _ hc)) hrest
      exact ⟨rfl, hrs⟩

/-! ## Scalars -/

/-- A double is displayed as a numeral with a point, or as a word. -/
theorem display_double (x : Float) :
    (Numeric (display (.double x)) ∧ ∃ c ∈ display (.double x), c = '.' ∨ c = 'e') ∨
      display (.double x) ∈ ["NaN".toList, "inf".toList, "-inf".toList] := by
  have hsign : ∀ b : Bool, Numeric (if b then ['-'] else []) := by decide
  rw [display, Decimal.toList_write rfl]
  cases (Decimal.decode x).2 with
  | nan => exact .inr (by cases (Decimal.decode x).1 <;> decide)
  | infinite => exact .inr (by cases (Decimal.decode x).1 <;> decide)
  | zero =>
    refine .inl ⟨numeric_append.mpr ⟨hsign _, by decide⟩, '.', List.mem_append_right _ ?_, .inl rfl⟩
    decide
  | finite b =>
    obtain ⟨c, hc, hmark⟩ := @Decimal.exists_mark_write Decimal.fractionLayout rfl b.shortest
    exact .inl ⟨numeric_append.mpr ⟨hsign _, numeric_write _ _⟩, c, List.mem_append_right _ hc, hmark⟩

/-- A whole number is displayed with digits and perhaps a sign. -/
theorem mem_display_int {n : Int} {c : Char} (h : c ∈ display (.int n)) :
    c.isDigit = true ∨ c = '-' := by
  rw [display] at h
  cases n with
  | ofNat n => exact .inl (isDigit_of_mem_natText c h)
  | negSucc n =>
    rw [toList_negSucc] at h
    rcases List.mem_cons.mp h with rfl | h
    · exact .inr rfl
    · exact .inl (isDigit_of_mem_natText c h)

/-- A scalar is displayed as a text without marks, and not as nothing. -/
theorem bare_display {e : Example} (h : e.form = .scalar) : Bare e.display ∧ e.display ≠ [] := by
  cases e with
  | bool b => cases b <;> decide
  | int n => exact ⟨bare_of_numeric (numeric_intText n), intText_ne_nil n⟩
  | double x =>
    rcases display_double x with ⟨hnumeric, c, hc, -⟩ | hword
    · exact ⟨bare_of_numeric hnumeric, List.ne_nil_of_mem hc⟩
    · have hwords : ∀ cs ∈ ["NaN".toList, "inf".toList, "-inf".toList], Bare cs ∧ cs ≠ [] := by decide
      exact hwords _ hword
  | text s => cases h
  | list items => cases h

/-- Whole numbers and doubles are not displayed alike. -/
theorem display_int_ne_double (n : Int) (x : Float) : display (.int n) ≠ display (.double x) := by
  intro h
  have hno : ∀ c ∈ display (.double x), c.isDigit = true ∨ c = '-' := fun c hc =>
    mem_display_int (h ▸ hc)
  rcases display_double x with ⟨-, c, hc, hmark⟩ | hword
  · rcases hno c hc with hdigit | rfl
    · rcases hmark with rfl | rfl <;> cases hdigit
    · rcases hmark with hmark | hmark <;> cases hmark
  · have hwords : ∀ cs ∈ ["NaN".toList, "inf".toList, "-inf".toList],
        ∃ c ∈ cs, ¬ (c.isDigit = true ∨ c = '-') := by simp
    obtain ⟨c, hc, hother⟩ := hwords _ hword
    exact hother (hno c hc)

/-- Truth values are displayed as nothing else is. -/
theorem display_bool_ne {b : Bool} {e : Example} (he : e.form = .scalar)
    (h : ∀ b', e ≠ .bool b') : display (.bool b) ≠ e.display := by
  have hnumeric : ¬ Numeric (display (.bool b)) := by cases b <;> decide
  cases e with
  | bool b' => exact absurd rfl (h b')
  | int n =>
    intro heq
    rw [heq] at hnumeric
    exact hnumeric (numeric_intText n)
  | double x =>
    intro heq
    rw [heq] at hnumeric
    rcases display_double x with ⟨hdouble, -⟩ | hword
    · exact hnumeric hdouble
    · rw [← heq] at hword
      revert hword
      cases b <;> decide
  | text s => cases he
  | list items => cases he

/-- **Scalars that are displayed alike are the same.** -/
theorem identical_of_display_eq {e f : Example} (he : e.form = .scalar) (hf : f.form = .scalar)
    (h : e.display = f.display) : Identical e f := by
  cases e with
  | bool a =>
    cases f with
    | bool b =>
      have hinj : ∀ a b : Bool, display (.bool a) = display (.bool b) → a = b := by decide
      exact hinj a b h
    | int n => exact absurd h (display_bool_ne hf nofun)
    | double y => exact absurd h (display_bool_ne hf nofun)
    | text t | list bs => cases hf
  | int m =>
    cases f with
    | bool b => exact absurd h.symm (display_bool_ne he nofun)
    | int n => exact intText_inj h
    | double y => exact absurd h (display_int_ne_double m y)
    | text t | list bs => cases hf
  | double x =>
    cases f with
    | bool b => exact absurd h.symm (display_bool_ne he nofun)
    | int n => exact absurd h.symm (display_int_ne_double n x)
    | double y =>
      have hwrite := Decimal.write_fractionLayout_eq_iff.mp (String.toList_inj.mp h)
      exact hwrite.imp_right fun hnan =>
        ⟨(Decimal.isNaN_iff x).mpr hnan.1, (Decimal.isNaN_iff y).mpr hnan.2⟩
    | text t | list bs => cases hf
  | text s | list as => cases he

/-! ## Literals in a text -/

/-- The first character of a literal tells its form, and is none that ends an item. -/
theorem exists_cons_display (e : Example) : ∃ c cs, e.display = c :: cs ∧ c ∉ ",]".toList ∧
    Form.ofFirst c = e.form := by
  have hscalar : e.form = .scalar → ∃ c cs, e.display = c :: cs ∧ c ∉ ",]".toList ∧
      Form.ofFirst c = e.form := by
    intro h
    obtain ⟨hbare, hne⟩ := bare_display h
    obtain ⟨c, cs, hcs⟩ := List.exists_cons_of_ne_nil hne
    rw [hcs] at hbare
    have hc := hbare c List.mem_cons_self
    have hmarks : ∀ d ∈ "\"[],".toList, c ≠ d := fun d hd heq => hc (heq ▸ hd)
    have hends : ∀ d ∈ ",]".toList, d ∈ "\"[],".toList := by simp
    refine ⟨c, cs, hcs, fun hend => hc (hends c hend), ?_⟩
    rw [Form.ofFirst, if_neg (hmarks '"' (by decide)), if_neg (hmarks '[' (by decide)), h]
  cases e with
  | bool b => exact hscalar rfl
  | int n => exact hscalar rfl
  | double x => exact hscalar rfl
  | text s => exact ⟨'"', _, rfl, by decide, rfl⟩
  | list items => exact ⟨'[', _, rfl, by decide, rfl⟩

theorem form_eq_of_display_append {e f : Example} {r s : List Char}
    (h : e.display ++ r = f.display ++ s) : e.form = f.form := by
  obtain ⟨c, cs, hcs, -, hc⟩ := exists_cons_display e
  obtain ⟨d, ds, hds, -, hd⟩ := exists_cons_display f
  rw [hcs, hds, List.cons_append, List.cons_append, List.cons.injEq] at h
  rw [← hc, ← hd, h.1]

theorem stops_following (items : List Example) (r : List Char) : Stops (following items ++ ']' :: r) := by
  cases items with
  | nil =>
    rintro c ⟨⟩
    decide
  | cons e items =>
    rintro c ⟨⟩
    decide

theorem identical_of_scalar_append {e f : Example} {r s : List Char} (he : e.form = .scalar)
    (hr : Stops r) (hs : Stops s) (h : e.display ++ r = f.display ++ s) : Identical e f ∧ r = s := by
  have hf : f.form = .scalar := (form_eq_of_display_append h).symm.trans he
  obtain ⟨htext, hrs⟩ := (bare_display he).1.append_inj (bare_display hf).1 hr hs h
  exact ⟨identical_of_display_eq he hf htext, hrs⟩

mutual

/-- **A literal is determined by what begins with it**, and so is the rest. -/
theorem identical_of_display_append : ∀ {e f : Example} {r s : List Char}, Stops r → Stops s →
    e.display ++ r = f.display ++ s → Identical e f ∧ r = s
  | .text a, f, r, s, _, _, h => by
    have hform := form_eq_of_display_append h
    cases f with
    | text b =>
      obtain ⟨hab, hrs⟩ := literal_append_inj h
      exact ⟨String.toList_inj.mp hab, hrs⟩
    | bool b | int n | double y | list bs => cases hform
  | .list as, f, r, s, _, _, h => by
    have hform := form_eq_of_display_append h
    cases f with
    | list bs =>
      refine identicalItems_of_displayItems_append (List.cons.inj (?_ : '[' :: _ = '[' :: _)).2
      simpa [display] using h
    | bool b | int n | double y | text b => cases hform
  | .bool _, _, _, _, hr, hs, h => identical_of_scalar_append rfl hr hs h
  | .int _, _, _, _, hr, hs, h => identical_of_scalar_append rfl hr hs h
  | .double _, _, _, _, hr, hs, h => identical_of_scalar_append rfl hr hs h

theorem identicalItems_of_displayItems_append : ∀ {as bs : List Example} {r s : List Char},
    displayItems as ++ ']' :: r = displayItems bs ++ ']' :: s → IdenticalItems as bs ∧ r = s
  | [], [], _, _, h => ⟨trivial, (List.cons.inj h).2⟩
  | [], b :: bs, r, s, h => by
    obtain ⟨c, cs, hcs, hc, -⟩ := exists_cons_display b
    rw [displayItems_cons, hcs, List.cons_append, List.cons_append] at h
    rw [← (List.cons.inj h).1] at hc
    exact absurd (by decide) hc
  | a :: as, [], r, s, h => by
    obtain ⟨c, cs, hcs, hc, -⟩ := exists_cons_display a
    rw [displayItems_cons, hcs, List.cons_append, List.cons_append] at h
    rw [(List.cons.inj h).1] at hc
    exact absurd (by decide) hc
  | a :: as, b :: bs, r, s, h => by
    rw [displayItems_cons, displayItems_cons, List.append_assoc, List.append_assoc] at h
    obtain ⟨hab, hrest⟩ := identical_of_display_append (stops_following as r) (stops_following bs s) h
    cases as with
    | nil =>
      cases bs with
      | nil => exact ⟨⟨hab, trivial⟩, (List.cons.inj hrest).2⟩
      | cons b' bs => exact absurd (List.cons.inj hrest).1 (by decide)
    | cons a' as =>
      cases bs with
      | nil => exact absurd (List.cons.inj hrest).1 (by decide)
      | cons b' bs =>
        obtain ⟨hitems, hrs⟩ :=
          identicalItems_of_displayItems_append (List.cons.inj (List.cons.inj hrest).2).2
        exact ⟨⟨hab, hitems⟩, hrs⟩

end

/-- **Literals read the same exactly if they are the same**, lists to any depth included, and they stay
on the line they are put on. -/
theorem display_unambiguous (e f : Example) :
    Plain e.display ∧ (e.display = f.display ↔ Identical e f) := by
  refine ⟨plain_display e, fun h => ?_, display_eq_of_identical⟩
  have hstops : Stops [] := nofun
  exact (identical_of_display_append hstops hstops (by rw [h])).1

end AttributeRegistry.Example
