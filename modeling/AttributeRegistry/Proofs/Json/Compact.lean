import AttributeRegistry.Proofs.Decimal.Written
import AttributeRegistry.Proofs.Json.Strings
import AttributeRegistry.Proofs.Text.Printed

/-!
# The compact form determines a value

Checksums are taken of the compact form, so that values with the same compact form cannot be told
apart by them. They are the same value, except that a double that is no number is written like the null
value (`compact_inj`).
-/

namespace AttributeRegistry.Json

open Text (Numeric toList_negSucc isDigit_of_mem_natText intText_ne_nil intText_inj)

mutual

/-- A value as far as it is written: a double that is no number becomes the null value. -/
def written : Json → Json
  | .float x => if (Decimal.decode x).2.isNumber then .float x else .null
  | .arr items => .arr (writtenItems items)
  | .obj members => .obj (writtenMembers members)
  | .null => .null
  | .bool b => .bool b
  | .int n => .int n
  | .str s => .str s

/-- Each item as far as it is written. -/
def writtenItems : List Json → List Json
  | [] => []
  | v :: vs => written v :: writtenItems vs

/-- Each member as far as it is written. -/
def writtenMembers : List (String × Json) → List (String × Json)
  | [] => []
  | (k, v) :: ms => (k, written v) :: writtenMembers ms

end

theorem writtenItems_eq_map (vs : List Json) : writtenItems vs = vs.map written := by
  induction vs with
  | nil => rw [writtenItems, List.map_nil]
  | cons v vs ih => rw [writtenItems, List.map_cons, ih]

theorem writtenMembers_eq_map (ms : List (String × Json)) :
    writtenMembers ms = ms.map fun m => (m.1, m.2.written) := by
  induction ms with
  | nil => rw [writtenMembers, List.map_nil]
  | cons m ms ih => rw [writtenMembers, List.map_cons, ih]

/-! ## Scalars -/

/-- An integer is written without a point and an exponent. -/
theorem no_mark_intText (n : Int) : ∀ c ∈ (toString n).toList, c ≠ '.' ∧ c ≠ 'e' := by
  have hnat : ∀ k : Nat, ∀ c ∈ (toString k).toList, c ≠ '.' ∧ c ≠ 'e' := by
    intro k c hc
    have hdigit := isDigit_of_mem_natText c hc
    constructor <;> rintro rfl <;> exact absurd hdigit (by decide)
  cases n with
  | ofNat n => exact hnat n
  | negSucc n =>
    rw [toList_negSucc, List.forall_mem_cons]
    exact ⟨by decide, hnat (n + 1)⟩

/-- A double that is a number is written with the characters of numbers, among them a point or an
exponent. -/
theorem numeric_writeJson {x : Float} (h : (Decimal.decode x).2.isNumber = true) :
    Numeric (Decimal.writeJson x).toList ∧
      ∃ c ∈ (Decimal.writeJson x).toList, c = '.' ∨ c = 'e' := by
  have hsign : ∀ b : Bool, Numeric (if b then ['-'] else []) := by decide
  have htext : Numeric ((Decimal.decode x).2.text Decimal.jsonLayout) ∧
      ∃ c ∈ (Decimal.decode x).2.text Decimal.jsonLayout, c = '.' ∨ c = 'e' := by
    cases hmag : (Decimal.decode x).2 with
    | nan | infinite =>
      rw [hmag] at h
      cases h
    | zero => exact ⟨by decide, '.', by decide, .inl rfl⟩
    | finite b => exact ⟨Text.numeric_write _ _, Decimal.exists_mark_write rfl _⟩
  obtain ⟨c, hc, hmark⟩ := htext.2
  rw [Decimal.toList_writeJson, Text.numeric_append]
  exact ⟨⟨hsign _, htext.1⟩, c, List.mem_append_right _ hc, hmark⟩

theorem compact_no_number {x : Float} (h : (Decimal.decode x).2.isNumber = false) :
    (Json.float x).compact = "null".toList := by
  rw [compact, Decimal.writeJson_eq_null h]

/-- The kinds of scalars. -/
inductive Kind where
  | null | bool | int | double
deriving DecidableEq

/-- The kind of a value; nothing for texts, arrays and objects. -/
def kind? : Json → Option Kind
  | .null => some .null
  | .bool _ => some .bool
  | .int _ => some .int
  | .float _ => some .double
  | _ => none

/-- The kind of scalar that a text is the compact form of. -/
def kindOf (cs : List Char) : Kind :=
  if cs = "null".toList then .null
  else if cs = "true".toList ∨ cs = "false".toList then .bool
  else if cs.any fun c => c = '.' || c = 'e' then .double
  else .int

theorem kindOf_numeric {cs : List Char} (h : Numeric cs) :
    kindOf cs = if cs.any fun c => c = '.' || c = 'e' then .double else .int := by
  have hne : ∀ word : List Char, ¬ Numeric word → cs ≠ word := fun word hword heq => hword (heq ▸ h)
  rw [kindOf, if_neg (hne _ (by decide)), if_neg]
  exact not_or.mpr ⟨hne _ (by decide), hne _ (by decide)⟩

/-- **A scalar shows its kind.** -/
theorem kindOf_compact {v : Json} {k : Kind} (h : v.written.kind? = some k) : kindOf v.compact = k := by
  cases v with
  | null => cases h; rfl
  | bool b => cases h; cases b <;> rfl
  | int n =>
    cases h
    rw [compact, kindOf_numeric (Text.numeric_intText n), if_neg]
    rw [List.any_eq_true]
    rintro ⟨c, hc, hmark⟩
    obtain ⟨hpoint, hexponent⟩ := no_mark_intText n c hc
    simp [hpoint, hexponent] at hmark
  | float x =>
    rw [written] at h
    split at h
    · next hnumber =>
      cases h
      obtain ⟨hnumeric, hmark⟩ := numeric_writeJson hnumber
      rw [compact, kindOf_numeric hnumeric, if_pos]
      obtain ⟨c, hc, hmark⟩ := hmark
      exact List.any_eq_true.mpr ⟨c, hc, by simpa using hmark⟩
    · next hnumber =>
      cases h
      rw [compact_no_number (Bool.eq_false_iff.mpr hnumber)]
      rfl
  | str s => cases h
  | arr items => cases h
  | obj members => cases h

/-- What the kinds mean, as far as values are written. -/
def Kind.Holds (v : Json) : Kind → Prop
  | .null => v.written = .null
  | .bool => ∃ b, v = .bool b
  | .int => ∃ n, v = .int n
  | .double => ∃ x, v = .float x ∧ v.written = .float x

theorem Kind.holds {v : Json} {k : Kind} (h : v.written.kind? = some k) : k.Holds v := by
  cases v with
  | null => cases h; exact rfl
  | bool b => cases h; exact ⟨b, rfl⟩
  | int n => cases h; exact ⟨n, rfl⟩
  | float x =>
    rw [written] at h
    split at h
    · next hnumber =>
      cases h
      exact ⟨x, rfl, by rw [written, if_pos hnumber]⟩
    · next hnumber =>
      cases h
      exact show (Json.float x).written = .null by rw [written, if_neg hnumber]
  | str s => cases h
  | arr items => cases h
  | obj members => cases h

/-- Scalars with one compact form are the same. -/
theorem scalar_inj {v w : Json} {k l : Kind} (hv : v.written.kind? = some k)
    (hw : w.written.kind? = some l) (h : v.compact = w.compact) : v.written = w.written := by
  obtain rfl : k = l := by rw [← kindOf_compact hv, ← kindOf_compact hw, h]
  have hv := Kind.holds hv
  have hw := Kind.holds hw
  cases k with
  | null => exact hv.trans hw.symm
  | bool =>
    obtain ⟨b, rfl⟩ := hv
    obtain ⟨c, rfl⟩ := hw
    cases b <;> cases c <;> first | rfl | cases h
  | int =>
    obtain ⟨m, rfl⟩ := hv
    obtain ⟨n, rfl⟩ := hw
    rw [intText_inj h]
  | double =>
    obtain ⟨x, rfl, hx⟩ := hv
    obtain ⟨y, rfl, hy⟩ := hw
    rcases Decimal.writeJson_eq_iff.mp (String.toList_inj.mp h) with rfl | ⟨hno, -⟩
    · rfl
    · rw [written, if_neg (Bool.eq_false_iff.mp hno)] at hx
      cases hx

/-! ## Where a value ends -/

/-- A text that goes on behind a value: it begins with a comma or a closing bracket, if at all. -/
def Stops (cs : List Char) : Prop :=
  ∀ c ∈ cs.head?, c ∈ ",]\x7d".toList

/-- The characters that give a text its structure. -/
def structural : List Char :=
  ",]\x7d\"[\x7b".toList

/-- A word: it has characters, and none of the structure. -/
structure Word (cs : List Char) : Prop where
  ne_nil : cs ≠ []
  plain : ∀ c ∈ cs, c ∉ structural

instance (cs : List Char) : Decidable (Word cs) :=
  letI : Decidable (∀ c ∈ cs, c ∉ structural) := List.decidableBAll (· ∉ structural) cs
  decidable_of_iff (cs ≠ [] ∧ ∀ c ∈ cs, c ∉ structural)
    ⟨fun h => ⟨h.1, h.2⟩, fun h => ⟨h.ne_nil, h.plain⟩⟩

theorem Stops.mem_structural {c : Char} {cs : List Char} (h : Stops (c :: cs)) : c ∈ structural := by
  have hprefix : ",]\x7d".toList <+: structural := ⟨"\"[\x7b".toList, rfl⟩
  exact hprefix.subset (h c rfl)

/-- What has no structure ends where the structure goes on. -/
theorem plain_append_inj {as bs s t : List Char} (ha : ∀ c ∈ as, c ∉ structural)
    (hb : ∀ c ∈ bs, c ∉ structural) (hs : Stops s) (ht : Stops t) (h : as ++ s = bs ++ t) :
    as = bs ∧ s = t := by
  induction as generalizing bs with
  | nil =>
    cases bs with
    | nil => exact ⟨rfl, h⟩
    | cons b bs =>
      rw [List.nil_append, List.cons_append] at h
      exact absurd (h ▸ hs).mem_structural (hb b List.mem_cons_self)
  | cons a as ih =>
    cases bs with
    | nil =>
      rw [List.nil_append, List.cons_append] at h
      exact absurd (h ▸ ht).mem_structural (ha a List.mem_cons_self)
    | cons b bs =>
      rw [List.forall_mem_cons] at ha hb
      obtain ⟨rfl, htail⟩ := List.cons.inj h
      obtain ⟨rfl, rfl⟩ := ih ha.2 hb.2 htail
      exact ⟨rfl, rfl⟩

theorem word_of_numeric {cs : List Char} (h : Numeric cs) (hne : cs ≠ []) : Word cs := by
  refine ⟨hne, fun c hc hmem => ?_⟩
  have hall : structural.all (fun c => ¬ (c.isDigit = true ∨ c ∈ "-+.e".toList)) = true := by decide
  exact of_decide_eq_true (List.all_eq_true.mp hall c hmem) (h c hc)

/-- The compact form of a scalar is a word. -/
theorem word_compact {v : Json} {k : Kind} (h : v.written.kind? = some k) : Word v.compact := by
  cases v with
  | null => decide
  | bool b => cases b <;> decide
  | int n => exact word_of_numeric (Text.numeric_intText n) (intText_ne_nil n)
  | float x =>
    by_cases hnumber : (Decimal.decode x).2.isNumber = true
    · obtain ⟨hnumeric, c, hc, -⟩ := numeric_writeJson hnumber
      exact word_of_numeric hnumeric (List.ne_nil_of_mem hc)
    · rw [compact_no_number (Bool.eq_false_iff.mpr hnumber)]
      decide
  | str s => cases h
  | arr items => cases h
  | obj members => cases h

theorem writeString_append_inj {a b : String} {s t : List Char}
    (h : writeString a ++ s = writeString b ++ t) : a = b ∧ s = t := by
  rw [writeString_append, writeString_append, List.cons.injEq] at h
  have hsome := readString_flatMap a s
  rw [h.2, readString_flatMap] at hsome
  cases hsome
  exact ⟨rfl, rfl⟩

/-! ## Structure -/

/-- The character that the compact form of a text, an array or an object begins with. -/
def opening? : Json → Option Char
  | .str _ => some '"'
  | .arr _ => some '['
  | .obj _ => some '\x7b'
  | _ => none

theorem kind?_written_of_opening? {v : Json} (h : v.opening? = none) :
    ∃ k, v.written.kind? = some k := by
  cases v with
  | null => exact ⟨.null, rfl⟩
  | bool b => exact ⟨.bool, rfl⟩
  | int n => exact ⟨.int, rfl⟩
  | float x =>
    rw [written]
    split
    · exact ⟨.double, rfl⟩
    · exact ⟨.null, rfl⟩
  | str s => cases h
  | arr items => cases h
  | obj members => cases h

/-- A value shows how it begins: with its opening character, or else with one without structure. -/
theorem exists_head_compact (v : Json) : ∃ c cs, v.compact = c :: cs ∧
    v.opening? = if c ∈ structural then some c else none := by
  cases hopening : v.opening? with
  | none =>
    obtain ⟨k, hk⟩ := kind?_written_of_opening? hopening
    have hword := word_compact hk
    obtain ⟨c, cs, hcs⟩ := List.exists_cons_of_ne_nil hword.ne_nil
    exact ⟨c, cs, hcs, (if_neg (hword.plain c (hcs ▸ List.mem_cons_self))).symm⟩
  | some c =>
    cases v with
    | str s => cases hopening; exact ⟨_, _, rfl, rfl⟩
    | arr items => cases hopening; exact ⟨_, _, by rw [compact]; rfl, rfl⟩
    | obj members => cases hopening; exact ⟨_, _, by rw [compact]; rfl, rfl⟩
    | null | bool b | int n | float x => cases hopening

theorem opening?_eq {v w : Json} {s t : List Char} (h : v.compact ++ s = w.compact ++ t) :
    v.opening? = w.opening? := by
  obtain ⟨c, cs, hv, hcv⟩ := exists_head_compact v
  obtain ⟨d, ds, hw, hdw⟩ := exists_head_compact w
  rw [hv, hw, List.cons_append, List.cons_append, List.cons.injEq] at h
  rw [hcv, hdw, h.1]

/-- No value begins like the end of an array. -/
theorem compact_append_ne {v : Json} {s t : List Char} : v.compact ++ s ≠ ']' :: t := by
  intro h
  obtain ⟨c, cs, hv, hcv⟩ := exists_head_compact v
  rw [hv, List.cons_append, List.cons.injEq] at h
  rw [h.1, if_pos (by decide)] at hcv
  cases v <;> cases hcv

theorem compact_arr_append (vs : List Json) (s : List Char) :
    (Json.arr vs).compact ++ s = '[' :: (compactItems vs ++ ']' :: s) := by
  simp [compact]

theorem compact_obj_append (ms : List (String × Json)) (s : List Char) :
    (Json.obj ms).compact ++ s = '\x7b' :: (compactMembers ms ++ '\x7d' :: s) := by
  simp [compact]

/-- What stands behind an item with more items to come. -/
def itemsRest (vs : List Json) (s : List Char) : List Char :=
  match vs with
  | [] => ']' :: s
  | v :: vs => ',' :: compactItems (v :: vs) ++ ']' :: s

theorem compactItems_cons (v w : Json) (vs : List Json) :
    compactItems (v :: w :: vs) = v.compact ++ ',' :: compactItems (w :: vs) := by
  rw [compactItems]
  exact List.cons_ne_nil _ _

theorem compactItems_append (v : Json) (vs : List Json) (s : List Char) :
    compactItems (v :: vs) ++ ']' :: s = v.compact ++ itemsRest vs s := by
  cases vs with
  | nil => rw [compactItems, itemsRest]
  | cons w vs => rw [compactItems_cons, itemsRest, List.append_assoc]

theorem stops_itemsRest (vs : List Json) (s : List Char) : Stops (itemsRest vs s) := by
  cases vs <;> rintro c ⟨⟩ <;> decide

/-- What stands behind a member with more members to come. -/
def membersRest (ms : List (String × Json)) (s : List Char) : List Char :=
  match ms with
  | [] => '\x7d' :: s
  | m :: ms => ',' :: compactMembers (m :: ms) ++ '\x7d' :: s

theorem compactMembers_cons (k : String) (v : Json) (m : String × Json) (ms : List (String × Json)) :
    compactMembers ((k, v) :: m :: ms) =
      writeString k ++ ':' :: v.compact ++ ',' :: compactMembers (m :: ms) := by
  rw [compactMembers]
  exact List.cons_ne_nil _ _

theorem compactMembers_append (k : String) (v : Json) (ms : List (String × Json)) (s : List Char) :
    compactMembers ((k, v) :: ms) ++ '\x7d' :: s =
      writeString k ++ ':' :: (v.compact ++ membersRest ms s) := by
  cases ms with
  | nil =>
    rw [compactMembers, membersRest]
    simp
  | cons m ms =>
    rw [compactMembers_cons, membersRest]
    simp

theorem stops_membersRest (ms : List (String × Json)) (s : List Char) : Stops (membersRest ms s) := by
  cases ms <;> rintro c ⟨⟩ <;> decide

theorem scalar_append_inj {v w : Json} {s t : List Char} (hv : v.opening? = none) (hs : Stops s)
    (ht : Stops t) (h : v.compact ++ s = w.compact ++ t) : v.written = w.written ∧ s = t := by
  have hw : w.opening? = none := opening?_eq h ▸ hv
  obtain ⟨k, hk⟩ := kind?_written_of_opening? hv
  obtain ⟨l, hl⟩ := kind?_written_of_opening? hw
  obtain ⟨hcompact, hst⟩ := plain_append_inj (word_compact hk).plain (word_compact hl).plain hs ht h
  exact ⟨scalar_inj hk hl hcompact, hst⟩

mutual

/-- **A value ends where its compact form does, and is determined by it.** -/
theorem compact_append_inj : ∀ (v w : Json) {s t : List Char}, Stops s → Stops t →
    v.compact ++ s = w.compact ++ t → v.written = w.written ∧ s = t
  | .null, _, _, _, hs, ht, h => scalar_append_inj rfl hs ht h
  | .bool _, _, _, _, hs, ht, h => scalar_append_inj rfl hs ht h
  | .int _, _, _, _, hs, ht, h => scalar_append_inj rfl hs ht h
  | .float _, _, _, _, hs, ht, h => scalar_append_inj rfl hs ht h
  | .str a, w, s, t, _, _, h => by
    have hopening := opening?_eq h
    cases w with
    | str b =>
      obtain ⟨rfl, rfl⟩ := writeString_append_inj h
      exact ⟨rfl, rfl⟩
    | null | bool b | int n | float x | arr ws | obj ns => cases hopening
  | .arr vs, w, s, t, _, _, h => by
    have hopening := opening?_eq h
    cases w with
    | arr ws =>
      rw [compact_arr_append, compact_arr_append, List.cons.injEq] at h
      obtain ⟨hitems, hst⟩ := compactItems_append_inj vs ws h.2
      rw [written, written, hitems]
      exact ⟨rfl, hst⟩
    | null | bool b | int n | float x | str b | obj ns => cases hopening
  | .obj ms, w, s, t, _, _, h => by
    have hopening := opening?_eq h
    cases w with
    | obj ns =>
      rw [compact_obj_append, compact_obj_append, List.cons.injEq] at h
      obtain ⟨hmembers, hst⟩ := compactMembers_append_inj ms ns h.2
      rw [written, written, hmembers]
      exact ⟨rfl, hst⟩
    | null | bool b | int n | float x | str b | arr ws => cases hopening

theorem compactItems_append_inj : ∀ (vs ws : List Json) {s t : List Char},
    compactItems vs ++ ']' :: s = compactItems ws ++ ']' :: t → writtenItems vs = writtenItems ws ∧ s = t
  | [], [], _, _, h => ⟨rfl, (List.cons.inj h).2⟩
  | [], w :: ws, s, t, h => by
    rw [compactItems_append] at h
    exact absurd h.symm compact_append_ne
  | v :: vs, [], s, t, h => by
    rw [compactItems_append] at h
    exact absurd h compact_append_ne
  | v :: vs, w :: ws, s, t, h => by
    rw [compactItems_append, compactItems_append] at h
    obtain ⟨hv, hrest⟩ := compact_append_inj v w (stops_itemsRest vs s) (stops_itemsRest ws t) h
    rw [writtenItems, writtenItems, hv]
    -- both lists end here, or both go on
    cases vs with
    | nil =>
      cases ws with
      | nil => exact ⟨rfl, (List.cons.inj hrest).2⟩
      | cons w' ws => cases hrest
    | cons v' vs =>
      cases ws with
      | nil => cases hrest
      | cons w' ws =>
        obtain ⟨hitems, hst⟩ := compactItems_append_inj (v' :: vs) (w' :: ws) (List.cons.inj hrest).2
        exact ⟨congrArg _ hitems, hst⟩

theorem compactMembers_append_inj : ∀ (ms ns : List (String × Json)) {s t : List Char},
    compactMembers ms ++ '\x7d' :: s = compactMembers ns ++ '\x7d' :: t →
      writtenMembers ms = writtenMembers ns ∧ s = t
  | [], [], _, _, h => ⟨rfl, (List.cons.inj h).2⟩
  | [], (k, w) :: ns, s, t, h => by
    rw [compactMembers_append] at h
    cases h
  | (k, v) :: ms, [], s, t, h => by
    rw [compactMembers_append] at h
    cases h
  | (k, v) :: ms, (l, w) :: ns, s, t, h => by
    rw [compactMembers_append, compactMembers_append] at h
    obtain ⟨rfl, htail⟩ := writeString_append_inj h
    obtain ⟨hv, hrest⟩ := compact_append_inj v w (stops_membersRest ms s) (stops_membersRest ns t)
      (List.cons.inj htail).2
    rw [writtenMembers, writtenMembers, hv]
    -- both objects end here, or both go on
    cases ms with
    | nil =>
      cases ns with
      | nil => exact ⟨rfl, (List.cons.inj hrest).2⟩
      | cons n ns => cases hrest
    | cons m ms =>
      cases ns with
      | nil => cases hrest
      | cons n ns =>
        obtain ⟨hmembers, hst⟩ := compactMembers_append_inj (m :: ms) (n :: ns) (List.cons.inj hrest).2
        exact ⟨congrArg _ hmembers, hst⟩

end

mutual

/-- What is not written does not show in the compact form. -/
theorem compact_written : ∀ v : Json, v.written.compact = v.compact
  | .null => rfl
  | .bool _ => rfl
  | .int _ => rfl
  | .str _ => rfl
  | .float x => by
    rw [written]
    split
    · rfl
    · next hnumber => exact (compact_no_number (Bool.eq_false_iff.mpr hnumber)).symm
  | .arr vs => by rw [written, compact, compact, compactItems_written vs]
  | .obj ms => by rw [written, compact, compact, compactMembers_written ms]

theorem compactItems_written : ∀ vs : List Json, compactItems (writtenItems vs) = compactItems vs
  | [] => rfl
  | [v] => by rw [writtenItems, writtenItems, compactItems, compactItems, compact_written v]
  | v :: w :: vs => by
    have hrest := compactItems_written (w :: vs)
    rw [writtenItems] at hrest ⊢
    rw [writtenItems, compactItems_cons, compactItems_cons, compact_written v, hrest]

theorem compactMembers_written : ∀ ms : List (String × Json),
    compactMembers (writtenMembers ms) = compactMembers ms
  | [] => rfl
  | [(k, v)] => by
    rw [writtenMembers, writtenMembers, compactMembers, compactMembers, compact_written v]
  | (k, v) :: (l, w) :: ms => by
    have hrest := compactMembers_written ((l, w) :: ms)
    rw [writtenMembers] at hrest ⊢
    rw [writtenMembers, compactMembers_cons, compactMembers_cons, compact_written v, hrest]

end

/-- **Values have the same compact form exactly if they are the same as far as they are written.** -/
theorem compact_eq_iff {v w : Json} : v.compact = w.compact ↔ v.written = w.written := by
  constructor
  · intro h
    have hstops : Stops [] := by rintro c ⟨⟩
    exact (compact_append_inj v w hstops hstops (congrArg (· ++ []) h)).1
  · intro h
    rw [← compact_written v, h, compact_written]

end AttributeRegistry.Json
