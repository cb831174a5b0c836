import AttributeRegistry.Proofs.Decimal.Equal
import AttributeRegistry.Proofs.Json.Compact

/-!
# When examples are the same and when they are written alike

Definitions are compared in two ways: by their checksums, which see how examples are written, and by
their fields, which see the values of examples. The two differ for some doubles only. What is no finite
number is written as the null value, whatever it is, but equals nothing or one infinity; and the two
zeros are equal but are written with different signs. Examples without these are the same exactly if
they are written alike (`sameItems_iff_alikeItems`).
-/

namespace AttributeRegistry.Example

mutual

/-- Literals that are written alike. -/
def Alike : Example → Example → Prop
  | .bool a, .bool b => a = b
  | .int a, .int b => a = b
  | .double x, .double y => x = y ∨ x.isFinite = false ∧ y.isFinite = false
  | .text a, .text b => a = b
  | .list as, .list bs => AlikeItems as bs
  | _, _ => False

/-- Lists of literals that are written alike. -/
def AlikeItems : List Example → List Example → Prop
  | [], [] => True
  | a :: as, b :: bs => Alike a b ∧ AlikeItems as bs
  | _, _ => False

end

mutual

/-- Every double of a literal is finite, and none is the negative zero. -/
def Ordinary : Example → Prop
  | .double x => x.isFinite = true ∧ x ≠ -0.0
  | .list items => OrdinaryItems items
  | _ => True

/-- `Ordinary` for every literal of a list. -/
def OrdinaryItems : List Example → Prop
  | [] => True
  | a :: as => Ordinary a ∧ OrdinaryItems as

end

/-! ## Doubles -/

theorem written_double (x : Float) :
    (toJson (.double x)).written = if x.isFinite then .float x else .null := by
  rw [toJson, Json.written, Decimal.isNumber_decode]

/-- A double is written as no other literal is. -/
theorem written_double_ne (x : Float) {b : Example} (h : ∀ y, b ≠ .double y) :
    (toJson (.double x)).written ≠ b.toJson.written := by
  rw [written_double]
  cases b with
  | double y => exact absurd rfl (h y)
  | bool b | int n | text s | list items => split <;> nofun

theorem written_double_inj {x y : Float} :
    (toJson (.double x)).written = (toJson (.double y)).written ↔ Alike (.double x) (.double y) := by
  rw [written_double, written_double, Alike]
  cases hx : x.isFinite with
  | true =>
    cases hy : y.isFinite with
    | true => simp
    | false =>
      have hne : x ≠ y := by
        rintro rfl
        rw [hx] at hy
        cases hy
      simp [hne]
  | false =>
    cases hy : y.isFinite with
    | true =>
      have hne : x ≠ y := by
        rintro rfl
        rw [hx] at hy
        cases hy
      simp [hne]
    | false => simp

/-- Finite doubles other than the negative zero are equal exactly if they are the same. -/
theorem beq_iff_of_ordinary {x y : Float} (hx : Ordinary (.double x)) (hy : Ordinary (.double y)) :
    (x == y) = true ↔ Alike (.double x) (.double y) := by
  have hzero : ∀ z : Float, Ordinary (.double z) → (Decimal.decode z).2 = .zero →
      Decimal.decode z = (false, .zero) := by
    intro z hz hmag
    have hminus : Decimal.decode (-0.0) = (true, .zero) := by decide
    refine Prod.ext (Bool.eq_false_iff.mpr fun hsign => hz.2 ?_) hmag
    refine Decimal.eq_of_decode ((Prod.ext hsign hmag).trans hminus.symm) ?_
    rw [hmag]
    exact nofun
  have hnan : (Decimal.decode x).2 ≠ .nan := by
    intro h
    have hfinite := hx.1
    rw [← Decimal.isNumber_decode, h] at hfinite
    cases hfinite
  rw [Decimal.beq_iff, Alike, hx.1]
  simp only [Bool.true_eq_false, false_and, or_false]
  constructor
  · rintro ⟨-, heq | ⟨hx₀, hy₀⟩⟩
    · exact Decimal.eq_of_decode heq hnan
    · exact Decimal.eq_of_decode ((hzero x hx hx₀).trans (hzero y hy hy₀).symm) hnan
  · rintro rfl
    exact ⟨hnan, .inl rfl⟩

/-! ## Literals -/

mutual

/-- **Literals are written alike exactly if their JSON is the same as far as it is written.** -/
theorem written_toJson_inj : ∀ a b : Example, a.toJson.written = b.toJson.written ↔ Alike a b
  | .double x, b => by
    cases b with
    | double y => exact written_double_inj
    | bool b => exact iff_of_false (written_double_ne x nofun) id
    | int n => exact iff_of_false (written_double_ne x nofun) id
    | text s => exact iff_of_false (written_double_ne x nofun) id
    | list items => exact iff_of_false (written_double_ne x nofun) id
  | .bool a, b => by
    cases b with
    | double y => exact iff_of_false (written_double_ne y (b := .bool a) nofun).symm id
    | bool b => simp [toJson, Json.written, Alike]
    | int n | text s | list items => exact iff_of_false nofun id
  | .int m, b => by
    cases b with
    | double y => exact iff_of_false (written_double_ne y (b := .int m) nofun).symm id
    | int n => simp [toJson, Json.written, Alike]
    | bool b | text s | list items => exact iff_of_false nofun id
  | .text s, b => by
    cases b with
    | double y => exact iff_of_false (written_double_ne y (b := .text s) nofun).symm id
    | text t => simp [toJson, Json.written, Alike]
    | bool b | int n | list items => exact iff_of_false nofun id
  | .list as, b => by
    cases b with
    | double y => exact iff_of_false (written_double_ne y (b := .list as) nofun).symm id
    | list bs =>
      rw [toJson, toJson, Json.written, Json.written, Json.arr.injEq, Alike]
      exact writtenItems_toJsonItems_inj as bs
    | bool b | int n | text s => exact iff_of_false nofun id

theorem writtenItems_toJsonItems_inj : ∀ as bs : List Example,
    Json.writtenItems (toJsonItems as) = Json.writtenItems (toJsonItems bs) ↔ AlikeItems as bs
  | [], [] => iff_of_true rfl trivial
  | [], b :: bs => iff_of_false nofun id
  | a :: as, [] => iff_of_false nofun id
  | a :: as, b :: bs => by
    rw [toJsonItems, toJsonItems, Json.writtenItems, Json.writtenItems, List.cons.injEq, AlikeItems,
      written_toJson_inj a b, writtenItems_toJsonItems_inj as bs]

end

mutual

/-- Ordinary literals are the same exactly if they are written alike. -/
theorem same_iff_alike : ∀ {a b : Example}, a.Ordinary → b.Ordinary → (same a b = true ↔ Alike a b)
  | .double x, b, ha, hb => by
    cases b with
    | double y => exact beq_iff_of_ordinary ha hb
    | bool b | int n | text s | list items => exact iff_of_false nofun id
  | .bool a, b, _, _ => by
    cases b with
    | bool b => simp [same, Alike]
    | double x | int n | text s | list items => exact iff_of_false nofun id
  | .int m, b, _, _ => by
    cases b with
    | int n => simp [same, Alike]
    | double x | bool b | text s | list items => exact iff_of_false nofun id
  | .text s, b, _, _ => by
    cases b with
    | text t => simp [same, Alike]
    | double x | bool b | int n | list items => exact iff_of_false nofun id
  | .list as, b, ha, hb => by
    cases b with
    | list bs =>
      rw [same, Alike]
      exact sameItems_iff_alikeItems ha hb
    | double x | bool b | int n | text s => exact iff_of_false nofun id

/-- **Lists of ordinary literals are the same exactly if they are written alike.** -/
theorem sameItems_iff_alikeItems : ∀ {as bs : List Example}, OrdinaryItems as → OrdinaryItems bs →
    (sameItems as bs = true ↔ AlikeItems as bs)
  | [], [], _, _ => iff_of_true rfl trivial
  | [], b :: bs, _, _ => iff_of_false nofun id
  | a :: as, [], _, _ => iff_of_false nofun id
  | a :: as, b :: bs, ha, hb => by
    rw [sameItems, Bool.and_eq_true, AlikeItems, same_iff_alike ha.1 hb.1,
      sameItems_iff_alikeItems ha.2 hb.2]

end

/-- Comparing lists is comparing the literals in order. -/
theorem beq_list (as bs : List Example) : (as == bs) = sameItems as bs := by
  induction as generalizing bs with
  | nil => cases bs <;> rfl
  | cons a as ih =>
    cases bs with
    | nil => rfl
    | cons b bs =>
      rw [List.cons_beq_cons, ih]
      rfl

end AttributeRegistry.Example
