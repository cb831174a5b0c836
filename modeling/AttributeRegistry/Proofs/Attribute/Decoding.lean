import AttributeRegistry.Attribute.Grammar
import AttributeRegistry.Proofs.Json.Values
import AttributeRegistry.Proofs.Validation.Rules

/-!
# Reading attributes back

The canonical JSON of an attribute is read as that attribute (`reads_attribute`), by the fields left out
as well as by those written. The integers of the attribute have to fit 64 bits, as those of every
document do, and its doubles have to read back.
-/

namespace AttributeRegistry

open Json Shape

/-! ## Numbers -/

namespace Example

mutual

/-- The scalars of a literal, in order. -/
def scalars : Example → List Example
  | .list items => scalarsOf items
  | .bool b => [.bool b]
  | .int n => [.int n]
  | .double x => [.double x]
  | .text s => [.text s]

/-- The scalars of each literal. -/
def scalarsOf : List Example → List Example
  | [] => []
  | e :: es => scalars e ++ scalarsOf es

end

theorem scalarsOf_eq_flatMap (es : List Example) : scalarsOf es = es.flatMap scalars := by
  induction es with
  | nil => rfl
  | cons e es ih => rw [scalarsOf, ih, List.flatMap_cons]

theorem mem_scalarsOf {es : List Example} {e x : Example} (he : e ∈ es) (hx : x ∈ e.scalars) :
    x ∈ scalarsOf es := by
  rw [scalarsOf_eq_flatMap]
  exact List.mem_flatMap_of_mem he hx

/-- The integer a literal is, if it is one. -/
def int? : Example → Option Int
  | .int n => some n
  | _ => none

/-- The double a literal is, if it is one. -/
def double? : Example → Option Float
  | .double x => some x
  | _ => none

theorem int?_eq_some {e : Example} {n : Int} : e.int? = some n ↔ e = .int n := by
  cases e <;> simp [int?]

theorem double?_eq_some {e : Example} {x : Float} : e.double? = some x ↔ e = .double x := by
  cases e <;> simp [double?]

end Example

/-- The integer a member's value is, if it is one. -/
def MemberValue.int? : MemberValue → Option Int
  | .int n => some n
  | .text _ => none

/-- The integers among the members of a type. -/
def AttributeType.ints : AttributeType → List Int
  | .primitive _ => []
  | .enumeration members => members.filterMap fun m => m.value.int?

namespace Attribute

/-- The integers of an attribute: those of its members and those of its examples. -/
def ints (a : Attribute) : List Int :=
  a.type.ints ++ (Example.scalarsOf a.examples).filterMap Example.int?

/-- The doubles among the examples of an attribute. -/
def doubles (a : Attribute) : List Float :=
  (Example.scalarsOf a.examples).filterMap Example.double?

theorem mem_ints {a : Attribute} {n : Int} :
    n ∈ a.ints ↔ n ∈ a.type.ints ∨ .int n ∈ Example.scalarsOf a.examples := by
  rw [ints, List.mem_append, List.mem_filterMap]
  simp only [Example.int?_eq_some, exists_eq_right]

theorem mem_doubles {a : Attribute} {x : Float} :
    x ∈ a.doubles ↔ .double x ∈ Example.scalarsOf a.examples := by
  rw [doubles, List.mem_filterMap]
  simp only [Example.double?_eq_some, exists_eq_right]

end Attribute

/-- An integer of 64 bits with a sign. -/
def FitsInt64 (n : Int) : Prop :=
  -2 ^ 63 ≤ n ∧ n < 2 ^ 63

instance : DecidablePred FitsInt64 :=
  fun n => inferInstanceAs (Decidable (-2 ^ 63 ≤ n ∧ n < 2 ^ 63))

theorem int64?_int {n : Int} (h : FitsInt64 n) : (Datum.int n).int64? = some n :=
  if_pos h

/-! ## Types -/

theorem toData_eq_map (vs : List Json) : toData vs = vs.map toDatum := by
  induction vs with
  | nil => rfl
  | cons v vs ih => rw [toData, ih, List.map_cons]

theorem AttributeType.forall_mem_ints {members : List Member} {P : Int → Prop} :
    (∀ n ∈ (AttributeType.enumeration members).ints, P n) ↔
      ∀ m ∈ members, ∀ n ∈ m.value.int?, P n := by
  simp only [AttributeType.ints, List.mem_filterMap, forall_exists_index, and_imp, Option.mem_def]
  exact ⟨fun h m hm n hn => h n m hm hn, fun h n m hm hn => h m hm n hn⟩

theorem MemberValue.ofDatum?_toJson {v : MemberValue} (h : ∀ n ∈ v.int?, FitsInt64 n) :
    MemberValue.ofDatum? v.toJson.toDatum = some v := by
  cases v with
  | int n =>
    rw [MemberValue.toJson, toDatum]
    unfold MemberValue.ofDatum?
    rw [int64?_int (h n rfl)]
  | text s => rfl

theorem Member.ofDatum?_toJson {m : Member} (h : ∀ n ∈ m.value.int?, FitsInt64 n) :
    Member.ofDatum? m.toJson.toDatum = some m := by
  obtain ⟨id, value, brief⟩ := m
  have hvalue := MemberValue.ofDatum?_toJson h
  have hslots : (Member.toJson ⟨id, value, brief⟩).toDatum.slots? ["id", "value", "brief"] =
      some [some (.text id), some value.toJson.toDatum, brief.map Datum.text] := by
    cases brief <;> rfl
  unfold Member.ofDatum?
  rw [hslots]
  simp only [Option.bind_eq_bind, Option.bind_some, Option.pure_def]
  dsimp only at hvalue
  rw [hvalue]
  cases brief <;> rfl

theorem mapM_ofDatum?_members {members : List Member}
    (h : ∀ m ∈ members, ∀ n ∈ m.value.int?, FitsInt64 n) :
    (members.map fun m => m.toJson.toDatum).mapM Member.ofDatum? = some members := by
  induction members with
  | nil => rfl
  | cons m ms ih =>
    rw [List.forall_mem_cons] at h
    rw [List.map_cons, List.mapM_cons, Member.ofDatum?_toJson h.1, ih h.2]
    rfl

/-- **A type is read from its own JSON**, if the integers of its members fit 64 bits. -/
theorem AttributeType.ofDatum?_toJson {t : AttributeType} (h : ∀ n ∈ t.ints, FitsInt64 n) :
    AttributeType.ofDatum? t.toJson.toDatum = some t := by
  cases t with
  | primitive p =>
    have hname : Primitive.ofDatum? (AttributeType.primitive p).toJson.toDatum = some p :=
      Primitive.ofName?_name p
    rw [AttributeType.ofDatum?, hname]
  | enumeration members =>
    have hmembers := mapM_ofDatum?_members (AttributeType.forall_mem_ints.mp h)
    have hslots : (AttributeType.enumeration members).toJson.toDatum.slots? ["members"] =
        some [some (.list (members.map fun m => m.toJson.toDatum))] := by
      rw [AttributeType.toJson, toDatum, toEntries, toDatum, toData_eq_map, List.map_map]
      rfl
    have hnone : Primitive.ofDatum? (AttributeType.enumeration members).toJson.toDatum = none := rfl
    rw [AttributeType.ofDatum?, hnone]
    dsimp only
    rw [hslots]
    simp only [Option.bind_eq_bind, Option.bind_some, hmembers, Option.pure_def]

theorem Member.readable_toJson {m : Member} (h : ∀ n ∈ m.value.int?, FitsInt64 n) (depth : Nat) :
    Readable (depth + 1) m.toJson := by
  obtain ⟨id, value, brief⟩ := m
  have hvalue : Readable depth value.toJson := by
    cases value with
    | int n =>
      obtain ⟨hlow, hhigh⟩ := h n rfl
      exact .int hlow (hhigh.trans (by decide))
    | text s => exact .str s
  refine .obj ?_
  cases brief with
  | none => simpa using ⟨Readable.str id, hvalue⟩
  | some b => simpa using ⟨Readable.str id, hvalue, Readable.str b⟩

theorem AttributeType.readable_toJson {t : AttributeType} (h : ∀ n ∈ t.ints, FitsInt64 n) (depth : Nat) :
    Readable (depth + 3) t.toJson := by
  cases t with
  | primitive p => exact .str p.name
  | enumeration members =>
    have hmembers : Readable (depth + 2) (.arr (members.map Member.toJson)) := by
      refine .arr ?_
      rw [List.forall_mem_map]
      exact fun m hm => Member.readable_toJson (AttributeType.forall_mem_ints.mp h m hm) depth
    refine .obj ?_
    simpa using hmembers

/-! ## Examples -/

namespace Example

mutual

/-- **A literal is read from its own JSON**, if its integers fit 64 bits. -/
theorem ofDatum?_toJson : ∀ e : Example, (∀ n, .int n ∈ e.scalars → FitsInt64 n) →
    ofDatum? e.toJson.toDatum = some e
  | .bool _, _ => rfl
  | .double _, _ => rfl
  | .text _, _ => rfl
  | .int n, h => by
    rw [toJson, toDatum, ofDatum?, int64?_int (h n (by simp [scalars]))]
  | .list items, h => by
    rw [toJson, toDatum, ofDatum?, ofData?_toJsonItems items h]
    rfl

theorem ofData?_toJsonItems : ∀ es : List Example, (∀ n, .int n ∈ scalarsOf es → FitsInt64 n) →
    ofData? (toData (toJsonItems es)) = some es
  | [], _ => rfl
  | e :: es, h => by
    simp only [scalarsOf, List.mem_append] at h
    rw [toJsonItems, toData, ofData?, ofDatum?_toJson e fun n hn => h n (.inl hn),
      ofData?_toJsonItems es fun n hn => h n (.inr hn)]
    rfl

end

theorem toJsonItems_eq_map (es : List Example) : toJsonItems es = es.map toJson := by
  induction es with
  | nil => rfl
  | cons e es ih => rw [toJsonItems, ih, List.map_cons]

/-- A scalar whose number reads back. -/
theorem readable_of_fits {kind : Scalar} {e : Example} (hkind : kind.Fits e)
    (hints : ∀ n, .int n ∈ e.scalars → FitsInt64 n)
    (hdoubles : ∀ x, .double x ∈ e.scalars → Json.parse (Decimal.writeJson x) = .ok (.float x))
    (depth : Nat) : Readable depth e.toJson := by
  have hint : ∀ n, FitsInt64 n → Readable depth (.int n) :=
    fun n hn => .int hn.1 (hn.2.trans (by decide))
  cases hkind with
  | string s => exact .str s
  | boolean b => exact .bool b
  | int n => exact hint n (hints n (by simp [scalars]))
  | wholeDouble n => exact hint n (hints n (by simp [scalars]))
  | double x => exact .float (hdoubles x (by simp [scalars]))

/-- **A literal of a type reads back as itself**: it is a scalar or a flat list. -/
theorem readable_toJson {t : AttributeType} {e : Example} (ht : t.Fits e)
    (hints : ∀ n, .int n ∈ e.scalars → FitsInt64 n)
    (hdoubles : ∀ x, .double x ∈ e.scalars → Json.parse (Decimal.writeJson x) = .ok (.float x))
    (depth : Nat) : Readable (depth + 1) e.toJson := by
  cases ht with
  | scalar hkind => exact readable_of_fits hkind hints hdoubles _
  | intMember hm hv => exact readable_of_fits (.int _) hints hdoubles _
  | textMember hm hv => exact .str _
  | @array kind items hkind =>
    rw [toJson, toJsonItems_eq_map]
    refine .arr ?_
    rw [List.forall_mem_map]
    intro e he
    exact readable_of_fits (hkind e he) (fun n hn => hints n (mem_scalarsOf he hn))
      (fun x hx => hdoubles x (mem_scalarsOf he hx)) depth

end Example

/-! ## Fields -/

section Fields

variable {ρ σ : Type} {n : Nat} {fields : Fields ρ σ} {values : ρ} {ms : List (String × Json)}

/-- An optional text is written as a member or left out. -/
theorem written_text (name : String) (text : Option String) (more : Written n fields values ms) :
    Written n (fieldOr name none (.optional .text) fields) (text, values)
      (Attribute.textMember name text ++ ms) := by
  cases text with
  | none => exact .absent more
  | some s => exact .cons (reads_some (reads_text n s)) more

/-- A list is written as a member, or left out if it is empty. -/
theorem written_list {α : Type} {s : Shape α} {write : α → Json} (name : String) {as : List α}
    (h : ∀ a ∈ as, Reads (s.readJson n) a (write a)) (more : Written (n + 1) fields values ms) :
    Written (n + 1) (fieldOr name [] (.list s) fields) (as, values)
      ((if as.isEmpty then [] else [(name, .arr (as.map write))]) ++ ms) := by
  cases as with
  | nil => exact .absent more
  | cons a as => exact .cons (reads_list_map h) more

end Fields

/-- A value that a datum is picked from reads back if it does as any value. -/
theorem reads_untagged {α : Type} {name : String} {pick : Datum → Option α} {a : α} {v : Json}
    {depth : Nat} (hv : Readable depth v) (h : pick v.toDatum = some a) :
    Reads ((Shape.untagged name pick).readJson depth) a v := by
  intro gap cs rest hgap hs hrest
  rw [Shape.readJson, reads_value hv hgap hs hrest]
  simp only [Bind.bind, Except.bind, h]
  rfl

theorem reads_constraint (c : Constraint) (n : Nat) :
    Reads (Constraint.shape.readJson (n + 2)) c c.toJson := by
  have hnames : ∀ names : List String, ∀ s ∈ names, Reads (Shape.text.readJson n) s (.str s) :=
    fun _ s _ => reads_text n s
  have hmembers : c.toJson = .obj (Constraint.namesMember "not_on" c.notOn
      ++ (Constraint.namesMember "only_on" c.onlyOn
      ++ (Attribute.textMember "reason" c.reason ++ []))) := by
    rw [Constraint.toJson, List.append_assoc, List.append_nil]
    rfl
  rw [hmembers]
  exact reads_record (by decide) (written_list "not_on" (hnames c.notOn)
    (written_list "only_on" (hnames c.onlyOn) (written_text "reason" c.reason .nil)))

theorem reads_stability (s : Stability) (n : Nat) :
    Reads (Stability.shape.readJson n) s (.str s.name) := by
  refine reads_choice ?_ n
  cases s <;> rfl

/-! ## Attributes -/

/-- **The canonical JSON of an attribute is read as that attribute.** -/
theorem reads_attribute {a : Attribute} (hfits : ∀ e ∈ a.examples, a.type.Fits e)
    (hints : ∀ n ∈ a.ints, FitsInt64 n)
    (hdoubles : ∀ x ∈ a.doubles, Json.parse (Decimal.writeJson x) = .ok (.float x)) (n : Nat) :
    Reads (Attribute.shape.readJson (n + 5)) a a.toJson := by
  have hexample : ∀ e ∈ a.examples, Reads (Example.shape.readJson (n + 3)) e e.toJson := by
    intro e he
    have hint : ∀ k, .int k ∈ e.scalars → FitsInt64 k :=
      fun k hk => hints k (Attribute.mem_ints.mpr (.inr (Example.mem_scalarsOf he hk)))
    have hdouble : ∀ x, .double x ∈ e.scalars → Json.parse (Decimal.writeJson x) = .ok (.float x) :=
      fun x hx => hdoubles x (Attribute.mem_doubles.mpr (Example.mem_scalarsOf he hx))
    exact reads_untagged (Example.readable_toJson (hfits e he) hint hdouble (n + 2))
      (Example.ofDatum?_toJson e hint)
  have htype : Reads (AttributeType.shape.readJson (n + 4)) a.type a.type.toJson := by
    have hmembers : ∀ k ∈ a.type.ints, FitsInt64 k :=
      fun k hk => hints k (Attribute.mem_ints.mpr (.inl hk))
    exact reads_untagged (AttributeType.readable_toJson hmembers (n + 1))
      (AttributeType.ofDatum?_toJson hmembers)
  have hconstraint : ∀ c ∈ a.constraints, Reads (Constraint.shape.readJson (n + 3)) c c.toJson :=
    fun c _ => reads_constraint c (n + 1)
  have hmembers : a.toJson = .obj (("key", .str a.key) :: ("type", a.type.toJson)
      :: ("brief", .str a.brief) :: (Attribute.textMember "notes" a.notes
      ++ ("examples", .arr (a.examples.map Example.toJson)) :: ("stability", .str a.stability.name)
      :: (Attribute.textMember "deprecated_by" a.deprecatedBy
      ++ ((if a.constraints.isEmpty then [] else
        [("constraints", .arr (a.constraints.map Constraint.toJson))]) ++ [])))) := by
    rw [Attribute.toJson, Example.toJsonItems_eq_map]
    simp only [List.append_assoc, List.cons_append, List.nil_append, List.append_nil]
  rw [hmembers]
  exact reads_record (by decide) (.cons (reads_text _ a.key) (.cons htype
    (.cons (reads_text _ a.brief) (written_text "notes" a.notes
    (.cons (reads_list_map hexample) (.cons (reads_stability a.stability _)
    (written_text "deprecated_by" a.deprecatedBy
    (written_list "constraints" hconstraint .nil))))))))

end AttributeRegistry
