import AttributeRegistry.Attribute.Definition
import AttributeRegistry.Proofs.Attribute.Alike

/-!
# The canonical form of an attribute

Every field of an attribute can be read off its canonical JSON, what is left out because it is missing
or empty included. So attributes have the same canonical form exactly if all their fields are the same,
but for examples that are written alike (`toText_eq_iff`).
-/

namespace AttributeRegistry

open Json (written writtenItems)

/-! ## Members -/

namespace Json

/-- A member of a value as far as it is written. -/
theorem get?_written (key : String) (v : Json) : v.written.get? key = (v.get? key).map written := by
  cases v with
  | obj members =>
    rw [written, writtenMembers_eq_map, get?, get?]
    induction members with
    | nil => rfl
    | cons m ms ih =>
      rw [List.map_cons, List.lookup_cons, List.lookup_cons, ih]
      split <;> rfl
  | float x =>
    rw [written]
    split <;> rfl
  | null | bool b | int n | str s | arr items => rfl

/-- Values that are the same as far as they are written have the same members so far. -/
theorem get?_congr {v w : Json} (h : v.written = w.written) (key : String) :
    (v.get? key).map written = (w.get? key).map written := by
  rw [← get?_written, h, get?_written]

theorem written_obj {ms : List (String × Json)} (h : ∀ m ∈ ms, m.2.written = m.2) :
    (Json.obj ms).written = .obj ms := by
  rw [written, writtenMembers_eq_map, List.map_congr_left fun m hm => by rw [h m hm], List.map_id']

theorem written_arr_map {α : Type} {f : α → Json} (hf : ∀ a, (f a).written = f a) (as : List α) :
    (Json.arr (as.map f)).written = .arr (as.map f) := by
  rw [written, writtenItems_eq_map, List.map_map]
  congr 2
  exact funext hf

end Json

theorem str_injective : Function.Injective Json.str :=
  fun _ _ h => Json.str.inj h

/-! ## Types -/

theorem MemberValue.written_toJson (v : MemberValue) : v.toJson.written = v.toJson := by
  cases v <;> rfl

theorem MemberValue.toJson_injective : Function.Injective MemberValue.toJson := by
  intro v w h
  cases v <;> cases w <;> cases h <;> rfl

theorem Member.written_toJson (m : Member) : m.toJson.written = m.toJson := by
  obtain ⟨id, value, brief⟩ := m
  cases brief <;>
    simp [Member.toJson, written, Json.writtenMembers, MemberValue.written_toJson]

theorem Member.toJson_injective : Function.Injective Member.toJson := by
  have hid : ∀ m : Member, m.toJson.get? "id" = some (.str m.id) := fun _ => rfl
  have hvalue : ∀ m : Member, m.toJson.get? "value" = some m.value.toJson := fun _ => rfl
  have hbrief : ∀ m : Member, m.toJson.get? "brief" = m.brief.map Json.str := by
    rintro ⟨id, value, _ | brief⟩ <;> rfl
  intro m n h
  have h₁ : Json.str m.id = .str n.id := Option.some.inj (by rw [← hid, h, hid])
  have h₂ : m.value.toJson = n.value.toJson := Option.some.inj (by rw [← hvalue, h, hvalue])
  have h₃ : m.brief.map Json.str = n.brief.map Json.str := by rw [← hbrief, h, hbrief]
  cases m
  cases n
  cases h₁
  cases MemberValue.toJson_injective h₂
  cases Option.map_injective str_injective h₃
  rfl

theorem Primitive.name_injective : Function.Injective Primitive.name := by
  intro p q h
  have hp := Primitive.ofName?_name p
  rw [h, Primitive.ofName?_name] at hp
  exact (Option.some.inj hp).symm

theorem AttributeType.written_toJson (t : AttributeType) : t.toJson.written = t.toJson := by
  cases t with
  | primitive p => rfl
  | enumeration members =>
    rw [AttributeType.toJson, written, Json.writtenMembers, Json.writtenMembers,
      Json.written_arr_map Member.written_toJson]

theorem AttributeType.toJson_injective : Function.Injective AttributeType.toJson := by
  intro t u h
  cases t with
  | primitive p =>
    cases u with
    | primitive q => rw [Primitive.name_injective (Json.str.inj h)]
    | enumeration ms => cases h
  | enumeration ms =>
    cases u with
    | primitive q => cases h
    | enumeration ns =>
      have hget := congrArg (Json.get? "members") h
      have hmembers : ms.map Member.toJson = ns.map Member.toJson := Json.arr.inj (Option.some.inj hget)
      rw [Member.toJson_injective.list_map hmembers]

theorem Stability.name_injective : Function.Injective Stability.name := by
  intro s t h
  cases s <;> cases t <;> first | rfl | exact absurd h (by decide)

/-! ## Constraints -/

/-- What stands for a list that is left out when it is empty. -/
def listed? (items : List Json) : Option Json :=
  if items.isEmpty then none else some (.arr items)

theorem listed?_injective : Function.Injective listed? := by
  intro as bs h
  cases as <;> cases bs <;> cases h <;> rfl

theorem Constraint.written_toJson (c : Constraint) : c.toJson.written = c.toJson := by
  have hnames : ∀ (key : String) (names : List String), ∀ m ∈ namesMember key names,
      m.2.written = m.2 := by
    intro key names m hm
    unfold namesMember at hm
    split at hm
    · exact absurd hm List.not_mem_nil
    · rw [List.mem_singleton.mp hm]
      exact Json.written_arr_map (fun _ => rfl) names
  refine Json.written_obj ?_
  simp only [List.forall_mem_append]
  refine ⟨⟨hnames _ _, hnames _ _⟩, fun m hm => ?_⟩
  obtain ⟨r, -, rfl⟩ := Option.map_eq_some_iff.mp (Option.mem_toList.mp hm)
  rfl

theorem Constraint.toJson_injective : Function.Injective Constraint.toJson := by
  have hnotOn : ∀ c : Constraint, c.toJson.get? "not_on" = listed? (c.notOn.map .str) := by
    rintro ⟨_ | ⟨a, as⟩, _ | ⟨b, bs⟩, _ | r⟩ <;> rfl
  have honlyOn : ∀ c : Constraint, c.toJson.get? "only_on" = listed? (c.onlyOn.map .str) := by
    rintro ⟨_ | ⟨a, as⟩, _ | ⟨b, bs⟩, _ | r⟩ <;> rfl
  have hreason : ∀ c : Constraint, c.toJson.get? "reason" = c.reason.map .str := by
    rintro ⟨_ | ⟨a, as⟩, _ | ⟨b, bs⟩, _ | r⟩ <;> rfl
  intro c d h
  have h₁ : listed? (c.notOn.map .str) = listed? (d.notOn.map .str) := by rw [← hnotOn, h, hnotOn]
  have h₂ : listed? (c.onlyOn.map .str) = listed? (d.onlyOn.map .str) := by rw [← honlyOn, h, honlyOn]
  have h₃ : c.reason.map Json.str = d.reason.map Json.str := by rw [← hreason, h, hreason]
  cases c
  cases d
  cases str_injective.list_map (listed?_injective h₁)
  cases str_injective.list_map (listed?_injective h₂)
  cases Option.map_injective str_injective h₃
  rfl

theorem map_written_listed? (cs : List Constraint) :
    (listed? (cs.map Constraint.toJson)).map written = listed? (cs.map Constraint.toJson) := by
  unfold listed?
  split
  · rfl
  · rw [Option.map_some, Json.written_arr_map Constraint.written_toJson]

/-! ## Attributes -/

namespace Attribute

variable {a b : Attribute}

/-- Attributes with the same fields, but for examples that are written alike. -/
structure SameForm (a b : Attribute) : Prop where
  key : a.key = b.key
  type : a.type = b.type
  brief : a.brief = b.brief
  notes : a.notes = b.notes
  examples : Example.AlikeItems a.examples b.examples
  stability : a.stability = b.stability
  deprecatedBy : a.deprecatedBy = b.deprecatedBy
  constraints : a.constraints = b.constraints

theorem get?_toJson (a : Attribute) :
    a.toJson.get? "key" = some (.str a.key) ∧ a.toJson.get? "type" = some a.type.toJson ∧
      a.toJson.get? "brief" = some (.str a.brief) ∧ a.toJson.get? "notes" = a.notes.map .str ∧
      a.toJson.get? "examples" = some (.arr (Example.toJsonItems a.examples)) ∧
      a.toJson.get? "stability" = some (.str a.stability.name) ∧
      a.toJson.get? "deprecated_by" = a.deprecatedBy.map .str ∧
      a.toJson.get? "constraints" = listed? (a.constraints.map Constraint.toJson) := by
  obtain ⟨key, type, brief, _ | notes, examples, stability, _ | key', _ | ⟨c, cs⟩⟩ := a <;>
    exact ⟨rfl, rfl, rfl, rfl, rfl, rfl, rfl, rfl⟩

/-- Members that are texts are the same if they are as far as they are written. -/
theorem map_str_inj {s t : Option String}
    (h : (s.map Json.str).map written = (t.map Json.str).map written) : s = t := by
  rw [Option.map_map, Option.map_map] at h
  exact Option.map_injective str_injective h

/-- **Attributes that are the same as far as they are written have the same fields so far.** -/
theorem sameForm_of_written (h : a.toJson.written = b.toJson.written) : SameForm a b := by
  have hfield := Json.get?_congr h
  obtain ⟨hkey, htype, hbrief, hnotes, hexamples, hstability, hby, hconstraints⟩ := get?_toJson a
  obtain ⟨hkey', htype', hbrief', hnotes', hexamples', hstability', hby', hconstraints'⟩ := get?_toJson b
  constructor
  · have hf := hfield "key"
    rw [hkey, hkey'] at hf
    exact Option.some.inj (map_str_inj (s := some _) (t := some _) hf)
  · have hf := hfield "type"
    rw [htype, htype', Option.map_some, Option.map_some, AttributeType.written_toJson,
      AttributeType.written_toJson] at hf
    exact AttributeType.toJson_injective (Option.some.inj hf)
  · have hf := hfield "brief"
    rw [hbrief, hbrief'] at hf
    exact Option.some.inj (map_str_inj (s := some _) (t := some _) hf)
  · have hf := hfield "notes"
    rw [hnotes, hnotes'] at hf
    exact map_str_inj hf
  · have hf := hfield "examples"
    rw [hexamples, hexamples'] at hf
    exact (Example.writtenItems_toJsonItems_inj _ _).mp (Json.arr.inj (Option.some.inj hf))
  · have hf := hfield "stability"
    rw [hstability, hstability'] at hf
    exact Stability.name_injective (Option.some.inj (map_str_inj (s := some _) (t := some _) hf))
  · have hf := hfield "deprecated_by"
    rw [hby, hby'] at hf
    exact map_str_inj hf
  · have hf := hfield "constraints"
    rw [hconstraints, hconstraints', map_written_listed?, map_written_listed?] at hf
    exact Constraint.toJson_injective.list_map (listed?_injective hf)

theorem written_of_sameForm (h : SameForm a b) : a.toJson.written = b.toJson.written := by
  obtain ⟨key, type, brief, notes, examples, stability, deprecatedBy, constraints⟩ := a
  obtain ⟨key', type', brief', notes', examples', stability', deprecatedBy', constraints'⟩ := b
  obtain ⟨rfl, rfl, rfl, rfl, hexamples, rfl, rfl, rfl⟩ := h
  have hitems := (Example.writtenItems_toJsonItems_inj _ _).mpr hexamples
  simp only [toJson, written, Json.writtenMembers_eq_map, List.map_append, List.map_cons, hitems]

/-- **Attributes have the same canonical form exactly if their fields are the same**, but for examples
that are written alike. -/
theorem toText_eq_iff : a.toJson.toText = b.toJson.toText ↔ SameForm a b := by
  rw [Json.toText, Json.toText, String.ofList_inj, Json.compact_eq_iff]
  exact ⟨sameForm_of_written, written_of_sameForm⟩

end Attribute

end AttributeRegistry
