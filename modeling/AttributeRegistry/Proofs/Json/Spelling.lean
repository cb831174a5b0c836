import AttributeRegistry.Proofs.Json.Compact
import AttributeRegistry.Proofs.Json.Numbers

/-!
# Spellings of a value

A text spells a value if it is the value's compact form with blanks before items and members, behind
colons and before closing brackets. Both written forms are spellings (`spells_compact`,
`spells_indented`), and what is read back of every spelling is read back of either of them.
-/

namespace AttributeRegistry.Json

open Text (Numeric natText_ne_nil isDigit_of_mem_natText toList_negSucc)

/-- What stands before an item or member: a comma, unless it is the first one. -/
def comma (first : Bool) : List Char :=
  if first then [] else [',']

mutual

/-- A text spells a value. -/
inductive Spells : Json → List Char → Prop
  | null : Spells .null "null".toList
  | bool (b : Bool) : Spells (.bool b) (toString b).toList
  | int (n : Int) : Spells (.int n) (toString n).toList
  | float (x : Float) : Spells (.float x) (Decimal.writeJson x).toList
  | str (s : String) : Spells (.str s) (writeString s)
  | arr {vs : List Json} {cs : List Char} (h : SpellsItems true vs cs) : Spells (.arr vs) ('[' :: cs)
  | obj {ms : List (String × Json)} {cs : List Char} (h : SpellsMembers true ms cs) :
    Spells (.obj ms) ('\x7b' :: cs)

/-- A text spells the items of an array, up to its closing bracket. -/
inductive SpellsItems : Bool → List Json → List Char → Prop
  | nil {first : Bool} {gap : List Char} (hgap : Gap gap) : SpellsItems first [] (gap ++ [']'])
  | cons {first : Bool} {v : Json} {vs : List Json} {gap cs text : List Char} (hgap : Gap gap)
      (h : Spells v cs) (more : SpellsItems false vs text) :
      SpellsItems first (v :: vs) (comma first ++ (gap ++ (cs ++ text)))

/-- A text spells the members of an object, up to its closing bracket. -/
inductive SpellsMembers : Bool → List (String × Json) → List Char → Prop
  | nil {first : Bool} {gap : List Char} (hgap : Gap gap) : SpellsMembers first [] (gap ++ ['\x7d'])
  | cons {first : Bool} {key : String} {v : Json} {ms : List (String × Json)}
      {gap gap' cs text : List Char} (hgap : Gap gap) (hgap' : Gap gap') (h : Spells v cs)
      (more : SpellsMembers false ms text) :
      SpellsMembers first ((key, v) :: ms)
        (comma first ++ (gap ++ (writeString key ++ ':' :: (gap' ++ (cs ++ text)))))

end

/-! ## How a spelling begins and goes on -/

/-- A text begins with a value: neither with a blank nor with what ends an array. -/
def Begins (cs : List Char) : Prop :=
  ∃ c tail, cs = c :: tail ∧ isGap c = false ∧ c ≠ ']'

theorem begins_of_numeric {cs : List Char} (h : Numeric cs) (hne : cs ≠ []) : Begins cs := by
  obtain ⟨c, tail, rfl⟩ := List.exists_cons_of_ne_nil hne
  refine ⟨c, tail, rfl, ?_, ?_⟩
  · rw [Bool.eq_false_iff]
    intro hgap
    simp only [isGap, Bool.or_eq_true, decide_eq_true_eq] at hgap
    rcases h c List.mem_cons_self with hc | hc
    all_goals rcases hgap with ((rfl | rfl) | rfl) | rfl <;> exact absurd hc (by decide)
  · rintro rfl
    exact (h ']' List.mem_cons_self).elim (by decide) (by decide)

theorem Spells.begins {v : Json} {cs : List Char} (h : Spells v cs) : Begins cs := by
  cases h with
  | null => exact ⟨'n', _, rfl, by decide, by decide⟩
  | bool b =>
    cases b
    · exact ⟨'f', _, rfl, by decide, by decide⟩
    · exact ⟨'t', _, rfl, by decide, by decide⟩
  | int n => exact begins_of_numeric (Text.numeric_intText n) (Text.intText_ne_nil n)
  | float x =>
    by_cases hnumber : (Decimal.decode x).2.isNumber = true
    · obtain ⟨hnumeric, c, hc, -⟩ := numeric_writeJson hnumber
      exact begins_of_numeric hnumeric (List.ne_nil_of_mem hc)
    · rw [Decimal.writeJson_eq_null (Bool.eq_false_iff.mpr hnumber)]
      exact ⟨'n', _, rfl, by decide, by decide⟩
  | str s => exact ⟨'"', _, rfl, by decide, by decide⟩
  | arr h => exact ⟨'[', _, rfl, by decide, by decide⟩
  | obj h => exact ⟨'\x7b', _, rfl, by decide, by decide⟩

theorem Spells.exists_obj {ms : List (String × Json)} {cs : List Char} (h : Spells (.obj ms) cs) :
    ∃ inner, cs = '\x7b' :: inner := by
  cases h with
  | obj h => exact ⟨_, rfl⟩

theorem ends_of_gap {gap cs : List Char} (hgap : Gap gap) (h : Ends cs) : Ends (gap ++ cs) := by
  cases gap with
  | nil => exact h
  | cons c gap =>
    have hc := hgap c List.mem_cons_self
    simp only [isGap, Bool.or_eq_true, decide_eq_true_eq] at hc
    rw [List.cons_append, ends_cons]
    rcases hc with ((rfl | rfl) | rfl) | rfl <;> decide

theorem SpellsItems.ends {vs : List Json} {text : List Char} (h : SpellsItems false vs text)
    (rest : List Char) : Ends (text ++ rest) := by
  cases h with
  | nil hgap =>
    rw [List.append_assoc]
    exact ends_of_gap hgap (ends_cons.mpr (by decide))
  | cons hgap h more => exact ends_cons.mpr (by decide)

theorem SpellsMembers.ends {ms : List (String × Json)} {text : List Char}
    (h : SpellsMembers false ms text) (rest : List Char) : Ends (text ++ rest) := by
  cases h with
  | nil hgap =>
    rw [List.append_assoc]
    exact ends_of_gap hgap (ends_cons.mpr (by decide))
  | cons hgap hgap' h more => exact ends_cons.mpr (by decide)

/-! ## The compact form -/

mutual

/-- **The compact form spells a value.** -/
theorem spells_compact : ∀ v : Json, Spells v v.compact
  | .null => .null
  | .bool b => .bool b
  | .int n => .int n
  | .float x => .float x
  | .str s => .str s
  | .arr [] => .arr (.nil gap_nil)
  | .arr (v :: vs) => by
    have hitems : SpellsItems true (v :: vs) (v.compact ++ itemsRest vs []) :=
      .cons gap_nil (spells_compact v) (spellsItems_itemsRest vs)
    rw [compact, List.cons_append, compactItems_append]
    exact .arr hitems
  | .obj [] => .obj (.nil gap_nil)
  | .obj ((k, v) :: ms) => by
    have hmembers : SpellsMembers true ((k, v) :: ms)
        (writeString k ++ ':' :: (v.compact ++ membersRest ms [])) :=
      .cons gap_nil gap_nil (spells_compact v) (spellsMembers_membersRest ms)
    rw [compact, List.cons_append, compactMembers_append]
    exact .obj hmembers

theorem spellsItems_itemsRest : ∀ vs : List Json, SpellsItems false vs (itemsRest vs [])
  | [] => .nil gap_nil
  | v :: vs => by
    rw [itemsRest, List.cons_append, compactItems_append]
    exact .cons gap_nil (spells_compact v) (spellsItems_itemsRest vs)

theorem spellsMembers_membersRest : ∀ ms : List (String × Json),
    SpellsMembers false ms (membersRest ms [])
  | [] => .nil gap_nil
  | (k, v) :: ms => by
    rw [membersRest, List.cons_append, compactMembers_append]
    exact .cons gap_nil gap_nil (spells_compact v) (spellsMembers_membersRest ms)

end

/-! ## The indented form -/

theorem gap_newLine (depth : Nat) : Gap (newLine depth) := by
  intro c hc
  rcases List.mem_cons.mp hc with rfl | hc
  · decide
  · rw [List.eq_of_mem_replicate hc]
    decide

theorem gap_space : Gap [' '] := by
  simp [Gap, isGap]

theorem indentedItems_cons (depth : Nat) (v : Json) (vs : List Json) :
    indentedItems depth (v :: vs) = newLine depth ++ (indented depth v
      ++ vs.flatMap fun v => ',' :: (newLine depth ++ indented depth v)) := by
  induction vs generalizing v with
  | nil => rw [indentedItems, List.flatMap_nil, List.append_nil]
  | cons w vs ih =>
    rw [indentedItems, ih, List.flatMap_cons]
    · simp only [List.append_assoc, List.cons_append]
    · simp

/-- The text of a member on a line of its own. -/
def memberText (depth : Nat) (m : String × Json) : List Char :=
  newLine depth ++ (writeString m.1 ++ ':' :: ' ' :: indented depth m.2)

theorem indentedMembers_cons (depth : Nat) (m : String × Json) (ms : List (String × Json)) :
    indentedMembers depth (m :: ms) =
      memberText depth m ++ ms.flatMap fun m => ',' :: memberText depth m := by
  induction ms generalizing m with
  | nil =>
    rw [indentedMembers, List.flatMap_nil, List.append_nil, memberText, List.append_assoc]
  | cons m' ms ih =>
    rw [indentedMembers, ih, List.flatMap_cons]
    · simp only [memberText, List.append_assoc, List.cons_append]
    · simp

mutual

/-- **The indented form spells a value.** -/
theorem spells_indented (depth : Nat) : ∀ v : Json, Spells v (v.indented depth)
  | .null => .null
  | .bool b => .bool b
  | .int n => .int n
  | .float x => .float x
  | .str s => .str s
  | .arr [] => .arr (.nil gap_nil)
  | .arr (v :: vs) => by
    have hitems : SpellsItems true (v :: vs) (newLine (depth + 1) ++ (indented (depth + 1) v
        ++ (vs.flatMap (fun v => ',' :: (newLine (depth + 1) ++ indented (depth + 1) v))
          ++ (newLine depth ++ [']'])))) :=
      .cons (gap_newLine _) (spells_indented _ v) (spellsItems_flatMap _ (gap_newLine depth) vs)
    rw [indented, indentedItems_cons]
    · simp only [List.append_assoc, List.cons_append]
      exact .arr hitems
    · simp
  | .obj [] => .obj (.nil gap_nil)
  | .obj ((k, v) :: ms) => by
    have hmembers : SpellsMembers true ((k, v) :: ms)
        (newLine (depth + 1) ++ (writeString k ++ ':' :: ([' '] ++ (indented (depth + 1) v
          ++ (ms.flatMap (fun m => ',' :: memberText (depth + 1) m) ++ (newLine depth ++ ['\x7d'])))))) :=
      .cons (gap_newLine _) gap_space (spells_indented _ v)
        (spellsMembers_flatMap _ (gap_newLine depth) ms)
    rw [indented, indentedMembers_cons, memberText]
    · simp only [List.append_assoc, List.cons_append]
      exact .obj hmembers
    · simp

theorem spellsItems_flatMap (depth : Nat) {gap : List Char} (hgap : Gap gap) : ∀ vs : List Json,
    SpellsItems false vs (vs.flatMap (fun v => ',' :: (newLine depth ++ indented depth v))
      ++ (gap ++ [']']))
  | [] => .nil hgap
  | v :: vs => by
    rw [List.flatMap_cons]
    simp only [List.append_assoc, List.cons_append]
    exact .cons (gap_newLine depth) (spells_indented depth v) (spellsItems_flatMap depth hgap vs)

theorem spellsMembers_flatMap (depth : Nat) {gap : List Char} (hgap : Gap gap) :
    ∀ ms : List (String × Json),
      SpellsMembers false ms (ms.flatMap (fun m => ',' :: memberText depth m) ++ (gap ++ ['\x7d']))
  | [] => .nil hgap
  | (k, v) :: ms => by
    rw [List.flatMap_cons, memberText]
    simp only [List.append_assoc, List.cons_append]
    exact .cons (gap_newLine depth) gap_space (spells_indented depth v)
      (spellsMembers_flatMap depth hgap ms)

end

end AttributeRegistry.Json
