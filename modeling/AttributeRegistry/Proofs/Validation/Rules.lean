import AttributeRegistry.Proofs.Text.Lines
import AttributeRegistry.Proofs.Validation.Accepted

/-!
# The rules of a definition

What is asked of an attribute by itself, said without the checks: the grammar of its key, the form of
its examples, the members of an enumeration, and the signals its constraints leave. `Attribute.Tidy`
is what is advised beyond that.

Main statements: the findings of an attribute hold no error iff it follows the rules
(`ownFindings_noErrors_iff`), and there are none iff it is tidy too (`ownFindings_eq_nil_iff`).
-/

namespace AttributeRegistry

/-! ## Rules -/

/-- A lower-case ASCII letter followed by lower-case ASCII letters, digits and underscores. -/
def Key.Segment (segment : List Char) : Prop :=
  ∃ c cs, segment = c :: cs ∧ ('a' ≤ c ∧ c ≤ 'z') ∧
    ∀ d ∈ cs, ('a' ≤ d ∧ d ≤ 'z') ∨ ('0' ≤ d ∧ d ≤ '9') ∨ d = '_'

/-- Two segments or more, joined by periods. -/
def Key.WellFormed (key : List Char) : Prop :=
  ∃ segments : List (List Char), 2 ≤ segments.length ∧ (∀ s ∈ segments, Key.Segment s) ∧
    key = Text.joinWith ['.'] segments

/-- The scalar literals of a kind. -/
inductive Scalar.Fits : Scalar → Example → Prop
  | string (s : String) : Fits .string (.text s)
  | int (n : Int) : Fits .int (.int n)
  | double (x : Float) : Fits .double (.double x)
  | wholeDouble (n : Int) : Fits .double (.int n)
  | boolean (b : Bool) : Fits .boolean (.bool b)

/-- The literals of a type: scalars of the same kind, flat arrays of them, or values of a member. -/
inductive AttributeType.Fits : AttributeType → Example → Prop
  | scalar {kind : Scalar} {e : Example} (h : kind.Fits e) :
    Fits (.primitive (.scalar kind)) e
  | array {kind : Scalar} {items : List Example} (h : ∀ e ∈ items, kind.Fits e) :
    Fits (.primitive (.array kind)) (.list items)
  | intMember {members : List Member} {m : Member} {n : Int} (hm : m ∈ members)
    (hv : m.value = .int n) : Fits (.enumeration members) (.int n)
  | textMember {members : List Member} {m : Member} {s : String} (hm : m ∈ members)
    (hv : m.value = .text s) : Fits (.enumeration members) (.text s)

/-- An enumeration has members, with values of one kind and identifiers of their own. -/
def AttributeType.WellFormed : AttributeType → Prop
  | .primitive _ => True
  | .enumeration members =>
    members ≠ [] ∧
    ((∀ m ∈ members, ∃ n, m.value = .int n) ∨ (∀ m ∈ members, ∃ s, m.value = .text s)) ∧
    (members.map Member.id).Nodup

/-- A constraint permits a signal that it does not forbid, if it restricts to that signal or to none. -/
def Constraint.Permits (c : Constraint) (s : Signal) : Prop :=
  (∀ name ∈ c.notOn, Signal.parse name ≠ some s) ∧
    (c.onlyOn = [] ∨ ∃ name ∈ c.onlyOn, Signal.parse name = some s)

/-- A constraint restricts something, and lists no signal twice. -/
def Constraint.Tidy (c : Constraint) : Prop :=
  (c.notOn ≠ [] ∨ c.onlyOn ≠ []) ∧
    (c.notOn.filterMap Signal.parse).Nodup ∧ (c.onlyOn.filterMap Signal.parse).Nodup

namespace Attribute

/-- What is asked of an attribute by itself. -/
structure WellFormed (a : Attribute) : Prop where
  key : Key.WellFormed a.key.toList
  type : a.type.WellFormed
  hasExamples : a.examples ≠ []
  examples : ∀ e ∈ a.examples, a.type.Fits e
  signals : ∀ c ∈ a.constraints, ∀ name ∈ c.signalNames, ∃ s, Signal.parse name = some s
  satisfiable : ∃ s, ∀ c ∈ a.constraints, c.Permits s

/-- What is advised beyond that: the brief says something, and so does each constraint. -/
structure Tidy (a : Attribute) : Prop where
  brief : ∃ c ∈ a.brief.toList, Text.isBlank c = false
  constraints : ∀ c ∈ a.constraints, c.Tidy

end Attribute

/-! ## Keys -/

theorem Key.isLower_iff {c : Char} : c.isLower = true ↔ 'a' ≤ c ∧ c ≤ 'z' := by
  show (decide (c.val ≥ 'a'.val) && decide (c.val ≤ 'z'.val)) = true ↔ _
  rw [Bool.and_eq_true, decide_eq_true_eq, decide_eq_true_eq]
  rfl

theorem Key.isSegmentChar_iff {c : Char} :
    Key.isSegmentChar c = true ↔ ('a' ≤ c ∧ c ≤ 'z') ∨ ('0' ≤ c ∧ c ≤ '9') ∨ c = '_' := by
  have hdigit : c.isDigit = true ↔ '0' ≤ c ∧ c ≤ '9' := by
    rw [Char.isDigit, Bool.and_eq_true, decide_eq_true_eq, decide_eq_true_eq]
    rfl
  rw [Key.isSegmentChar, Bool.or_eq_true, Bool.or_eq_true, or_assoc, Key.isLower_iff, hdigit,
    decide_eq_true_eq]

theorem Key.isSegment_iff {segment : List Char} :
    Key.isSegment segment = true ↔ Key.Segment segment := by
  cases segment with
  | nil => simp [Key.isSegment, Key.Segment]
  | cons c cs =>
    rw [Key.isSegment, Bool.and_eq_true, List.all_eq_true, Key.Segment, Key.isLower_iff]
    simp only [Key.isSegmentChar_iff]
    constructor
    · rintro ⟨hc, hcs⟩
      exact ⟨c, cs, rfl, hc, hcs⟩
    · rintro ⟨d, ds, heq, hd, hds⟩
      cases heq
      exact ⟨hd, hds⟩

theorem Key.Segment.not_mem_period {segment : List Char} (h : Key.Segment segment) :
    '.' ∉ segment := by
  obtain ⟨c, cs, rfl, hc, hcs⟩ := h
  intro hmem
  rcases List.mem_cons.mp hmem with rfl | hmem
  · exact absurd hc (by decide)
  · exact absurd (hcs '.' hmem) (by decide)

/-- **The check of a key decides the grammar.** -/
theorem Key.isValid_iff {key : List Char} : Key.isValid key = true ↔ Key.WellFormed key := by
  rw [Key.isValid, Bool.and_eq_true, decide_eq_true_eq, List.all_eq_true]
  simp only [Key.isSegment_iff]
  constructor
  · rintro ⟨hlength, hsegments⟩
    exact ⟨_, hlength, hsegments, (Text.joinWith_splitOn '.' key).symm⟩
  · rintro ⟨segments, hlength, hsegments, rfl⟩
    have hne : segments ≠ [] := by
      rintro rfl
      exact absurd hlength (by decide)
    rw [Text.splitOn_joinWith hne fun s hs => (hsegments s hs).not_mem_period]
    exact ⟨hlength, hsegments⟩

/-! ## Literals -/

theorem Scalar.accepts_iff {kind : Scalar} {e : Example} :
    kind.accepts e = true ↔ kind.Fits e := by
  constructor
  · intro h
    cases kind <;> cases e <;> first
      | constructor
      | exact absurd h (by simp [Scalar.accepts])
  · rintro (_ | _ | _ | _ | _) <;> rfl

theorem MemberValue.matches_iff {v : MemberValue} {e : Example} :
    v.matches e = true ↔
      (∃ n, v = .int n ∧ e = .int n) ∨ ∃ s, v = .text s ∧ e = .text s := by
  constructor
  · intro h
    cases v with
    | int n =>
      cases e with
      | int k => exact .inl ⟨n, rfl, by rw [LawfulBEq.eq_of_beq h]⟩
      | _ => exact absurd h (by simp [MemberValue.matches])
    | text s =>
      cases e with
      | text t => exact .inr ⟨s, rfl, by rw [LawfulBEq.eq_of_beq h]⟩
      | _ => exact absurd h (by simp [MemberValue.matches])
  · rintro (⟨n, rfl, rfl⟩ | ⟨s, rfl, rfl⟩)
    · exact beq_self_eq_true n
    · exact beq_self_eq_true s

/-- **A literal is accepted iff it is one of the type.** -/
theorem AttributeType.accepts_iff {type : AttributeType} {e : Example} :
    type.accepts e = true ↔ type.Fits e := by
  constructor
  · intro h
    match type, e with
    | .primitive (.scalar kind), e => exact .scalar (Scalar.accepts_iff.mp h)
    | .primitive (.array kind), .list items =>
      refine .array fun e he => Scalar.accepts_iff.mp ?_
      exact List.all_eq_true.mp h e he
    | .enumeration members, e =>
      obtain ⟨m, hm, hmatch⟩ := List.any_eq_true.mp h
      rcases MemberValue.matches_iff.mp hmatch with ⟨n, hv, rfl⟩ | ⟨s, hv, rfl⟩
      · exact .intMember hm hv
      · exact .textMember hm hv
  · rintro (h | h | ⟨hm, hv⟩ | ⟨hm, hv⟩)
    · exact Scalar.accepts_iff.mpr h
    · exact List.all_eq_true.mpr fun e he => Scalar.accepts_iff.mpr (h e he)
    · exact List.any_eq_true.mpr ⟨_, hm, MemberValue.matches_iff.mpr (.inl ⟨_, hv, rfl⟩)⟩
    · exact List.any_eq_true.mpr ⟨_, hm, MemberValue.matches_iff.mpr (.inr ⟨_, hv, rfl⟩)⟩

/-! ## Repetitions -/

/-- What `f` makes of a list has no repetition iff no element is sent where an earlier one is. -/
theorem nodup_filterMap_iff {α β : Type} {f : α → Option β} {as : List α} :
    (as.filterMap f).Nodup ↔
      ∀ i a b, as[i]? = some a → f a = some b → ∀ c ∈ as.take i, f c ≠ some b := by
  rw [List.nodup_iff_pairwise_ne, List.pairwise_filterMap, List.pairwise_iff_getElem]
  constructor
  · intro h i a b ha hb c hc heq
    obtain ⟨j, hj, rfl⟩ := List.mem_take_iff_getElem.mp hc
    obtain ⟨hi, rfl⟩ := List.getElem?_eq_some_iff.mp ha
    exact h j i (by omega) hi (by omega) b heq b hb rfl
  · intro h i j hi hj hij b hb d hd hbd
    -- the later of two equal elements is the one with an earlier equal
    refine h j _ d (List.getElem?_eq_getElem hj) hd as[i] ?_ (by rw [hb, hbd])
    exact List.mem_take_iff_getElem.mpr ⟨i, by omega, rfl⟩

namespace Attribute

theorem repeated_eq_nil_iff {names : List String} : repeated names = [] ↔ names.Nodup := by
  have h : (names.filterMap some).Nodup ↔ _ := nodup_filterMap_iff
  rw [List.filterMap_some] at h
  rw [h, repeated, List.map_eq_nil_iff, List.filter_eq_nil_iff]
  constructor
  · intro h i a b ha hb c hc heq
    have hno := h (a, i) (List.mk_mem_zipIdx_iff_getElem?.mpr ha)
    cases hb
    cases heq
    exact hno (List.contains_iff_mem.mpr hc)
  · rintro h ⟨a, i⟩ hmem hcontains
    have ha := List.mk_mem_zipIdx_iff_getElem?.mp hmem
    exact h i a a ha rfl a (List.contains_iff_mem.mp hcontains) rfl

/-! ## Findings -/

variable {a : Attribute}

theorem keyFindings_eq_nil_iff : a.keyFindings = [] ↔ Key.WellFormed a.key.toList := by
  rw [keyFindings, ← Key.isValid_iff]
  split
  · next h => simp [h]
  · next h => simp [h]

theorem isError_of_mem_keyFindings {f : Finding} (h : f ∈ a.keyFindings) : f.isError = true := by
  unfold keyFindings at h
  split at h
  · simp at h
  · exact Report.isError_of_mem_singleton h rfl

theorem noErrors_briefFindings (a : Attribute) : Report.NoErrors a.briefFindings := by
  intro f hf
  unfold briefFindings at hf
  split at hf
  · exact Report.isError_of_mem_singleton hf rfl
  · simp at hf

theorem briefFindings_eq_nil_iff :
    a.briefFindings = [] ↔ ∃ c ∈ a.brief.toList, Text.isBlank c = false := by
  rw [briefFindings, Text.isBlankText, Text.allBlank]
  split
  · next h => simpa using h
  · next h => simpa using h

theorem homogeneous_iff {members : List Member} :
    AttributeType.homogeneous members = true ↔
      (∀ m ∈ members, ∃ n, m.value = .int n) ∨ (∀ m ∈ members, ∃ s, m.value = .text s) := by
  have hint : ∀ m : Member, m.value.isInt = true ↔ ∃ n, m.value = .int n := by
    intro m
    cases m.value <;> simp [MemberValue.isInt]
  have htext : ∀ m : Member, ¬ m.value.isInt = true ↔ ∃ s, m.value = .text s := by
    intro m
    cases m.value <;> simp [MemberValue.isInt]
  rw [AttributeType.homogeneous, Bool.or_eq_true, decide_eq_true_eq, decide_eq_true_eq,
    ← List.countP_eq_length_filter, List.countP_eq_zero, List.countP_eq_length, or_comm]
  exact or_congr (forall₂_congr fun m _ => hint m) (forall₂_congr fun m _ => htext m)

theorem enumFindings_eq_nil_iff : a.enumFindings = [] ↔ a.type.WellFormed := by
  unfold enumFindings
  cases a.type with
  | primitive p => simp [AttributeType.WellFormed]
  | enumeration members =>
    rw [AttributeType.WellFormed]
    rw [List.append_eq_nil_iff, List.map_eq_nil_iff, repeated_eq_nil_iff, ← homogeneous_iff,
      ← and_assoc]
    refine and_congr_left fun _ => ?_
    by_cases hempty : members = []
    · simp [hempty]
    · by_cases hhom : AttributeType.homogeneous members = true
      · simp [hempty, hhom]
      · simp [hempty, hhom]

theorem isError_of_mem_enumFindings {f : Finding} (h : f ∈ a.enumFindings) : f.isError = true := by
  unfold enumFindings at h
  split at h
  · simp at h
  · rcases List.mem_append.mp h with h | h
    · split at h
      · exact Report.isError_of_mem_singleton h rfl
      · split at h
        · exact Report.isError_of_mem_singleton h rfl
        · simp at h
    · obtain ⟨id, -, rfl⟩ := List.mem_map.mp h
      rfl

theorem exampleFindings_eq_nil_iff :
    a.exampleFindings = [] ↔ a.examples ≠ [] ∧ ∀ e ∈ a.examples, a.type.Fits e := by
  unfold exampleFindings
  by_cases hempty : a.examples = []
  · simp [hempty]
  · rw [if_neg (by simpa using hempty), List.filterMap_eq_nil_iff]
    constructor
    · intro h
      refine ⟨hempty, fun e he => AttributeType.accepts_iff.mp ?_⟩
      obtain ⟨i, hi, rfl⟩ := List.getElem_of_mem he
      have hnone := h (a.examples[i], i)
        (List.mk_mem_zipIdx_iff_getElem?.mpr (List.getElem?_eq_getElem hi))
      by_cases hok : a.type.accepts a.examples[i] = true
      · exact hok
      · simp [hok] at hnone
    · rintro ⟨-, h⟩ ⟨e, i⟩ hmem
      have he := List.fst_mem_of_mem_zipIdx hmem
      exact if_pos (AttributeType.accepts_iff.mpr (h e he))

theorem isError_of_mem_exampleFindings {f : Finding} (h : f ∈ a.exampleFindings) :
    f.isError = true := by
  unfold exampleFindings at h
  split at h
  · exact Report.isError_of_mem_singleton h rfl
  · obtain ⟨⟨e, i⟩, -, hf⟩ := List.mem_filterMap.mp h
    dsimp only at hf
    split at hf
    · simp at hf
    · cases hf
      rfl

/-! ## Signals -/

theorem mentions_iff {names : List String} {s : Signal} :
    Constraint.mentions names s = true ↔ ∃ name ∈ names, Signal.parse name = some s := by
  rw [Constraint.mentions, List.any_eq_true]
  simp only [beq_iff_eq]

theorem allows_iff {s : Signal} : a.allows s = true ↔ ∀ c ∈ a.constraints, c.Permits s := by
  rw [allows, List.all_eq_true]
  refine forall₂_congr fun c _ => ?_
  rw [Constraint.allows, Bool.and_eq_true, Bool.or_eq_true, mentions_iff, List.isEmpty_iff,
    Bool.not_eq_true', Bool.eq_false_iff, Ne, mentions_iff]
  simp [Constraint.Permits]

/-- Some signal is left iff the constraints permit one. -/
theorem allowedSignals_isEmpty_iff :
    a.allowedSignals.isEmpty = false ↔ ∃ s, ∀ c ∈ a.constraints, c.Permits s := by
  rw [Bool.eq_false_iff, Ne, List.isEmpty_iff, allowedSignals, List.filter_eq_nil_iff]
  simp only [allows_iff]
  constructor
  · intro h
    by_cases hex : ∃ s, ∀ c ∈ a.constraints, c.Permits s
    · exact hex
    · exact absurd (fun s _ hs => hex ⟨s, hs⟩) h
  · rintro ⟨s, hs⟩ hno
    exact hno s s.mem_all hs

theorem signalFinding?_of_unknown (a : Attribute) (names : List String) {name : String} (i : Nat)
    (h : Signal.parse name = none) :
    ∃ f, a.signalFinding? names name i = some f ∧ f.isError = true := by
  rw [signalFinding?, h]
  exact ⟨_, rfl, rfl⟩

theorem signalFinding?_of_known {names : List String} {name : String} {i : Nat} {s : Signal}
    (h : Signal.parse name = some s) :
    (a.signalFinding? names name i = none ↔ ∀ n ∈ names.take i, Signal.parse n ≠ some s) ∧
      ∀ f, a.signalFinding? names name i = some f → f.isError = false := by
  rw [signalFinding?, h]
  by_cases hm : Constraint.mentions (names.take i) s = true
  · obtain ⟨n, hn, hs⟩ := mentions_iff.mp hm
    dsimp only
    rw [if_pos hm]
    refine ⟨⟨nofun, fun hno => absurd hs (hno n hn)⟩, ?_⟩
    intro f hf
    cases hf
    rfl
  · dsimp only
    rw [if_neg hm]
    refine ⟨⟨fun _ n hn hs => hm (mentions_iff.mpr ⟨n, hn, hs⟩), fun _ => rfl⟩, nofun⟩

/-- A list of signals gives no error iff it names signals only. -/
theorem noErrors_signalFindings {names : List String} :
    Report.NoErrors (a.signalFindings names) ↔ ∀ n ∈ names, ∃ s, Signal.parse n = some s := by
  constructor
  · intro h n hn
    obtain ⟨i, hi, rfl⟩ := List.getElem_of_mem hn
    cases hs : Signal.parse names[i] with
    | some s => exact ⟨s, rfl⟩
    | none =>
      obtain ⟨f, hf, herror⟩ := signalFinding?_of_unknown a names i hs
      have hmem : f ∈ a.signalFindings names := by
        refine List.mem_filterMap.mpr ⟨(names[i], i), ?_, hf⟩
        exact List.mk_mem_zipIdx_iff_getElem?.mpr (List.getElem?_eq_getElem hi)
      rw [h f hmem] at herror
      exact absurd herror (by decide)
  · intro h f hf
    obtain ⟨⟨n, i⟩, hmem, hf⟩ := List.mem_filterMap.mp hf
    obtain ⟨s, hs⟩ := h n (List.fst_mem_of_mem_zipIdx hmem)
    exact (signalFinding?_of_known hs).2 f hf

/-- A list of signals gives no finding iff it names signals only, none of them twice. -/
theorem signalFindings_eq_nil_iff {names : List String} :
    a.signalFindings names = [] ↔
      (∀ n ∈ names, ∃ s, Signal.parse n = some s) ∧ (names.filterMap Signal.parse).Nodup := by
  rw [nodup_filterMap_iff]
  constructor
  · intro h
    have hknown : ∀ n ∈ names, ∃ s, Signal.parse n = some s := by
      rw [← noErrors_signalFindings (a := a), h]
      exact Report.noErrors_nil
    refine ⟨hknown, ?_⟩
    intro i n s hn hs
    have hnone := List.filterMap_eq_nil_iff.mp h (n, i) (List.mk_mem_zipIdx_iff_getElem?.mpr hn)
    exact (signalFinding?_of_known hs).1.mp hnone
  · rintro ⟨hknown, hnodup⟩
    refine List.filterMap_eq_nil_iff.mpr ?_
    rintro ⟨n, i⟩ hmem
    obtain ⟨s, hs⟩ := hknown n (List.fst_mem_of_mem_zipIdx hmem)
    refine (signalFinding?_of_known hs).1.mpr ?_
    exact hnodup i n s (List.mk_mem_zipIdx_iff_getElem?.mp hmem) hs

theorem noErrors_constraintFindings {c : Constraint} :
    Report.NoErrors (a.constraintFindings c) ↔
      ∀ name ∈ c.signalNames, ∃ s, Signal.parse name = some s := by
  have hredundant : Report.NoErrors (if c.notOn.isEmpty && c.onlyOn.isEmpty then
      [a.finding .redundantConstraint "constraint restricts no signal kind"] else []) := by
    intro f hf
    split at hf
    · exact Report.isError_of_mem_singleton hf rfl
    · simp at hf
  rw [constraintFindings, Report.noErrors_append, Report.noErrors_append, noErrors_signalFindings,
    noErrors_signalFindings, Constraint.signalNames, List.forall_mem_append]
  constructor
  · rintro ⟨⟨-, hnot⟩, honly⟩
    exact ⟨hnot, honly⟩
  · rintro ⟨hnot, honly⟩
    exact ⟨⟨hredundant, hnot⟩, honly⟩

theorem constraintFindings_eq_nil_iff {c : Constraint} :
    a.constraintFindings c = [] ↔
      (∀ name ∈ c.signalNames, ∃ s, Signal.parse name = some s) ∧ c.Tidy := by
  have hredundant : (if c.notOn.isEmpty && c.onlyOn.isEmpty then
      [a.finding .redundantConstraint "constraint restricts no signal kind"] else []) = [] ↔
        (c.notOn ≠ [] ∨ c.onlyOn ≠ []) := by
    by_cases hn : c.notOn = []
    · by_cases ho : c.onlyOn = []
      · simp [hn, ho]
      · simp [hn, ho]
    · simp [hn]
  rw [constraintFindings, List.append_eq_nil_iff, List.append_eq_nil_iff, hredundant,
    signalFindings_eq_nil_iff, signalFindings_eq_nil_iff, Constraint.signalNames,
    List.forall_mem_append, Constraint.Tidy]
  constructor
  · rintro ⟨⟨hne, hknown, hnodup⟩, hknown', hnodup'⟩
    exact ⟨⟨hknown, hknown'⟩, hne, hnodup, hnodup'⟩
  · rintro ⟨⟨hknown, hknown'⟩, hne, hnodup, hnodup'⟩
    exact ⟨⟨hne, hknown, hnodup⟩, hknown', hnodup'⟩

theorem knowsSignals_iff :
    a.knowsSignals = true ↔
      ∀ c ∈ a.constraints, ∀ name ∈ c.signalNames, ∃ s, Signal.parse name = some s := by
  rw [knowsSignals, List.all_eq_true]
  simp only [List.all_eq_true, Option.isSome_iff_exists]

/-- What is found about the constraints together, if they name signals only. -/
theorem unsatisfiable_eq_nil_iff (hknown : a.knowsSignals = true) :
    (if a.knowsSignals && !a.constraints.isEmpty && a.allowedSignals.isEmpty then
      [a.finding .unsatisfiableConstraint "constraints exclude every signal kind"] else []) = [] ↔
        ∃ s, ∀ c ∈ a.constraints, c.Permits s := by
  rw [← allowedSignals_isEmpty_iff]
  by_cases hempty : a.constraints = []
  · have hall : a.allowedSignals.isEmpty = false := by
      rw [allowedSignals_isEmpty_iff, hempty]
      exact ⟨.trace, by simp⟩
    simp [hempty, hall]
  · cases hall : a.allowedSignals.isEmpty with
    | true => simp [hknown, hempty]
    | false => simp

theorem isError_of_mem_unsatisfiable {f : Finding}
    (h : f ∈ if a.knowsSignals && !a.constraints.isEmpty && a.allowedSignals.isEmpty then
      [a.finding .unsatisfiableConstraint "constraints exclude every signal kind"] else []) :
    f.isError = true := by
  split at h
  · exact Report.isError_of_mem_singleton h rfl
  · simp at h

theorem noErrors_constraintsFindings :
    Report.NoErrors a.constraintsFindings ↔
      (∀ c ∈ a.constraints, ∀ name ∈ c.signalNames, ∃ s, Signal.parse name = some s) ∧
        ∃ s, ∀ c ∈ a.constraints, c.Permits s := by
  rw [constraintsFindings, Report.noErrors_append, Report.noErrors_flatMap,
    Report.noErrors_iff_eq_nil fun f hf => isError_of_mem_unsatisfiable hf]
  simp only [noErrors_constraintFindings]
  -- whether a signal is left is only asked if all names are known
  refine and_congr_right fun hknown => ?_
  exact unsatisfiable_eq_nil_iff (knowsSignals_iff.mpr hknown)

theorem constraintsFindings_eq_nil_iff :
    a.constraintsFindings = [] ↔
      ((∀ c ∈ a.constraints, ∀ name ∈ c.signalNames, ∃ s, Signal.parse name = some s) ∧
        ∃ s, ∀ c ∈ a.constraints, c.Permits s) ∧ ∀ c ∈ a.constraints, c.Tidy := by
  rw [constraintsFindings, List.append_eq_nil_iff, List.flatMap_eq_nil_iff]
  simp only [constraintFindings_eq_nil_iff]
  constructor
  · rintro ⟨hown, hsat⟩
    have hknown := knowsSignals_iff.mpr fun c hc => (hown c hc).1
    exact ⟨⟨fun c hc => (hown c hc).1, (unsatisfiable_eq_nil_iff hknown).mp hsat⟩,
      fun c hc => (hown c hc).2⟩
  · rintro ⟨⟨hown, hsat⟩, htidy⟩
    have hknown := knowsSignals_iff.mpr hown
    exact ⟨fun c hc => ⟨hown c hc, htidy c hc⟩, (unsatisfiable_eq_nil_iff hknown).mpr hsat⟩

/-! ## One attribute -/

/-- **The findings of an attribute hold no error iff it follows the rules.** -/
theorem noErrors_ownFindings : Report.NoErrors a.ownFindings ↔ a.WellFormed := by
  rw [ownFindings, Report.noErrors_append, Report.noErrors_append, Report.noErrors_append,
    Report.noErrors_append, noErrors_constraintsFindings,
    Report.noErrors_iff_eq_nil fun f hf => isError_of_mem_keyFindings hf,
    Report.noErrors_iff_eq_nil fun f hf => isError_of_mem_enumFindings hf,
    Report.noErrors_iff_eq_nil fun f hf => isError_of_mem_exampleFindings hf,
    keyFindings_eq_nil_iff, enumFindings_eq_nil_iff, exampleFindings_eq_nil_iff]
  constructor
  · rintro ⟨⟨⟨⟨hkey, -⟩, htype⟩, hne, hexamples⟩, hsignals, hsat⟩
    exact ⟨hkey, htype, hne, hexamples, hsignals, hsat⟩
  · rintro ⟨hkey, htype, hne, hexamples, hsignals, hsat⟩
    exact ⟨⟨⟨⟨hkey, a.noErrors_briefFindings⟩, htype⟩, hne, hexamples⟩, hsignals, hsat⟩

/-- **There is no finding about an attribute iff it follows the rules and is tidy.** -/
theorem ownFindings_eq_nil_iff : a.ownFindings = [] ↔ a.WellFormed ∧ a.Tidy := by
  rw [ownFindings, List.append_eq_nil_iff, List.append_eq_nil_iff, List.append_eq_nil_iff,
    List.append_eq_nil_iff, keyFindings_eq_nil_iff, briefFindings_eq_nil_iff,
    enumFindings_eq_nil_iff, exampleFindings_eq_nil_iff, constraintsFindings_eq_nil_iff]
  constructor
  · rintro ⟨⟨⟨⟨hkey, hbrief⟩, htype⟩, hne, hexamples⟩, ⟨hsignals, hsat⟩, htidy⟩
    exact ⟨⟨hkey, htype, hne, hexamples, hsignals, hsat⟩, hbrief, htidy⟩
  · rintro ⟨⟨hkey, htype, hne, hexamples, hsignals, hsat⟩, hbrief, htidy⟩
    exact ⟨⟨⟨⟨hkey, hbrief⟩, htype⟩, hne, hexamples⟩, ⟨hsignals, hsat⟩, htidy⟩

end Attribute

end AttributeRegistry
