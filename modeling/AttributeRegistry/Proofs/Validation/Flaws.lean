import AttributeRegistry.Proofs.Registry.Definitions
import AttributeRegistry.Proofs.Validation.Codes
import AttributeRegistry.Proofs.Validation.Rules
import Mathlib.Data.List.Nodup

/-!
# The flaws of an attribute

A `Flaw` is one place where an attribute breaks a rule or goes against an advice: the number of an
example, of a member, of a constraint and of a name in one of its lists. `Attribute.Has` says which flaws
an attribute has, in terms of the definition alone.

`Attribute.flaws` lists them check by check: all of them (`mem_flaws`), each once (`nodup_flaws`), and
what is found about the attribute is one finding for each (`ownFindings_eq`).

Main statement: the checks of a registry report about an attribute one finding for each of its flaws,
whatever the other attributes are (`reported_exact`).
-/

namespace AttributeRegistry

/-! ## Names of signals -/

/-- A name means a signal if it is the name of the signal, but for case and the blanks around it. -/
def Signal.Named (s : Signal) (written : String) : Prop :=
  (Text.trim written.toList).map Char.toLower = s.name.toList

namespace Signal

theorem parse_eq_some_iff {s : Signal} {written : String} :
    parse written = some s ↔ s.Named written := by
  unfold Named
  constructor
  · intro h
    have hname := List.find?_some h
    exact (of_decide_eq_true hname).symm
  · intro h
    rw [parse, canonicalName, h]
    cases s <;> decide

theorem parse_eq_none_iff {written : String} :
    parse written = none ↔ ∀ s : Signal, ¬ s.Named written := by
  simp only [Option.eq_none_iff_forall_ne_some, ne_eq, parse_eq_some_iff]

end Signal

/-! ## Flaws -/

/-- The two lists of signals in a constraint. -/
inductive Constraint.Side where
  | notOn | onlyOn
deriving DecidableEq

/-- The names in one of the lists of a constraint. -/
def Constraint.names (c : Constraint) : Constraint.Side → List String
  | .notOn => c.notOn
  | .onlyOn => c.onlyOn

/-- A constraint excludes a signal that it forbids, or that is not one of those it restricts to. -/
def Constraint.Excludes (c : Constraint) (s : Signal) : Prop :=
  (∃ name ∈ c.notOn, s.Named name) ∨ c.onlyOn ≠ [] ∧ ∀ name ∈ c.onlyOn, ¬ s.Named name

/-- A flaw in the definition of an attribute and its place: of a member, of an example, of a
constraint, and of a name in one of the lists of a constraint. -/
inductive Flaw where
  | invalidKey
  | blankBrief
  | noMembers
  | mixedMembers
  | repeatedMember (i : Nat) (id : String)
  | noExamples
  | mismatch (i : Nat) (e : Example)
  | unrestricting (k : Nat)
  | unknownSignal (k : Nat) (side : Constraint.Side) (i : Nat) (name : String)
  | repeatedSignal (k : Nat) (side : Constraint.Side) (i : Nat) (s : Signal)
  | unsatisfiable

namespace Flaw

/-- The number of the member, of the example, or of the name in its list. -/
def index : Flaw → Nat
  | .repeatedMember i _ | .mismatch i _ | .unknownSignal _ _ i _ | .repeatedSignal _ _ i _ => i
  | _ => 0

/-- The number of the constraint. -/
def constraint : Flaw → Nat
  | .unrestricting k | .unknownSignal k _ _ _ | .repeatedSignal k _ _ _ => k
  | _ => 0

/-- The list of the constraint. -/
def side? : Flaw → Option Constraint.Side
  | .unknownSignal _ side _ _ | .repeatedSignal _ side _ _ => some side
  | _ => none

end Flaw

namespace Attribute

/-- An attribute has a flaw. -/
inductive Has (a : Attribute) : Flaw → Prop
  | invalidKey (key : ¬ Key.WellFormed a.key.toList) : a.Has .invalidKey
  | blankBrief (brief : ∀ c ∈ a.brief.toList, Text.isBlank c = true) : a.Has .blankBrief
  | noMembers (type : a.type = .enumeration []) : a.Has .noMembers
  | mixedMembers {members : List Member} {m m' : Member} {n : Int} {s : String}
    (type : a.type = .enumeration members) (int : m ∈ members ∧ m.value = .int n)
    (text : m' ∈ members ∧ m'.value = .text s) : a.Has .mixedMembers
  | repeatedMember {members : List Member} {i : Nat} {m : Member}
    (type : a.type = .enumeration members) (member : members[i]? = some m)
    (earlier : ∃ m' ∈ members.take i, m'.id = m.id) : a.Has (.repeatedMember i m.id)
  | noExamples (none : a.examples = []) : a.Has .noExamples
  | mismatch {i : Nat} {e : Example} (at' : a.examples[i]? = some e) (unfit : ¬ a.type.Fits e) :
    a.Has (.mismatch i e)
  | unrestricting {k : Nat} {c : Constraint} (at' : a.constraints[k]? = some c)
    (empty : c.notOn = [] ∧ c.onlyOn = []) : a.Has (.unrestricting k)
  | unknownSignal {k : Nat} {c : Constraint} {side : Constraint.Side} {i : Nat} {name : String}
    (at' : a.constraints[k]? = some c) (listed : (c.names side)[i]? = some name)
    (unknown : ∀ s : Signal, ¬ s.Named name) : a.Has (.unknownSignal k side i name)
  | repeatedSignal {k : Nat} {c : Constraint} {side : Constraint.Side} {i : Nat} {name : String}
    {s : Signal} (at' : a.constraints[k]? = some c) (listed : (c.names side)[i]? = some name)
    (known : s.Named name) (earlier : ∃ name' ∈ (c.names side).take i, s.Named name') :
    a.Has (.repeatedSignal k side i s)
  | unsatisfiable (restricted : a.constraints ≠ [])
    (known : ∀ c ∈ a.constraints, ∀ name ∈ c.signalNames, ∃ s : Signal, s.Named name)
    (excluded : ∀ s, ∃ c ∈ a.constraints, c.Excludes s) : a.Has .unsatisfiable

end Attribute

/-- How a flaw of an attribute is reported. -/
def Flaw.finding (a : Attribute) : Flaw → Finding
  | .invalidKey =>
    ⟨a.key, .invalidKey, .error, "key '" ++ a.key ++ "' is not a dotted lowercase identifier",
      ["expected pattern " ++ Key.pattern]⟩
  | .blankBrief => ⟨a.key, .emptyBrief, .warning, "brief is blank", []⟩
  | .noMembers => ⟨a.key, .invalidEnum, .error, "enum type declares no members", []⟩
  | .mixedMembers =>
    ⟨a.key, .invalidEnum, .error, "enum members mix string and integer values", []⟩
  | .repeatedMember _ id =>
    ⟨a.key, .invalidEnum, .error, "enum member id '" ++ id ++ "' is declared twice", []⟩
  | .noExamples => ⟨a.key, .missingExamples, .error, "no examples declared", []⟩
  | .mismatch i e =>
    ⟨a.key, .exampleTypeMismatch, .error,
      "example #" ++ toString i ++ " " ++ e.displayText ++ " (" ++ e.kind
        ++ ") does not match type '" ++ a.type.display ++ "'", []⟩
  | .unrestricting _ =>
    ⟨a.key, .redundantConstraint, .warning, "constraint restricts no signal kind", []⟩
  | .unknownSignal _ _ _ name =>
    ⟨a.key, .unknownSignalKind, .error, "unknown signal kind '" ++ name ++ "'",
      hint name (Signal.all.map Signal.name)
        ++ ["expected one of: trace, log, metric, profile"]⟩
  | .repeatedSignal _ _ _ s =>
    ⟨a.key, .redundantConstraint, .warning, "signal kind '" ++ s.name ++ "' is listed twice", []⟩
  | .unsatisfiable =>
    ⟨a.key, .unsatisfiableConstraint, .error, "constraints exclude every signal kind", []⟩

/-! ## Flaws check by check -/

namespace Attribute

/-- The flaw of a key. -/
def keyFlaws (a : Attribute) : List Flaw :=
  if Key.isValid a.key.toList then [] else [.invalidKey]

/-- The flaw of a brief. -/
def briefFlaws (a : Attribute) : List Flaw :=
  if Text.isBlankText a.brief then [.blankBrief] else []

/-- The flaw of the member at some place: its identifier is one before. -/
def memberFlaw? (members : List Member) (m : Member) (i : Nat) : Option Flaw :=
  if ((members.take i).map Member.id).contains m.id then some (.repeatedMember i m.id) else none

/-- The flaws of identifiers that are declared twice. -/
def memberFlaws (members : List Member) : List Flaw :=
  members.zipIdx.filterMap fun (m, i) => memberFlaw? members m i

/-- The flaws of an enumeration. -/
def enumFlaws (a : Attribute) : List Flaw :=
  match a.type with
  | .primitive _ => []
  | .enumeration members =>
    (if members.isEmpty then [.noMembers]
      else if !AttributeType.homogeneous members then [.mixedMembers] else [])
    ++ memberFlaws members

/-- The flaws of examples. -/
def exampleFlaws (a : Attribute) : List Flaw :=
  if a.examples.isEmpty then [.noExamples]
  else a.examples.zipIdx.filterMap fun (e, i) =>
    if a.type.accepts e then none else some (.mismatch i e)

/-- The flaw of the signal at some place of a list in the `k`-th constraint. -/
def signalFlaw? (k : Nat) (side : Constraint.Side) (names : List String) (name : String) (i : Nat) :
    Option Flaw :=
  match Signal.parse name with
  | some s =>
    if Constraint.mentions (names.take i) s then some (.repeatedSignal k side i s) else none
  | none => some (.unknownSignal k side i name)

/-- The flaws of a list of signals in the `k`-th constraint. -/
def signalFlaws (k : Nat) (side : Constraint.Side) (names : List String) : List Flaw :=
  names.zipIdx.filterMap fun (name, i) => signalFlaw? k side names name i

/-- The flaws of the `k`-th constraint. -/
def constraintFlaws (c : Constraint) (k : Nat) : List Flaw :=
  (if c.notOn.isEmpty && c.onlyOn.isEmpty then [.unrestricting k] else [])
  ++ signalFlaws k .notOn c.notOn ++ signalFlaws k .onlyOn c.onlyOn

/-- The flaws of the constraints. -/
def constraintsFlaws (a : Attribute) : List Flaw :=
  (a.constraints.zipIdx.flatMap fun (c, k) => constraintFlaws c k)
  ++ if a.knowsSignals && !a.constraints.isEmpty && a.allowedSignals.isEmpty then
    [.unsatisfiable] else []

/-- All flaws of an attribute. -/
def flaws (a : Attribute) : List Flaw :=
  a.keyFlaws ++ a.briefFlaws ++ a.enumFlaws ++ a.exampleFlaws ++ a.constraintsFlaws

variable {a : Attribute} {f : Flaw}

/-! ## One finding for each flaw -/

theorem keyFindings_eq : a.keyFindings = a.keyFlaws.map (Flaw.finding a) := by
  unfold keyFindings keyFlaws
  split <;> rfl

theorem briefFindings_eq : a.briefFindings = a.briefFlaws.map (Flaw.finding a) := by
  unfold briefFindings briefFlaws
  split <;> rfl

theorem repeatedMembers_eq (a : Attribute) (members : List Member) :
    ((repeated (members.map Member.id)).map fun id =>
        a.finding .invalidEnum ("enum member id '" ++ id ++ "' is declared twice")) =
      (memberFlaws members).map (Flaw.finding a) := by
  rw [repeated, memberFlaws, List.zipIdx_map, List.filter_map, List.map_map, List.map_map, List.map_filterMap,
    ← List.filterMap_eq_filter, List.map_filterMap]
  refine List.filterMap_congr ?_
  rintro ⟨m, i⟩ -
  simp only [memberFlaw?, Function.comp_apply, Prod.map_apply, id_eq, Option.guard_apply,
    List.map_take]
  split <;> rfl

theorem enumFindings_eq : a.enumFindings = a.enumFlaws.map (Flaw.finding a) := by
  unfold enumFindings enumFlaws
  cases a.type with
  | primitive p => rfl
  | enumeration members =>
    dsimp only
    rw [repeatedMembers_eq, List.map_append]
    congr 1
    split
    · rfl
    · split <;> rfl

theorem exampleFindings_eq : a.exampleFindings = a.exampleFlaws.map (Flaw.finding a) := by
  unfold exampleFindings exampleFlaws
  split
  · rfl
  · rw [List.map_filterMap]
    refine List.filterMap_congr ?_
    rintro ⟨e, i⟩ -
    dsimp only
    split <;> rfl

theorem signalFindings_eq (a : Attribute) (k : Nat) (side : Constraint.Side)
    (names : List String) :
    a.signalFindings names = (signalFlaws k side names).map (Flaw.finding a) := by
  rw [signalFindings, signalFlaws, List.map_filterMap]
  refine List.filterMap_congr ?_
  rintro ⟨name, i⟩ -
  dsimp only [signalFinding?, signalFlaw?]
  cases Signal.parse name with
  | none => rfl
  | some s =>
    dsimp only
    split <;> rfl

theorem constraintFindings_eq (a : Attribute) (c : Constraint) (k : Nat) :
    a.constraintFindings c = (constraintFlaws c k).map (Flaw.finding a) := by
  rw [constraintFindings, constraintFlaws, List.map_append, List.map_append,
    signalFindings_eq a k .notOn, signalFindings_eq a k .onlyOn]
  congr 2
  split <;> rfl

theorem constraintsFindings_eq : a.constraintsFindings = a.constraintsFlaws.map (Flaw.finding a) := by
  have hnumbered : a.constraints.flatMap a.constraintFindings =
      a.constraints.zipIdx.flatMap fun p => (constraintFlaws p.1 p.2).map (Flaw.finding a) := by
    conv_lhs => rw [← List.zipIdx_map_fst 0 a.constraints, List.flatMap_map]
    exact List.flatMap_congr fun p _ => constraintFindings_eq a p.1 p.2
  rw [constraintsFindings, constraintsFlaws, List.map_append, List.map_flatMap, hnumbered]
  congr 1
  split <;> rfl

/-- **What is found about an attribute is one finding for each of its flaws.** -/
theorem ownFindings_eq : a.ownFindings = a.flaws.map (Flaw.finding a) := by
  rw [ownFindings, flaws, keyFindings_eq, briefFindings_eq, enumFindings_eq, exampleFindings_eq,
    constraintsFindings_eq, List.map_append, List.map_append, List.map_append, List.map_append]

/-! ## The flaws listed -/

theorem mem_filterMap_zipIdx {α β : Type} {as : List α} {g : α × Nat → Option β} {b : β} :
    b ∈ as.zipIdx.filterMap g ↔ ∃ i x, as[i]? = some x ∧ g (x, i) = some b := by
  rw [List.mem_filterMap]
  constructor
  · rintro ⟨⟨x, i⟩, hmem, hg⟩
    exact ⟨i, x, List.mk_mem_zipIdx_iff_getElem?.mp hmem, hg⟩
  · rintro ⟨i, x, hx, hg⟩
    exact ⟨(x, i), List.mk_mem_zipIdx_iff_getElem?.mpr hx, hg⟩

theorem mem_keyFlaws : f ∈ a.keyFlaws ↔ f = .invalidKey ∧ ¬ Key.WellFormed a.key.toList := by
  rw [keyFlaws, List.mem_ite_nil_left, List.mem_singleton, Key.isValid_iff, and_comm]

theorem mem_briefFlaws :
    f ∈ a.briefFlaws ↔ f = .blankBrief ∧ ∀ c ∈ a.brief.toList, Text.isBlank c = true := by
  have hblank : Text.isBlankText a.brief = true ↔ ∀ c ∈ a.brief.toList, Text.isBlank c = true :=
    List.all_eq_true
  rw [briefFlaws, List.mem_ite_nil_right, List.mem_singleton, hblank, and_comm]

/-- Members are not of one kind iff there are members of both. -/
theorem not_homogeneous_iff {members : List Member} :
    AttributeType.homogeneous members = false ↔
      (∃ m ∈ members, ∃ n, m.value = .int n) ∧ ∃ m ∈ members, ∃ s, m.value = .text s := by
  have hkind : ∀ m : Member, (¬ ∃ n, m.value = .int n) ↔ ∃ s, m.value = .text s := by
    intro m
    cases m.value <;> simp
  rw [← Bool.not_eq_true, homogeneous_iff, not_or, and_comm]
  simp only [Classical.not_forall, exists_prop, ← hkind, not_not]

theorem mem_memberFlaws {members : List Member} :
    f ∈ memberFlaws members ↔ ∃ i m, members[i]? = some m ∧ (∃ m' ∈ members.take i, m'.id = m.id) ∧
      f = .repeatedMember i m.id := by
  rw [memberFlaws, mem_filterMap_zipIdx]
  refine exists_congr fun i => exists_congr fun m => and_congr_right fun _ => ?_
  dsimp only [memberFlaw?]
  rw [Option.ite_none_right_eq_some, Option.some_inj, List.contains_iff_mem, List.mem_map,
    @eq_comm _ f]

theorem mem_enumFlaws {members : List Member} (h : a.type = .enumeration members) :
    f ∈ a.enumFlaws ↔ f = .noMembers ∧ members = [] ∨
      (f = .mixedMembers ∧ (∃ m ∈ members, ∃ n, m.value = .int n) ∧
        ∃ m ∈ members, ∃ s, m.value = .text s) ∨
      ∃ i m, members[i]? = some m ∧ (∃ m' ∈ members.take i, m'.id = m.id) ∧
        f = .repeatedMember i m.id := by
  rw [enumFlaws, h]
  dsimp only
  rw [List.mem_append, mem_memberFlaws, ← not_homogeneous_iff, ← or_assoc]
  refine or_congr_left ?_
  by_cases hempty : members = []
  · simp [hempty, AttributeType.homogeneous]
  · cases hhom : AttributeType.homogeneous members with
    | true => simp [hempty]
    | false => simp [hempty]

theorem mem_exampleFlaws :
    f ∈ a.exampleFlaws ↔ f = .noExamples ∧ a.examples = [] ∨
      ∃ i e, a.examples[i]? = some e ∧ ¬ a.type.Fits e ∧ f = .mismatch i e := by
  unfold exampleFlaws
  by_cases hempty : a.examples = []
  · simp [hempty]
  · rw [if_neg (by simpa using hempty), mem_filterMap_zipIdx]
    simp only [hempty, and_false, false_or]
    refine exists_congr fun i => exists_congr fun e => and_congr_right fun _ => ?_
    rw [Option.ite_none_left_eq_some, Option.some_inj, AttributeType.accepts_iff, @eq_comm _ f]

theorem mem_signalFlaws {k : Nat} {side : Constraint.Side} {names : List String} :
    f ∈ signalFlaws k side names ↔ ∃ i name, names[i]? = some name ∧
      ((∀ s : Signal, ¬ s.Named name) ∧ f = .unknownSignal k side i name ∨
        ∃ s : Signal, s.Named name ∧ (∃ name' ∈ names.take i, s.Named name') ∧
          f = .repeatedSignal k side i s) := by
  rw [signalFlaws, mem_filterMap_zipIdx]
  refine exists_congr fun i => exists_congr fun name => and_congr_right fun _ => ?_
  dsimp only [signalFlaw?]
  cases hparse : Signal.parse name with
  | none =>
    have unknown := Signal.parse_eq_none_iff.mp hparse
    rw [Option.some_inj]
    constructor
    · rintro rfl
      exact .inl ⟨unknown, rfl⟩
    · rintro (⟨-, rfl⟩ | ⟨s, known, -⟩)
      · rfl
      · exact absurd known (unknown s)
  | some s =>
    have known := Signal.parse_eq_some_iff.mp hparse
    dsimp only
    rw [Option.ite_none_right_eq_some, Option.some_inj, mentions_iff]
    simp only [Signal.parse_eq_some_iff]
    constructor
    · rintro ⟨earlier, rfl⟩
      exact .inr ⟨s, known, earlier, rfl⟩
    · rintro (⟨unknown, -⟩ | ⟨t, ht, earlier, rfl⟩)
      · exact absurd known (unknown s)
      · obtain rfl : s = t :=
          Option.some_inj.mp (hparse.symm.trans (Signal.parse_eq_some_iff.mpr ht))
        exact ⟨earlier, rfl⟩

theorem mem_constraintFlaws {c : Constraint} {k : Nat} :
    f ∈ constraintFlaws c k ↔ f = .unrestricting k ∧ c.notOn = [] ∧ c.onlyOn = [] ∨
      ∃ side, f ∈ signalFlaws k side (c.names side) := by
  have hsides : (∃ side, f ∈ signalFlaws k side (c.names side)) ↔
      f ∈ signalFlaws k .notOn c.notOn ∨ f ∈ signalFlaws k .onlyOn c.onlyOn := by
    constructor
    · rintro ⟨_ | _, h⟩
      · exact .inl h
      · exact .inr h
    · rintro (h | h)
      · exact ⟨.notOn, h⟩
      · exact ⟨.onlyOn, h⟩
  rw [constraintFlaws, List.mem_append, List.mem_append, or_assoc, hsides]
  refine or_congr_left ?_
  rw [List.mem_ite_nil_right, List.mem_singleton, Bool.and_eq_true, List.isEmpty_iff,
    List.isEmpty_iff, and_comm]

theorem not_permits_iff {c : Constraint} {s : Signal} : ¬ c.Permits s ↔ c.Excludes s := by
  unfold Constraint.Permits Constraint.Excludes
  simp only [ne_eq, Signal.parse_eq_some_iff]
  rw [Classical.not_and_iff_not_or_not, not_or]
  simp only [Classical.not_forall, not_not, exists_prop, not_exists, not_and]

theorem mem_constraintsFlaws :
    f ∈ a.constraintsFlaws ↔
      (∃ k c, a.constraints[k]? = some c ∧ f ∈ constraintFlaws c k) ∨
        (a.constraints ≠ [] ∧
          (∀ c ∈ a.constraints, ∀ name ∈ c.signalNames, ∃ s : Signal, s.Named name) ∧
          ∀ s, ∃ c ∈ a.constraints, c.Excludes s) ∧ f = .unsatisfiable := by
  have hempty : a.allowedSignals.isEmpty = true ↔ ∀ s, ∃ c ∈ a.constraints, c.Excludes s := by
    rw [← Bool.not_eq_false, allowedSignals_isEmpty_iff]
    simp only [← not_permits_iff, not_exists, Classical.not_forall, exists_prop]
  have hknown : a.knowsSignals = true ↔
      ∀ c ∈ a.constraints, ∀ name ∈ c.signalNames, ∃ s : Signal, s.Named name := by
    simp only [knowsSignals_iff, Signal.parse_eq_some_iff]
  rw [constraintsFlaws, List.mem_append, List.mem_flatMap, ← hempty, ← hknown]
  refine or_congr ?_ ?_
  · constructor
    · rintro ⟨⟨c, k⟩, hmem, hf⟩
      exact ⟨k, c, List.mk_mem_zipIdx_iff_getElem?.mp hmem, hf⟩
    · rintro ⟨k, c, hc, hf⟩
      exact ⟨(c, k), List.mk_mem_zipIdx_iff_getElem?.mpr hc, hf⟩
  · rw [List.mem_ite_nil_right, List.mem_singleton, Bool.and_eq_true, Bool.and_eq_true,
      Bool.not_eq_true', List.isEmpty_eq_false_iff, @and_comm (a.knowsSignals = true),
      @and_assoc (a.constraints ≠ [])]

theorem mem_flaws_iff_exists_check : f ∈ a.flaws ↔ f ∈ a.keyFlaws ∨ f ∈ a.briefFlaws ∨
    f ∈ a.enumFlaws ∨ f ∈ a.exampleFlaws ∨ f ∈ a.constraintsFlaws := by
  simp only [flaws, List.mem_append, or_assoc]

theorem has_of_mem_enumFlaws (h : f ∈ a.enumFlaws) : a.Has f := by
  cases htype : a.type with
  | primitive p => simp [enumFlaws, htype] at h
  | enumeration members =>
    rcases (mem_enumFlaws htype).mp h with ⟨rfl, rfl⟩ | ⟨rfl, hint, htext⟩ | hrepeated
    · exact .noMembers htype
    · obtain ⟨m, hm, n, hn⟩ := hint
      obtain ⟨m', hm', s, hs⟩ := htext
      exact .mixedMembers htype ⟨hm, hn⟩ ⟨hm', hs⟩
    · obtain ⟨i, m, hm, earlier, rfl⟩ := hrepeated
      exact .repeatedMember htype hm earlier

theorem has_of_mem_constraintsFlaws (h : f ∈ a.constraintsFlaws) : a.Has f := by
  rcases mem_constraintsFlaws.mp h with ⟨k, c, hc, h⟩ | ⟨⟨restricted, known, excluded⟩, rfl⟩
  · rcases mem_constraintFlaws.mp h with ⟨rfl, empty⟩ | ⟨side, h⟩
    · exact .unrestricting hc empty
    · obtain ⟨i, name, listed, ⟨unknown, rfl⟩ | ⟨s, known, earlier, rfl⟩⟩ := mem_signalFlaws.mp h
      · exact .unknownSignal hc listed unknown
      · exact .repeatedSignal hc listed known earlier
  · exact .unsatisfiable restricted known excluded

theorem has_of_mem_flaws (h : f ∈ a.flaws) : a.Has f := by
  rcases mem_flaws_iff_exists_check.mp h with h | h | h | h | h
  · obtain ⟨rfl, key⟩ := mem_keyFlaws.mp h
    exact .invalidKey key
  · obtain ⟨rfl, brief⟩ := mem_briefFlaws.mp h
    exact .blankBrief brief
  · exact has_of_mem_enumFlaws h
  · rcases mem_exampleFlaws.mp h with ⟨rfl, none⟩ | ⟨i, e, he, unfit, rfl⟩
    · exact .noExamples none
    · exact .mismatch he unfit
  · exact has_of_mem_constraintsFlaws h

theorem mem_flaws_of_constraint {k : Nat} {c : Constraint} (hc : a.constraints[k]? = some c)
    (h : f ∈ constraintFlaws c k) : f ∈ a.flaws :=
  mem_flaws_iff_exists_check.mpr
    (.inr (.inr (.inr (.inr (mem_constraintsFlaws.mpr (.inl ⟨k, c, hc, h⟩))))))

theorem mem_flaws_of_signal {k : Nat} {c : Constraint} {side : Constraint.Side}
    (hc : a.constraints[k]? = some c) (h : f ∈ signalFlaws k side (c.names side)) : f ∈ a.flaws :=
  mem_flaws_of_constraint hc (mem_constraintFlaws.mpr (.inr ⟨side, h⟩))

theorem mem_flaws_of_has (h : a.Has f) : f ∈ a.flaws := by
  cases h with
  | invalidKey key => exact mem_flaws_iff_exists_check.mpr (.inl (mem_keyFlaws.mpr ⟨rfl, key⟩))
  | blankBrief brief =>
    exact mem_flaws_iff_exists_check.mpr (.inr (.inl (mem_briefFlaws.mpr ⟨rfl, brief⟩)))
  | noMembers type =>
    refine mem_flaws_iff_exists_check.mpr (.inr (.inr (.inl ((mem_enumFlaws type).mpr (.inl ?_)))))
    exact ⟨rfl, rfl⟩
  | mixedMembers type int text =>
    refine mem_flaws_iff_exists_check.mpr (.inr (.inr (.inl ((mem_enumFlaws type).mpr ?_))))
    exact .inr (.inl ⟨rfl, ⟨_, int.1, _, int.2⟩, ⟨_, text.1, _, text.2⟩⟩)
  | repeatedMember type member earlier =>
    refine mem_flaws_iff_exists_check.mpr (.inr (.inr (.inl ((mem_enumFlaws type).mpr ?_))))
    exact .inr (.inr ⟨_, _, member, earlier, rfl⟩)
  | noExamples none =>
    refine mem_flaws_iff_exists_check.mpr (.inr (.inr (.inr (.inl (mem_exampleFlaws.mpr ?_)))))
    exact .inl ⟨rfl, none⟩
  | mismatch he unfit =>
    refine mem_flaws_iff_exists_check.mpr (.inr (.inr (.inr (.inl (mem_exampleFlaws.mpr ?_)))))
    exact .inr ⟨_, _, he, unfit, rfl⟩
  | unrestricting hc empty =>
    exact mem_flaws_of_constraint hc (mem_constraintFlaws.mpr (.inl ⟨rfl, empty⟩))
  | unknownSignal hc listed unknown =>
    exact mem_flaws_of_signal hc (mem_signalFlaws.mpr ⟨_, _, listed, .inl ⟨unknown, rfl⟩⟩)
  | repeatedSignal hc listed known earlier =>
    refine mem_flaws_of_signal hc (mem_signalFlaws.mpr ⟨_, _, listed, .inr ?_⟩)
    exact ⟨_, known, earlier, rfl⟩
  | unsatisfiable restricted known excluded =>
    refine mem_flaws_iff_exists_check.mpr
      (.inr (.inr (.inr (.inr (mem_constraintsFlaws.mpr (.inr ⟨?_, rfl⟩))))))
    exact ⟨restricted, known, excluded⟩

/-- **The flaws listed are those the attribute has.** -/
theorem mem_flaws : f ∈ a.flaws ↔ a.Has f :=
  ⟨has_of_mem_flaws, mem_flaws_of_has⟩

/-! ## Each flaw once -/

/-- What is found at the places of a list has no repetition if it tells its place. -/
theorem nodup_filterMap_zipIdx {α β : Type} {as : List α} {g : α × Nat → Option β}
    (place : β → Nat) (h : ∀ x i b, g (x, i) = some b → place b = i) :
    (as.zipIdx.filterMap g).Nodup := by
  have hdistinct : as.zipIdx.Pairwise fun p q => p.2 ≠ q.2 := by
    rw [← List.pairwise_map (f := Prod.snd), List.zipIdx_map_snd]
    exact List.nodup_range'
  refine List.pairwise_filterMap.mpr (hdistinct.imp ?_)
  rintro ⟨x, i⟩ ⟨y, j⟩ hne b hb b' hb' rfl
  exact hne ((h x i b hb).symm.trans (h y j b hb'))

theorem nodup_ite_singleton (p : Prop) [Decidable p] (f : Flaw) : (if p then [f] else []).Nodup := by
  split
  · exact List.nodup_singleton f
  · exact List.nodup_nil

theorem nodup_enumFlaws : a.enumFlaws.Nodup := by
  unfold enumFlaws
  cases a.type with
  | primitive p => exact List.nodup_nil
  | enumeration members =>
    dsimp only
    have hmembers : (memberFlaws members).Nodup := by
      refine nodup_filterMap_zipIdx Flaw.index fun m i f hf => ?_
      obtain ⟨-, hf⟩ := Option.ite_none_right_eq_some.mp hf
      cases hf
      rfl
    refine List.nodup_append'.mpr ⟨?_, hmembers, ?_⟩
    · split
      · exact List.nodup_singleton _
      · exact nodup_ite_singleton _ _
    · intro f hf hmem
      obtain ⟨i, m, -, -, rfl⟩ := mem_memberFlaws.mp hmem
      split at hf
      · cases List.mem_singleton.mp hf
      · split at hf
        · cases List.mem_singleton.mp hf
        · cases hf

theorem nodup_exampleFlaws : a.exampleFlaws.Nodup := by
  unfold exampleFlaws
  split
  · exact List.nodup_singleton _
  · refine nodup_filterMap_zipIdx Flaw.index fun e i f hf => ?_
    obtain ⟨-, hf⟩ := Option.ite_none_left_eq_some.mp hf
    cases hf
    rfl

/-- A flaw in a list of a constraint tells which list it is and which constraint. -/
theorem place_of_mem_signalFlaws {k : Nat} {side : Constraint.Side} {names : List String}
    (h : f ∈ signalFlaws k side names) : f.constraint = k ∧ f.side? = some side := by
  obtain ⟨i, name, -, ⟨-, rfl⟩ | ⟨s, -, -, rfl⟩⟩ := mem_signalFlaws.mp h
  · exact ⟨rfl, rfl⟩
  · exact ⟨rfl, rfl⟩

theorem nodup_signalFlaws {k : Nat} {side : Constraint.Side} {names : List String} :
    (signalFlaws k side names).Nodup := by
  refine nodup_filterMap_zipIdx Flaw.index fun name i f hf => ?_
  dsimp only [signalFlaw?] at hf
  split at hf
  · obtain ⟨-, hf⟩ := Option.ite_none_right_eq_some.mp hf
    cases hf
    rfl
  · cases hf
    rfl

theorem constraint_of_mem_constraintFlaws {c : Constraint} {k : Nat} (h : f ∈ constraintFlaws c k) :
    f.constraint = k := by
  rcases mem_constraintFlaws.mp h with ⟨rfl, -⟩ | ⟨side, h⟩
  · rfl
  · exact (place_of_mem_signalFlaws h).1

theorem nodup_constraintFlaws {c : Constraint} {k : Nat} : (constraintFlaws c k).Nodup := by
  unfold constraintFlaws
  refine List.nodup_append'.mpr ⟨List.nodup_append'.mpr ⟨nodup_ite_singleton _ _,
    nodup_signalFlaws, ?_⟩, nodup_signalFlaws, ?_⟩
  · intro f hf hmem
    obtain ⟨-, hf⟩ := List.mem_ite_nil_right.mp hf
    cases List.mem_singleton.mp hf
    cases (place_of_mem_signalFlaws hmem).2
  · intro f hf hmem
    have honly := (place_of_mem_signalFlaws hmem).2
    rcases List.mem_append.mp hf with hf | hf
    · obtain ⟨-, hf⟩ := List.mem_ite_nil_right.mp hf
      cases List.mem_singleton.mp hf
      cases honly
    · cases (place_of_mem_signalFlaws hf).2.symm.trans honly

theorem nodup_constraintsFlaws : a.constraintsFlaws.Nodup := by
  unfold constraintsFlaws
  refine List.nodup_append'.mpr ⟨List.nodup_flatMap.mpr ⟨fun _ _ => nodup_constraintFlaws, ?_⟩,
    nodup_ite_singleton _ _, ?_⟩
  · -- the constraints have different numbers
    have hnumbers : (a.constraints.zipIdx.map Prod.snd).Nodup := by
      rw [List.zipIdx_map_snd]
      exact List.nodup_range'
    refine (List.pairwise_map.mp hnumbers).imp ?_
    intro p q hne f hp hq
    exact hne ((constraint_of_mem_constraintFlaws hp).symm.trans
      (constraint_of_mem_constraintFlaws hq))
  · intro f hf hmem
    obtain ⟨-, hmem⟩ := List.mem_ite_nil_right.mp hmem
    cases List.mem_singleton.mp hmem
    obtain ⟨⟨c, k⟩, -, hf⟩ := List.mem_flatMap.mp hf
    rcases mem_constraintFlaws.mp hf with ⟨hf, -⟩ | ⟨side, hf⟩
    · cases hf
    · cases (place_of_mem_signalFlaws hf).2

/-- Flaws that are reported under different codes are different. -/
theorem disjoint_of_within {cs ds : List Code} {fs gs : List Flaw}
    (hf : Report.Within cs (fs.map (Flaw.finding a))) (hg : Report.Within ds (gs.map (Flaw.finding a)))
    (h : ∀ c ∈ cs, c ∉ ds) : fs.Disjoint gs := by
  intro f hmem hmem'
  exact h _ (hf _ (List.mem_map_of_mem hmem)) (hg _ (List.mem_map_of_mem hmem'))

/-- **No flaw is listed twice.** -/
theorem nodup_flaws : a.flaws.Nodup := by
  have hkey := within_keyFindings (a := a)
  have hbrief := within_briefFindings (a := a)
  have henum := within_enumFindings (a := a)
  have hexample := within_exampleFindings (a := a)
  have hconstraint := within_constraintsFindings (a := a)
  rw [keyFindings_eq] at hkey
  rw [briefFindings_eq] at hbrief
  rw [enumFindings_eq] at henum
  rw [exampleFindings_eq] at hexample
  rw [constraintsFindings_eq] at hconstraint
  unfold flaws
  simp only [List.nodup_append', List.disjoint_append_left]
  refine ⟨⟨⟨⟨?_, nodup_ite_singleton _ _, disjoint_of_within hkey hbrief (by decide)⟩,
    nodup_enumFlaws, ?_⟩, nodup_exampleFlaws, ?_⟩, nodup_constraintsFlaws, ?_⟩
  · unfold keyFlaws
    split
    · exact List.nodup_nil
    · exact List.nodup_singleton _
  · exact ⟨disjoint_of_within hkey henum (by decide), disjoint_of_within hbrief henum (by decide)⟩
  · exact ⟨⟨disjoint_of_within hkey hexample (by decide),
      disjoint_of_within hbrief hexample (by decide)⟩, disjoint_of_within henum hexample (by decide)⟩
  · exact ⟨⟨⟨disjoint_of_within hkey hconstraint (by decide),
      disjoint_of_within hbrief hconstraint (by decide)⟩,
      disjoint_of_within henum hconstraint (by decide)⟩,
      disjoint_of_within hexample hconstraint (by decide)⟩

/-! ## Reports of a registry -/

theorem subject_of_mem_ownFindings {x : Finding} (h : x ∈ a.ownFindings) : x.subject = a.key := by
  rw [ownFindings_eq] at h
  obtain ⟨f, -, rfl⟩ := List.mem_map.mp h
  cases f <;> rfl

end Attribute

/-- What the checks of a registry report about an attribute, but for its replacement. -/
def Registry.reported (r : Registry) (a : Attribute) : Report :=
  r.check.filter fun x => x.subject = a.key ∧ x.code ∈ Attribute.ownCodes

namespace Registry

variable {r : Registry} {a : Attribute}

theorem filter_eq_nil_of_within {cs : List Code} {p : Report} (h : Report.Within cs p)
    (hcs : ∀ c ∈ cs, c ∉ Attribute.ownCodes) (key : String) :
    (p.filter fun x => x.subject = key ∧ x.code ∈ Attribute.ownCodes) = [] := by
  rw [List.filter_eq_nil_iff]
  intro x hx hown
  exact hcs _ (h x hx) (of_decide_eq_true hown).2

theorem reported_eq (ha : a ∈ r.attributes) : r.reported a = a.ownFindings := by
  -- of the findings about one attribute, all its own are left or none
  have hsame : ((a.ownFindings ++ r.replacementFindings a).filter fun x =>
      x.subject = a.key ∧ x.code ∈ Attribute.ownCodes) = a.ownFindings := by
    rw [List.filter_append, filter_eq_nil_of_within (within_replacementFindings a) (by decide),
      List.append_nil, List.filter_eq_self]
    intro x hx
    exact decide_eq_true
      ⟨Attribute.subject_of_mem_ownFindings hx, Attribute.within_ownFindings x hx⟩
  have hother : ∀ b : Attribute, b.key ≠ a.key →
      ((b.ownFindings ++ r.replacementFindings b).filter fun x =>
        x.subject = a.key ∧ x.code ∈ Attribute.ownCodes) = [] := by
    intro b hne
    rw [List.filter_append, filter_eq_nil_of_within (within_replacementFindings b) (by decide),
      List.append_nil, List.filter_eq_nil_iff]
    intro x hx hown
    exact hne ((Attribute.subject_of_mem_ownFindings hx).symm.trans (of_decide_eq_true hown).1)
  -- no other attribute has its key
  obtain ⟨before, after, hsplit⟩ := List.append_of_mem ha
  have hkeys := r.nodup_keys
  rw [keys_eq, hsplit, List.map_append, List.map_cons, List.nodup_middle, List.nodup_cons,
    ← List.map_append, List.mem_map] at hkeys
  have hno : ∀ b ∈ before ++ after, b.key ≠ a.key := fun b hb hkey => hkeys.1 ⟨b, hb, hkey⟩
  rw [List.forall_mem_append] at hno
  rw [reported, check, graphFindings, List.filter_append, List.filter_append, List.filter_append,
    filter_eq_nil_of_within (within_cycles _) (by decide),
    filter_eq_nil_of_within (within_chains _) (by decide),
    filter_eq_nil_of_within within_collisionFindings (by decide), List.append_nil, List.append_nil,
    List.append_nil, List.filter_flatMap, hsplit, List.flatMap_append, List.flatMap_cons, hsame,
    List.flatMap_eq_nil_iff.mpr fun b hb => hother b (hno.1 b hb),
    List.flatMap_eq_nil_iff.mpr fun b hb => hother b (hno.2 b hb), List.nil_append, List.append_nil]

end Registry

/-- **What is reported about an attribute is exact and depends on it alone.** In whatever registry the
attribute is, the checks report one finding for each of its flaws, and nothing else. -/
theorem Attribute.reported_exact (a : Attribute) :
    ∃ flaws : List Flaw, flaws.Nodup ∧ (∀ f, f ∈ flaws ↔ a.Has f) ∧
      ∀ r : Registry, a ∈ r.attributes → r.reported a = flaws.map (Flaw.finding a) :=
  ⟨a.flaws, nodup_flaws, fun _ => mem_flaws, fun _ ha => (Registry.reported_eq ha).trans ownFindings_eq⟩

end AttributeRegistry
