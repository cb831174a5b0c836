import AttributeRegistry.Yaml.Token

/-!
# Events of YAML

A document as a flat list of events: scalars, aliases, and the beginnings and ends of sequences and
mappings, each with the place where it begins. A node that is left out is an empty plain scalar.

`Machine.step` is one step of a pushdown machine over the tokens: the goal on top of its stack says
what may come next. Every step gives an event.
-/

namespace AttributeRegistry.Yaml

/-- A tag with its handle replaced by what the handle stands for. -/
abbrev Tag := List UInt8

/-- The names a node carries. -/
structure Properties where
  anchor : Option (List Char)
  tag : Option Tag
deriving DecidableEq, Repr

/-- A node without names. -/
def Properties.none : Properties :=
  ⟨.none, .none⟩

/-- A part of a document. -/
inductive Event where
  | aliasOf (name : List Char)
  | scalar (props : Properties) (plain : Bool) (text : String)
  | sequenceStart (props : Properties)
  | sequenceEnd
  | mappingStart (props : Properties)
  | mappingEnd
deriving DecidableEq, Repr

/-- The scalar that stands for a node that is left out. -/
def Event.empty : Event :=
  .scalar .none true ""

/-- What may come next. -/
inductive Goal where
  | node (block indentless : Bool)
  | blockItems (first : Bool)
  | indentlessItems
  | blockKey (first : Bool)
  | blockValue
  | flowItems (first : Bool)
  | pairKey
  | pairValue
  | pairEnd
  | flowKey (first : Bool)
  | flowValue (left : Bool)
deriving DecidableEq, Repr

/-- The state of the machine. -/
structure Machine where
  tokens : List Token
  /-- What is wrong with the text behind the tokens. -/
  failure : Failure
  goals : List Goal
  /-- Where the open collections began. -/
  opened : List Mark
  /-- What tag handles stand for. -/
  handles : List (List Char × List UInt8)

namespace Machine

/-- The next token. -/
def peek (m : Machine) : Except Failure Token :=
  match m.tokens with
  | t :: _ => .ok t
  | [] => .error m.failure

/-- The machine behind the next token. -/
def skip (m : Machine) : Machine :=
  { m with tokens := m.tokens.tail }

/-- The machine with goals in front of those it has. -/
def aim (m : Machine) (goals : List Goal) : Machine :=
  { m with goals := goals ++ m.goals }

/-- A step gives an event, its place, and the next state. -/
abbrev Step := Except Failure ((Event × Mark) × Machine)

/-- The next state with an event. -/
def emit (m : Machine) (e : Event) (place : Mark) : Step :=
  .ok ((e, place), m)

/-- Fails inside the innermost open collection. -/
def failInside (m : Machine) (activity : Activity) (problem : Problem) (t : Token) : Step :=
  failWhile activity (m.opened.headD .start) problem t.start

/-- Leaves the innermost open collection behind its last token. -/
def close (m : Machine) (e : Event) (t : Token) : Step :=
  { m.skip with opened := m.opened.tail }.emit e t.start

/-! ## Nodes -/

/-- The tag a written tag stands for. -/
def resolveTag (m : Machine) (since place : Mark) (t : RawTag) : Except Failure Tag :=
  if t.handle = [] then .ok t.suffix
  else match m.handles.lookup t.handle with
    | some uri => .ok (uri ++ t.suffix)
    | none => failWhile .node since .undefinedHandle place

/-- The anchor and the tag in front of a node, in either order, and the tag's place. -/
def takeProperties (m : Machine) :
    Except Failure (Option (List Char) × Option (RawTag × Mark) × Machine) := do
  let t ← m.peek
  match t.kind with
  | .anchor name =>
    let next ← m.skip.peek
    match next.kind with
    | .tag raw => return (some name, some (raw, next.start), m.skip.skip)
    | _ => return (some name, none, m.skip)
  | .tag raw =>
    let next ← m.skip.peek
    match next.kind with
    | .anchor name => return (some name, some (raw, t.start), m.skip.skip)
    | _ => return (none, some (raw, t.start), m.skip)
  | _ => return (none, none, m)

/-- A node. -/
def node (m : Machine) (block indentless : Bool) : Step := do
  let t ← m.peek
  match t.kind with
  | .aliasName name => m.skip.emit (.aliasOf name) t.start
  | _ =>
    let since := t.start
    let (anchor, raw, m) ← m.takeProperties
    let tag ← raw.mapM fun (raw, place) => m.resolveTag since place raw
    let props : Properties := ⟨anchor, tag⟩
    let t ← m.peek
    let start (goal : Goal) : Step :=
      { m.skip.aim [goal] with opened := t.start :: m.opened }.emit
        (match goal with
          | .blockKey _ | .flowKey _ => .mappingStart props
          | _ => .sequenceStart props) since
    match t.kind with
    | .blockEntry =>
      if indentless then (m.aim [.indentlessItems]).emit (.sequenceStart props) since
      else missing m block since props t
    | .scalar plain text =>
      m.skip.emit (.scalar props plain (String.ofList text)) since
    | .flowSequenceStart => start (.flowItems true)
    | .flowMappingStart => start (.flowKey true)
    | .blockSequenceStart => if block then start (.blockItems true) else missing m block since props t
    | .blockMappingStart => if block then start (.blockKey true) else missing m block since props t
    | _ => missing m block since props t
where
  /-- A node of which there is nothing but perhaps its names. -/
  missing (m : Machine) (block : Bool) (since : Mark) (props : Properties) (t : Token) : Step :=
    if props = .none then
      failWhile (if block then .blockNode else .flowNode) since .noContent t.start
    else m.emit (.scalar props true "") since

/-- A node and then a goal, unless one of some tokens says that the node is left out. -/
def nodeOr (m : Machine) (block indentless : Bool) (ends : List TokenKind) (goal : Goal)
    (place : Mark) : Step := do
  let t ← m.peek
  if ends.contains t.kind then (m.aim [goal]).emit .empty place
  else (m.aim [goal]).node block indentless

/-! ## Block collections -/

/-- An item of a block sequence, or its end. -/
def blockItems (m : Machine) : Step := do
  let t ← m.peek
  match t.kind with
  | .blockEntry =>
    m.skip.nodeOr true false [.blockEntry, .blockEnd] (.blockItems false) t.stop
  | .blockEnd => m.close .sequenceEnd t
  | _ => m.failInside .blockCollection .noDash t

/-- An item of a sequence that is as far in as the mapping around it, or its end. -/
def indentlessItems (m : Machine) : Step := do
  let t ← m.peek
  match t.kind with
  | .blockEntry =>
    m.skip.nodeOr true false [.blockEntry, .key, .value, .blockEnd] .indentlessItems t.stop
  | _ => m.emit .sequenceEnd t.start

/-- A key of a block mapping, or its end. -/
def blockKey (m : Machine) : Step := do
  let t ← m.peek
  match t.kind with
  | .key => m.skip.nodeOr true true [.key, .value, .blockEnd] .blockValue t.stop
  | .blockEnd => m.close .mappingEnd t
  | _ => m.failInside .blockMapping .noKey t

/-- A value of a block mapping. -/
def blockValue (m : Machine) : Step := do
  let t ← m.peek
  match t.kind with
  | .value => m.skip.nodeOr true true [.key, .value, .blockEnd] (.blockKey false) t.stop
  | _ => (m.aim [.blockKey false]).emit .empty t.start

/-! ## Flow collections -/

/-- The machine behind the comma between two items, or a failure. The first item has no comma. -/
def skipComma (m : Machine) (first : Bool) (activity : Activity) (problem : Problem) :
    Except Failure Machine := do
  if first then return m
  let t ← m.peek
  match t.kind with
  | .flowEntry => return m.skip
  | _ => failWhile activity (m.opened.headD .start) problem t.start

/-- An item of a flow sequence, or its end. An item may be a pair. -/
def flowItems (m : Machine) (first : Bool) : Step := do
  let t ← m.peek
  if t.kind = .flowSequenceEnd then m.close .sequenceEnd t
  else
    let m ← m.skipComma first .flowSequence .noItemEnd
    let t ← m.peek
    match t.kind with
    | .key => (m.skip.aim [.pairKey, .flowItems false]).emit (.mappingStart .none) t.start
    | .flowSequenceEnd => m.close .sequenceEnd t
    | _ => (m.aim [.flowItems false]).node false false

/-- The key of a pair; the token behind a key that is left out is skipped with it. -/
def pairKey (m : Machine) : Step := do
  let t ← m.peek
  if [.value, .flowEntry, .flowSequenceEnd].contains t.kind then
    (m.skip.aim [.pairValue]).emit .empty t.stop
  else (m.aim [.pairValue]).node false false

/-- The value of a pair. -/
def pairValue (m : Machine) : Step := do
  let t ← m.peek
  match t.kind with
  | .value =>
    let next ← m.skip.peek
    m.skip.nodeOr false false [.flowEntry, .flowSequenceEnd] .pairEnd next.start
  | _ => (m.aim [.pairEnd]).emit .empty t.start

/-- A key of a flow mapping, or its end. -/
def flowKey (m : Machine) (first : Bool) : Step := do
  let t ← m.peek
  if t.kind = .flowMappingEnd then m.close .mappingEnd t
  else
    let m ← m.skipComma first .flowMapping .noMemberEnd
    let t ← m.peek
    match t.kind with
    | .key =>
      let next ← m.skip.peek
      m.skip.nodeOr false false [.value, .flowEntry, .flowMappingEnd] (.flowValue false) next.start
    | .flowMappingEnd => m.close .mappingEnd t
    | _ => (m.aim [.flowValue true]).node false false

/-- A value of a flow mapping; `left` says that it is left out. -/
def flowValue (m : Machine) (left : Bool) : Step := do
  let t ← m.peek
  match left, t.kind with
  | false, .value =>
    let next ← m.skip.peek
    m.skip.nodeOr false false [.flowEntry, .flowMappingEnd] (.flowKey false) next.start
  | _, _ => (m.aim [.flowKey false]).emit .empty t.start

/-! ## Steps -/

/-- One step toward a goal. -/
def toward (m : Machine) : Goal → Step
  | .node block indentless => m.node block indentless
  | .blockItems _ => m.blockItems
  | .indentlessItems => m.indentlessItems
  | .blockKey _ => m.blockKey
  | .blockValue => m.blockValue
  | .flowItems first => m.flowItems first
  | .pairKey => m.pairKey
  | .pairValue => m.pairValue
  | .pairEnd => do m.emit .mappingEnd (← m.peek).start
  | .flowKey first => m.flowKey first
  | .flowValue left => m.flowValue left

/-- The events up to the end of the goals, the tokens behind them, and what went wrong. -/
def run : Nat → Machine → List (Event × Mark) × Except Failure (List Token)
  | 0, m => ([], .error m.failure)
  | steps + 1, m =>
    match m.goals with
    | [] => ([], .ok m.tokens)
    | goal :: goals =>
      match { m with goals }.toward goal with
      | .error f => ([], .error f)
      | .ok (e, m) =>
        let (es, ending) := run steps m
        (e :: es, ending)

end Machine

end AttributeRegistry.Yaml
