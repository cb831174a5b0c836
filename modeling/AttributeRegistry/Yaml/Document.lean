import AttributeRegistry.Yaml.Event

/-!
# YAML documents

The first document of a text, ready to be read by a shape: its events with the aliases resolved, and
what went wrong behind them. A failure counts only when a reader gets there, so that the first
mistake in a document is reported even if a later one breaks the syntax.

Anchors are numbered as they appear; an anchor that is defined again gets the number of anchors known
by then.
-/

namespace AttributeRegistry.Yaml

/-- A part of a document whose aliases are resolved. -/
inductive Item where
  /-- A text without any document. -/
  | void
  /-- An alias of the anchor with a number. -/
  | aliasOf (anchor : Nat)
  | scalar (tag : Option Tag) (plain : Bool) (text : String)
  | sequenceStart (tag : Option Tag)
  | sequenceEnd
  | mappingStart (tag : Option Tag)
  | mappingEnd
deriving DecidableEq, Repr

/-- An item and its place. -/
abbrev Placed := Item × Mark

/-- What ends a document before its time. -/
inductive Ending where
  | syntactic (f : Failure)
  | unknownAnchor (place : Mark)
deriving DecidableEq, Repr

/-- The first document of a text. -/
structure Document where
  items : List Placed
  /-- What went wrong behind the items. -/
  ending : Option Ending
  /-- The items from each anchor on, by the anchor's number. -/
  targets : List (Nat × Nat)
  /-- Whether another document follows. -/
  further : Bool

namespace Document

/-! ## Aliases -/

/-- Which anchors are known so far. -/
structure Anchors where
  numbers : List (List Char × Nat)
  targets : List (Nat × Nat)

/-- Gives an anchor that stands at a position its number. -/
def Anchors.define (a : Anchors) (position : Nat) : Option (List Char) → Anchors
  | none => a
  | some name =>
    let number := a.numbers.length
    ⟨(name, number) :: a.numbers.filter (fun n => n.1 ≠ name), (number, position) :: a.targets⟩

/-- Resolves aliases from a position on; an unknown one ends the document. -/
def resolve (a : Anchors) (position : Nat) :
    List (Event × Mark) → List Placed × Anchors × Option Ending
  | [] => ([], a, none)
  | (e, place) :: es =>
    let go (a : Anchors) (item : Item) : List Placed × Anchors × Option Ending :=
      let (items, a, ending) := resolve a (position + 1) es
      ((item, place) :: items, a, ending)
    match e with
    | .aliasOf name =>
      match a.numbers.lookup name with
      | some number => go a (.aliasOf number)
      | none => ([], a, some (.unknownAnchor place))
    | .scalar props plain text => go (a.define position props.anchor) (.scalar props.tag plain text)
    | .sequenceStart props => go (a.define position props.anchor) (.sequenceStart props.tag)
    | .sequenceEnd => go a .sequenceEnd
    | .mappingStart props => go (a.define position props.anchor) (.mappingStart props.tag)
    | .mappingEnd => go a .mappingEnd

/-! ## The start of a document -/

/-- The handles every document knows. -/
def standardHandles : List (List Char × List UInt8) :=
  [(['!'], octets ['!']), (['!', '!'], octets "tag:yaml.org,2002:".toList)]

/-- The tag handles the directives in front of a document define, and the tokens behind them. -/
def readDirectives (failure : Failure) (versioned : Bool) (handles : List (List Char × List UInt8)) :
    List Token → Except Failure (List (List Char × List UInt8) × List Token)
  | [] => .error failure
  | t :: ts =>
    match t.kind with
    | .directive (.version major minor) =>
      if versioned then failAt .duplicateVersion t.start
      else if major = 1 ∧ (minor = 1 ∨ minor = 2) then readDirectives failure true handles ts
      else failAt .incompatibleVersion t.start
    | .directive (.tag handle uri) =>
      if (handles.lookup handle).isSome then failAt .duplicateHandle t.start
      else readDirectives failure versioned (handles ++ [(handle, uri)]) ts
    | _ => .ok (handles ++ standardHandles, t :: ts)

/-- Whether a document ends before a token without having any content. -/
def endsBefore : TokenKind → Bool
  | .directive _ | .documentStart | .documentEnd | .streamEnd => true
  | _ => false

/-- The tokens from the content of the first document on, and the handles its tags may use. -/
def readStart (failure : Failure) (tokens : List Token) :
    Except Failure (List (List Char × List UInt8) × List Token) :=
  match tokens with
  | [] => .error failure
  | t :: _ =>
    match t.kind with
    | .directive _ | .documentStart => do
      let (handles, tokens) ← readDirectives failure false [] tokens
      match tokens with
      | ⟨.documentStart, _, _⟩ :: rest => return (handles, rest)
      | t :: _ => failAt .noDocumentStart t.start
      | [] => .error failure
    | _ => .ok (standardHandles, tokens)

/-- Whether nothing but ends of documents is left. -/
def isOver : List Token → Bool
  | [] => false
  | t :: ts =>
    match t.kind with
    | .documentEnd => isOver ts
    | .streamEnd => true
    | _ => false

/-! ## Loading -/

/-- A document that breaks off. -/
def broken (f : Failure) : Document :=
  ⟨[], some (.syntactic f), [], false⟩

/-- The document of events and of the tokens behind them. -/
def ofEvents (events : List (Event × Mark)) (behind : Except Failure (List Token)) : Document :=
  let (items, anchors, unknown) := resolve ⟨[], []⟩ 0 events
  let ending := match behind with
    | .error f => some (.syntactic f)
    | .ok _ => none
  let further := match behind with
    | .ok (⟨.documentEnd, _, _⟩ :: rest) => !isOver rest
    | .ok tokens => !isOver tokens
    | .error _ => false
  ⟨items, unknown <|> ending, anchors.targets, further⟩

/-- The first document of some tokens with a failure behind them. -/
def ofTokens (tokens : List Token) (failure : Failure) : Document :=
  match tokens with
  | ⟨.streamEnd, place, _⟩ :: _ => ⟨[(.void, place)], none, [], false⟩
  | ⟨.documentEnd, place, _⟩ :: _ =>
    broken (.syntactic .noContent place (some (.blockNode, place)))
  | _ =>
    match readStart failure tokens with
    | .error f => broken f
    | .ok (_, []) => broken failure
    | .ok (handles, t :: ts) =>
      let (events, behind) :=
        if endsBefore t.kind then ([(Event.empty, t.start)], .ok (t :: ts))
        else (Machine.mk (t :: ts) failure [.node true false] [] handles).run
          (4 * ts.length + 16)
      ofEvents events (match behind with
        | .ok [] => .error failure
        | other => other)

/-- The text without a mark of its byte order in front. -/
def dropByteOrderMark : List Char → List Char
  | '\ufeff' :: cs => cs
  | cs => cs

/-- The first document of a text. -/
def load (text : String) : Document :=
  let cs := text.toList
  match findForbidden 0 cs with
  | some offset => broken (.character offset)
  | none =>
    let (tokens, failure) := Token.scan (dropByteOrderMark cs)
    ofTokens tokens (failure.getD (.syntactic .unfinished .start none))

end Document

end AttributeRegistry.Yaml
