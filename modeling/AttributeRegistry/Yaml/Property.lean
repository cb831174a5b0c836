import AttributeRegistry.Text.Hex
import AttributeRegistry.Yaml.Cursor

/-!
# Anchors, tags and directives of YAML

The names a node can carry, and the directives in front of a document. A tag is kept as a handle and
a suffix until the directives in force say what the handle stands for; a handle is empty for a tag
that is written in full.

Tags are bytes: they can be escaped one by one, and need not be text together. A zero byte ends a
tag.
-/

namespace AttributeRegistry.Yaml

/-- A tag as it is written. -/
structure RawTag where
  handle : List Char
  suffix : List UInt8
deriving DecidableEq, Repr

/-- A directive in front of a document. -/
inductive Directive where
  | version (major minor : Nat)
  | tag (handle : List Char) (uri : List UInt8)
deriving DecidableEq, Repr

/-- The name behind the indicator of an anchor or an alias. -/
def readName (activity : Activity) (cur : Cursor) : Except Failure (List Char × Cursor) :=
  let since := cur.mark
  let (name, cur) := (cur.skip 1).takeWhile isNameChar
  let ended := match cur.rest with
    | c :: _ => atGap cur.rest || "?:,]\x7d%@`".toList.contains c
    | [] => true
  if name = [] || !ended then failWhile activity since .noName cur.mark else .ok (name, cur)

/-! ## Tags -/

/-- The bytes of ASCII characters. -/
def octets (cs : List Char) : List UInt8 :=
  cs.map Char.toUInt8

/-- One escaped byte of a tag. -/
def escapedOctet (activity : Activity) (since : Mark) (cur : Cursor) :
    Except Failure (UInt8 × Cursor) :=
  match cur.rest with
  | '%' :: a :: b :: _ =>
    match Text.hexNumber? [a, b] with
    | some n => .ok (n.toUInt8, cur.skip 3)
    | none => failWhile activity since .noUriEscape cur.mark
  | _ => failWhile activity since .noUriEscape cur.mark

/-- Some escaped bytes that follow the first one of a character. -/
def trailingOctets (activity : Activity) (since : Mark) :
    Nat → Cursor → Except Failure (List UInt8 × Cursor)
  | 0, cur => .ok ([], cur)
  | count + 1, cur => do
    let (octet, next) ← escapedOctet activity since cur
    if octet / 64 ≠ 2 then failWhile activity since .trailingOctet cur.mark
    else
      let (more, cur) ← trailingOctets activity since count next
      return (octet :: more, cur)

/-- How many bytes follow the first one of a character. -/
def trailing? (octet : UInt8) : Option Nat :=
  if octet < 0x80 then some 0
  else if octet / 32 = 6 then some 1
  else if octet / 16 = 14 then some 2
  else if octet / 8 = 30 then some 3
  else none

/-- Escaped bytes that are shaped like a character. Whether they are one does not matter. -/
def escapedOctets (activity : Activity) (since : Mark) (cur : Cursor) :
    Except Failure (List UInt8 × Cursor) := do
  let (octet, next) ← escapedOctet activity since cur
  match trailing? octet with
  | none => failWhile activity since .leadingOctet cur.mark
  | some count =>
    let (more, cur) ← trailingOctets activity since count next
    return (octet :: more, cur)

/-- The characters of a tag; some only inside angle brackets. -/
def isUriChar (verbatim : Bool) (c : Char) : Bool :=
  isNameChar c || ";/?:@&=+$.!~*'()%".toList.contains c || (verbatim && ",[]".toList.contains c)

/-- The bytes of a tag, escaped or not. -/
def uriOctets (activity : Activity) (verbatim : Bool) (since : Mark) :
    Nat → Cursor → Except Failure (List UInt8 × Cursor)
  | 0, cur => .ok ([], cur)
  | steps + 1, cur =>
    match cur.rest with
    | [] => .ok ([], cur)
    | c :: _ =>
      if !isUriChar verbatim c then .ok ([], cur)
      else do
        let (bs, cur) ←
          if c = '%' then escapedOctets activity since cur else pure (octets [c], cur.skip 1)
        let (more, cur) ← uriOctets activity verbatim since steps cur
        return (bs ++ more, cur)

/-- A tag or its suffix; `begun` says whether part of it was read already. -/
def readUri (activity : Activity) (verbatim begun : Bool) (since : Mark) (cur : Cursor) :
    Except Failure (List UInt8 × Cursor) := do
  let (uri, cur) ← uriOctets activity verbatim since cur.rest.length cur
  if uri = [] && !begun then failWhile activity since .noUri cur.mark
  return (uri.takeWhile (· ≠ 0), cur)

/-- An exclamation mark, name characters, and a second exclamation mark if there is one. -/
def readHandle (activity : Activity) (since : Mark) (cur : Cursor) :
    Except Failure (List Char × Cursor) :=
  match cur.rest with
  | '!' :: _ =>
    let (name, cur) := (cur.skip 1).takeWhile isNameChar
    match cur.rest with
    | '!' :: _ => .ok ('!' :: name ++ ['!'], cur.skip 1)
    | _ => .ok ('!' :: name, cur)
  | _ => failWhile activity since .noBang cur.mark

/-- A tag. -/
def readTag (flow : Bool) (cur : Cursor) : Except Failure (RawTag × Cursor) := do
  let since := cur.mark
  let (tag, cur) ←
    match cur.rest with
    | _ :: '<' :: _ => do
      let (uri, cur) ← readUri .tagUri true false since (cur.skip 2)
      if cur.rest.head? = some '>' then pure (RawTag.mk [] uri, cur.skip 1)
      else failWhile .tag since .noClosingAngle cur.mark
    | _ => do
      let (handle, cur) ← readHandle .tag since cur
      if 1 < handle.length && handle.getLast? = some '!' then
        let (suffix, cur) ← readUri .tagUri false false since cur
        pure (RawTag.mk handle suffix, cur)
      else
        let (more, cur) ← readUri .tagUri false true since cur
        let suffix := octets (handle.drop 1) ++ more
        pure (if suffix = [] then RawTag.mk [] (octets ['!']) else RawTag.mk ['!'] suffix, cur)
  if atGap cur.rest || (flow && cur.rest.head? = some ',') then return (tag, cur)
  else failWhile .tag since .noSpaceOrBreak cur.mark

/-! ## Directives -/

/-- A number of a version directive. -/
def readVersionNumber (since : Mark) (cur : Cursor) : Except Failure (Nat × Cursor) :=
  let (digits, behind) := cur.takeWhile Char.isDigit
  if 9 < digits.length then failWhile .versionDirective since .longVersionNumber (cur.mark.ahead 9)
  else if digits = [] then failWhile .versionDirective since .noVersionNumber cur.mark
  else .ok (digits.foldl (fun n c => 10 * n + (c.toNat - 0x30)) 0, behind)

/-- What follows the name of a version directive. -/
def readVersion (since : Mark) (cur : Cursor) : Except Failure (Directive × Cursor) := do
  let (major, cur) ← readVersionNumber since cur.skipBlanks
  if cur.rest.head? ≠ some '.' then failWhile .versionDirective since .noVersionDot cur.mark
  let (minor, cur) ← readVersionNumber since (cur.skip 1)
  return (.version major minor, cur)

/-- What follows the name of a tag directive. -/
def readTagDirective (since : Mark) (cur : Cursor) : Except Failure (Directive × Cursor) := do
  let (handle, cur) ← readHandle .tagDirectiveHandle since cur.skipBlanks
  if handle ≠ ['!'] && !(1 < handle.length && handle.getLast? = some '!') then
    failWhile .tagDirectiveEnd since .noBang cur.mark
  if !(cur.rest.head?.any isBlank) then failWhile .tagDirective since .noSpace cur.mark
  let (uri, cur) ← readUri .tagDirectiveUri true false since cur.skipBlanks
  if !atGap cur.rest then failWhile .tagDirective since .noSpaceOrBreak cur.mark
  return (.tag handle uri, cur)

/-- A directive, up to the beginning of the next line. -/
def readDirective (cur : Cursor) : Except Failure (Directive × Cursor) := do
  let since := cur.mark
  let (name, cur) := (cur.skip 1).takeWhile isNameChar
  if name = [] then failWhile .directive since .noDirectiveName cur.mark
  if !atGap cur.rest then failWhile .directive since .directiveNameChar cur.mark
  let (directive, cur) ←
    if name = "YAML".toList then readVersion since cur
    else if name = "TAG".toList then readTagDirective since cur
    else failWhile .directive since .unknownDirective cur.mark
  let cur := cur.skipComment
  if !atLineEnd cur.rest then failWhile .directive since .lineNotEnded cur.mark
  return (directive, cur.takeBreak.2)

end AttributeRegistry.Yaml
