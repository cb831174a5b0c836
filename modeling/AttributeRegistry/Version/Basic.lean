/-!
# Semantic versions

Three numbers below `2^64`, a pre-release and build metadata. The identifiers carry what makes them
valid: a pre-release identifier is a number (written without a leading zero) or a word, which has a
character that is no digit; a build identifier is any non-empty text of identifier characters.

`Version.compare` is the order of the standard, made total by the build metadata: it decides
versions that have the same precedence, none before some.
-/

namespace AttributeRegistry

namespace Version

/-- The characters of identifiers: ASCII letters, ASCII digits and the hyphen. -/
def isIdentifierChar (c : Char) : Bool :=
  c.isAlphanum || c == '-'

/-- Whether a text is a word: identifier characters, not all of them digits. -/
def isWord (cs : List Char) : Bool :=
  cs.all isIdentifierChar && cs.any (fun c => !c.isDigit)

/-- One identifier of a pre-release. -/
inductive PreIdentifier where
  | number (n : Nat)
  | word (cs : List Char) (valid : isWord cs)
deriving DecidableEq, Repr

/-- One identifier of build metadata. -/
structure BuildIdentifier where
  chars : List Char
  valid : chars ≠ [] ∧ chars.all isIdentifierChar
deriving DecidableEq, Repr

end Version

/-- A semantic version. -/
structure Version where
  major : UInt64
  minor : UInt64
  patch : UInt64
  pre : List Version.PreIdentifier
  build : List Version.BuildIdentifier
deriving DecidableEq, Repr

namespace Version

/-- A version without pre-release and build metadata. -/
def release (major minor patch : UInt64) : Version :=
  ⟨major, minor, patch, [], []⟩

/-- The version `0.0.0`. -/
instance : Inhabited Version := ⟨release 0 0 0⟩

/-! ## Order -/

/-- Texts in the order of their characters' code points. -/
def compareText (a b : List Char) : Ordering :=
  List.compareLex compare a b

/-- Numbers come before words; numbers by value, words by their characters. -/
def PreIdentifier.compare : PreIdentifier → PreIdentifier → Ordering
  | .number m, .number n => Ord.compare m n
  | .number _, .word _ _ => .lt
  | .word _ _, .number _ => .gt
  | .word a _, .word b _ => compareText a b

/-- A version with a pre-release comes before the one without; otherwise identifier by identifier. -/
def comparePre : List PreIdentifier → List PreIdentifier → Ordering
  | [], [] => .eq
  | [], _ :: _ => .gt
  | _ :: _, [] => .lt
  | a, b => List.compareLex PreIdentifier.compare a b

/-- The value of a text of digits. -/
def digitsValue (cs : List Char) : Nat :=
  cs.foldl (fun n c => 10 * n + (c.toNat - '0'.toNat)) 0

/-- Digits come before words; digits by value and then by length, words by their characters. -/
def BuildIdentifier.compare (a b : BuildIdentifier) : Ordering :=
  match a.chars.all Char.isDigit, b.chars.all Char.isDigit with
  | true, true =>
    (Ord.compare (digitsValue a.chars) (digitsValue b.chars)).then
      (Ord.compare a.chars.length b.chars.length)
  | true, false => .lt
  | false, true => .gt
  | false, false => compareText a.chars b.chars

/-- The total order of versions. -/
def compare (v w : Version) : Ordering :=
  (Ord.compare v.major w.major).then <|
  (Ord.compare v.minor w.minor).then <|
  (Ord.compare v.patch w.patch).then <|
  (comparePre v.pre w.pre).then <|
  List.compareLex BuildIdentifier.compare v.build w.build

instance : Ord Version := ⟨Version.compare⟩

/-! ## Text -/

/-- Parts with a period between neighbours. -/
def dotted : List String → String
  | [] => ""
  | [part] => part
  | part :: parts => part ++ "." ++ dotted parts

/-- An identifier of a pre-release as text. -/
def PreIdentifier.text : PreIdentifier → String
  | .number n => toString n
  | .word cs _ => String.ofList cs

/-- An identifier of build metadata as text. -/
def BuildIdentifier.text (b : BuildIdentifier) : String :=
  String.ofList b.chars

/-- The pre-release as text, empty if there is none. -/
def preText (v : Version) : String :=
  dotted (v.pre.map PreIdentifier.text)

/-- The build metadata as text, empty if there is none. -/
def buildText (v : Version) : String :=
  dotted (v.build.map BuildIdentifier.text)

/-- A version as text. -/
def text (v : Version) : String :=
  dotted [toString v.major.toNat, toString v.minor.toNat, toString v.patch.toNat]
    ++ (if v.pre = [] then "" else "-" ++ v.preText)
    ++ (if v.build = [] then "" else "+" ++ v.buildText)

end Version

end AttributeRegistry
