import AttributeRegistry.Toml.Item

/-!
# Building tables

Tables grow while a text is read. A key with periods and a header both lead down a path of keys, and
make the tables on the way that are not there yet. What they may lead through differs: keys do not
extend a table that has a header of its own, headers do not extend a value, and nothing extends a
table between braces.
-/

namespace AttributeRegistry.Toml

/-- Why a table cannot be extended. -/
inductive Clash where
  /-- The key is taken; `within` is the path of the table, where it is named. -/
  | duplicate (key : String) (within : Option (List String))
  /-- The path leads through a value that is no table. -/
  | throughValue (path : List String) (kind : String)
  | tooDeep

/-- The wording of a clash. -/
def Clash.message : Clash → String
  | .duplicate key none => "duplicate key " ++ backquoted key
  | .duplicate key (some []) => "duplicate key " ++ backquoted key ++ " in document root"
  | .duplicate key (some path) =>
    "duplicate key " ++ backquoted key ++ " in table " ++ backquoted (String.intercalate "." path)
  | .throughValue path kind =>
    "dotted key " ++ backquoted (String.intercalate "." path)
      ++ " attempted to extend non-table type (" ++ kind ++ ")"
  | .tooDeep => "recursion limit exceeded"

namespace Table

/-- A table without entries that no single part of the text stands for. -/
def empty (kind : TableKind) : Table :=
  mk kind none []

/-- The entry of a name. -/
def find? (t : Table) (name : String) : Option Item :=
  (t.entries.find? fun e => e.1.name = name).map Prod.snd

/-- A table without the entry of a name. -/
def erase (t : Table) (name : String) : Table :=
  t.withEntries (t.entries.filter fun e => e.1.name ≠ name)

/-- Exchanges the value of a key among some entries, or adds it behind them. -/
def put (k : Key) (i : Item) : List (Key × Item) → List (Key × Item)
  | [] => [(k, i)]
  | (k', i') :: es => if k'.name = k.name then (k', i) :: es else (k', i') :: put k i es

/-- Exchanges the value of a key, or adds it behind the other entries. -/
def insert (t : Table) (k : Key) (i : Item) : Table :=
  t.withEntries (put k i t.entries)

/-- Whether keys with periods may lead through a table; `inline` tells whether they stand between
braces. -/
def extensible (t : Table) (inline : Bool) : Bool :=
  t.kind = .dotted || (!inline && t.kind = .implied)

/-- Changes the table at the end of a path of keys with periods. -/
def changeDotted (inline : Bool) (change : Table → Except Clash Table) (seen : List Key) :
    List Key → Table → Except Clash Table
  | [], t => change t
  | k :: ks, t => do
    let path := seen ++ [k]
    match t.find? k.name with
    | none => return t.insert k (.table (← changeDotted inline change path ks (empty .dotted)))
    | some (.table sub) =>
      if sub.kind = .inline && !inline then
        throw (.throughValue (path.map Key.name) (Item.table sub).kindName)
      else if sub.extensible inline then
        return t.insert k (.table (← changeDotted inline change path ks sub))
      else throw (.duplicate k.name none)
    | some (.tables ts) =>
      let last ← changeDotted inline change path ks (ts.getLastD (empty .header))
      return t.insert k (.tables (ts.dropLast ++ [last]))
    | some i => throw (.throughValue (path.map Key.name) i.kindName)

/-- Changes the table at the end of a path of keys in a header, and gives what the change gives. -/
def changeUnder {α : Type} (change : Table → Except Clash (α × Table)) (seen : List Key) :
    List Key → Table → Except Clash (α × Table)
  | [], t => change t
  | k :: ks, t => do
    let path := seen ++ [k]
    match t.find? k.name with
    | none =>
      let (a, sub) ← changeUnder change path ks (empty .implied)
      return (a, t.insert k (.table sub))
    | some (.table sub) =>
      if sub.kind = .inline then
        throw (.throughValue (path.map Key.name) (Item.table sub).kindName)
      let (a, sub) ← changeUnder change path ks sub
      return (a, t.insert k (.table sub))
    | some (.tables ts) =>
      let (a, last) ← changeUnder change path ks (ts.getLastD (empty .header))
      return (a, t.insert k (.tables (ts.dropLast ++ [last])))
    | some i => throw (.throughValue (path.map Key.name) i.kindName)

/-- Adds an entry to a table. A key with periods may only add to a table made by such a key; `within`
is the path named when the key is taken. -/
def add (within : Option (List String)) (path : List Key) (k : Key) (i : Item) (t : Table) :
    Except Clash Table :=
  if !path.isEmpty && t.kind ≠ .dotted then throw (.duplicate k.name none)
  else if (t.find? k.name).isSome then throw (.duplicate k.name within)
  else return t.insert k i

/-- Adds a value under a key with periods. -/
def addAt (inline : Bool) (within : Option (List String)) (path : List Key) (k : Key) (i : Item)
    (t : Table) : Except Clash Table :=
  changeDotted inline (add within path k i) [] path t

end Table

end AttributeRegistry.Toml
