import AttributeRegistry.Toml.Date
import AttributeRegistry.Toml.Table
import AttributeRegistry.Toml.Writer

/-!
# Keys and values of TOML

Arrays may spread over lines and end with a comma; tables between braces may do neither. Both nest at
most 79 deep.
-/

namespace AttributeRegistry.Toml

/-- How deep arrays and tables between braces may nest, and how many parts a key may have. -/
def maxDepth : Nat := 79

/-! ## Lists -/

/-- What follows behind the first of several things with separators between them. A separator that
nothing follows is left alone. -/
def following {α : Type} (sep : Char) (read : Reader α) (cs : List Char) :
    Except Failure (List α × List Char) :=
  match cs with
  | [] => .ok ([], [])
  | c :: after =>
    if c = sep then
      match read after with
      | .ok (a, rest) =>
        if rest.length ≤ after.length then do
          let (as, rest) ← following sep read rest
          return (a :: as, rest)
        else .ok ([], cs)
      | .error f => if f.committed then .error f else .ok ([], cs)
    else .ok ([], cs)
termination_by cs.length

/-- One thing or more, with separators between them. -/
def separated {α : Type} (sep : Char) (read : Reader α) : Reader (List α) := fun cs => do
  let (a, rest) ← read cs
  let (as, rest) ← following sep read rest
  return (a :: as, rest)

/-! ## Keys -/

/-- A part of a key. -/
def keyPart : Reader Key := fun cs =>
  let start := skipBlanks cs
  match start with
  | [] => refuse []
  | c :: _ =>
    if c = '"' || c = '\'' then do
      let (name, rest) ← oneLine start
      return (⟨String.ofList name, ⟨start, rest⟩⟩, skipBlanks rest)
    else
      let name := start.takeWhile isBareKeyChar
      let rest := start.dropWhile isBareKeyChar
      if name.isEmpty then refuse start
      else .ok (⟨String.ofList name, ⟨start, rest⟩⟩, skipBlanks rest)

/-- A key: the parts in front, and the last one. -/
def key : Reader (List Key × Key) :=
  check
    (fun ks =>
      match ks.getLast? with
      | some last =>
        if ks.length ≤ maxDepth then .ok (ks.dropLast, last) else .error Clash.tooDeep.message
      | none => .error Clash.tooDeep.message)
    fun cs => labeled "key" (separated '.' keyPart cs)

/-- The sign between a key and its value. -/
def equals (cs : List Char) : Except Failure (List Char) :=
  match cs with
  | '=' :: rest => .ok rest
  | rest => expecting [backquoted ".", backquoted "="] (refuse rest)

/-! ## Values -/

/-- A failure where a value has to begin. -/
def noValue {α : Type} (x : Except Failure α) : Except Failure α :=
  expecting [backquoted "\"", backquoted "'"] (labeled "string" x)

/-- A word that stands for a value. -/
def word (w : String) (v : Scalar) : Reader Scalar := fun cs =>
  match Text.dropBeginning? w.toList cs with
  | some rest => .ok (v, rest)
  | none => noValue (refuse cs)

/-- A value without parts that begins with a character. -/
def scalar (c : Char) (cs : List Char) : Except Failure (Scalar × List Char) :=
  if c = '"' || c = '\'' then do
    let (t, rest) ← text cs
    return (.text (String.ofList t), rest)
  else if c = '+' || c = '-' || c.isDigit then
    orElse (date cs) fun () => orElse (float cs) fun () => integer cs
  else if c = '_' then expecting ["leading digit"] (integer cs)
  else if c = '.' then expecting ["leading digit"] (float cs)
  else if c = 't' then commit (word "true" (.flag true) cs)
  else if c = 'f' then commit (word "false" (.flag false) cs)
  else if c = 'i' then word "inf" (.float (1 / 0)) cs
  else if c = 'n' then word "nan" (.float (0 / 0)) cs
  else noValue (refuse cs)

/-- An item of an array. -/
def arrayItem (value : Reader Item) : Reader Item := fun cs => do
  let (i, rest) ← value (← skipGap false cs)
  return (i, ← skipGap false rest)

/-- The items of an array, and the text in front of its end. -/
def arrayItems (value : Reader Item) : Reader (List Item)
  | ']' :: rest => .ok ([], ']' :: rest)
  | cs => do
    let (items, rest) ← optionally (separated ',' (arrayItem value)) cs
    let rest := match items, rest with
      | some _, ',' :: rest => rest
      | _, rest => rest
    return (items.getD [], ← skipGap false rest)

/-- An array, behind its opening bracket. -/
def array (value : Reader Item) (start cs : List Char) : Except Failure (Item × List Char) := do
  let (items, rest) ← commit (arrayItems value cs)
  match rest with
  | ']' :: rest => return (.array items ⟨start, rest⟩, rest)
  | rest => expecting [backquoted "]"] (labeled "array" (commit (refuse rest)))

/-- A key and its value between braces. -/
def inlinePair (value : Reader Item) : Reader ((List Key × Key) × Item) := fun cs => do
  let (k, rest) ← key cs
  commit do
    let (i, rest) ← value (skipBlanks (← equals rest))
    return ((k, i), skipBlanks rest)

/-- The table of some keys and values between braces. -/
def inlineTable (span : Span) (pairs : List ((List Key × Key) × Item)) : Except Clash Table :=
  pairs.foldlM (fun t ((path, k), i) => t.addAt true none path k i) (.mk .inline (some span) [])

/-- A table between braces, behind the opening one. -/
def braces (value : Reader Item) (start cs : List Char) : Except Failure (Item × List Char) := do
  let (pairs, rest) ← commit (optionally (separated ',' (inlinePair value)) cs)
  let rest := skipBlanks rest
  match inlineTable ⟨start, rest.drop 1⟩ (pairs.getD []) with
  | .error clash => commit (refuseFor clash.message cs)
  | .ok t =>
    match rest with
    | '\x7d' :: rest => return (.table t, rest)
    | rest => expecting [backquoted "\x7d"] (labeled "inline table" (commit (refuse rest)))

/-- A value in which arrays and tables nest at most to some depth. -/
def value (depth : Nat) : Reader Item := fun cs =>
  match cs with
  | [] => refuse []
  | c :: rest =>
    if c = '[' || c = '\x7b' then
      match depth with
      | 0 => commit (refuseFor Clash.tooDeep.message cs)
      | depth + 1 => if c = '[' then array (value depth) cs rest else braces (value depth) cs rest
    else do
      let (v, rest) ← scalar c cs
      return (.scalar v ⟨cs, rest⟩, rest)

end AttributeRegistry.Toml
