import AttributeRegistry.Settings.Load

/-!
# The order in which settings are taken

The entries of a layer are in no order, nor are those of the tables in it: whoever takes them may begin
with any of them. To take a layer is to make some assignments, each at the place that names lead to
(`assignments`); an order of taking it is an order of these. A layer that names each of its places once
leaves no choice (`NamedOnce`).
-/

namespace AttributeRegistry

namespace Setting

/-- What is done at one place: the names that lead to it, and what is there after what was. -/
structure Assignment where
  path : List String
  write : Option Setting → Setting

/-- Changes what is at the end of some names; whatever is no table on the way becomes one. -/
def alter (write : Option Setting → Setting) : List String → Option Setting → Setting
  | [], part => write part
  | name :: path, part =>
    let t := part.getD empty
    t.set name (alter write path (t.get? name))

namespace Assignment

/-- Makes an assignment. -/
def apply (t : Setting) (a : Assignment) : Setting :=
  alter a.write a.path (some t)

/-- The same below a name. -/
def under (name : String) (a : Assignment) : Assignment :=
  { a with path := name :: a.path }

/-- Two assignments are at different places, neither of which is inside the other one. -/
def Apart (a b : Assignment) : Prop :=
  ¬ a.path <+: b.path ∧ ¬ b.path <+: a.path

end Assignment

mutual

/-- The assignments a value under a name stands for. A table without entries is there, at least. -/
def assigning (name : String) : Setting → List Assignment
  | table _ es =>
    if es.isEmpty then [⟨[fold name], fun part => part.getD empty⟩]
    else (assigningAll es).map (Assignment.under (fold name))
  | v => [⟨[fold name], fun _ => v⟩]

/-- The assignments the entries of a table stand for. -/
def assigningAll : List (String × Setting) → List Assignment
  | [] => []
  | (name, v) :: es => assigning name v ++ assigningAll es

end

/-- The assignments a value where some steps and a last one lead stands for. A list is one place,
whichever item of it is meant. -/
def assigningAt : List Step → Step → Setting → List Assignment
  | [], .name s, v => assigning s v
  | .name s :: steps, last, v => (assigningAt steps last v).map (Assignment.under (fold s))
  | steps, last, v => [⟨[], fun part => (part.getD absent).putAt steps last v⟩]

/-- The assignments a layer stands for. -/
def assignments (layer : List (String × Setting)) : List Assignment :=
  layer.flatMap fun (name, v) =>
    match steps? name with
    | some (steps, last) => assigningAt steps last v
    | none => assigning name v

/-- A layer names each of its places once, and none inside another one. -/
def NamedOnce (layer : List (String × Setting)) : Prop :=
  (assignments layer).Pairwise Assignment.Apart

/-- What some layers make of a value, one after the other, each taken in some order. -/
inductive Makes : Setting → List (List (String × Setting)) → Setting → Prop
  | done {t : Setting} : Makes t [] t
  | layer {t u : Setting} {layer : List (String × Setting)} {order : List Assignment}
    {layers : List (List (String × Setting))} (horder : order.Perm (assignments layer))
    (h : Makes (order.foldl Assignment.apply t) layers u) : Makes t (layer :: layers) u

end Setting

namespace Workspace

open Setting

/-- No layer names a place twice. -/
def NamedOnce (w : Workspace) (named : Option String) : Prop :=
  ∀ layers, w.fileLayers named = .ok layers →
    ∀ layer ∈ layers ++ [w.environmentLayer], Setting.NamedOnce layer

end Workspace

end AttributeRegistry
