import ScreenForms.Toml.Basic

/-!
# TOML tables

Tables under construction. A table remembers how it came to be, for that decides how it may still
grow: no value may be set twice, a key with dots does not enter a table with a header, and it ends
in a table that such keys made.
-/

namespace ScreenForms.Toml

/-- How a table came to be. -/
inductive Origin where
  /-- on the way to another table -/
  | passed
  /-- by its own header -/
  | header
  /-- by a key with dots -/
  | dotted
  deriving DecidableEq, Repr

/-- A node of the document. -/
inductive Node where
  | value (v : Toml)
  | table (origin : Origin) (members : List (String × Node))
  /-- an array of tables, the latest first -/
  | tables (latest : List (String × Node)) (earlier : List Toml)

/-- The node of a key. -/
def find? (key : String) (members : List (String × Node)) : Option Node :=
  (members.find? fun m => m.1 == key).map Prod.snd

/-- Sets the node of a key, at its place when there is one already. -/
def put (key : String) (node : Node) (members : List (String × Node)) : List (String × Node) :=
  if members.any fun m => m.1 == key then
    members.map fun m => if m.1 == key then (key, node) else m
  else members ++ [(key, node)]

mutual

/-- The value that a node stands for. -/
def Node.toValue : Node → Toml
  | .value v => v
  | .table _ members => .table (memberValues members)
  | .tables latest earlier => .arr (earlier.reverse ++ [.table (memberValues latest)])

/-- The members of a table as values. -/
def memberValues : List (String × Node) → List (String × Toml)
  | [] => []
  | (key, node) :: rest => (key, node.toValue) :: memberValues rest

end

/-- Sets a value at a path below a table, which may be given values itself when it `isOpen`. The
parts of the path before the last lead through tables without headers and through the latest
tables of arrays; where there is no table yet, one is made. -/
def assignBelow? (v : Toml) (isOpen : Bool) :
    List String → List (String × Node) → Option (List (String × Node))
  | [], _ => none
  | [key], members =>
    if isOpen && (find? key members).isNone then some (put key (.value v) members) else none
  | key :: path, members =>
    match find? key members with
    | none =>
      (assignBelow? v true path []).map fun inner => put key (.table .dotted inner) members
    | some (.table .header _) => none
    | some (.table origin inner) =>
      (assignBelow? v (origin == .dotted) path inner).map fun inner =>
        put key (.table origin inner) members
    | some (.tables latest earlier) =>
      (assignBelow? v false path latest).map fun latest => put key (.tables latest earlier) members
    | some (.value _) => none

/-- Sets a value in a table. -/
def assign? (v : Toml) (path : List String) (members : List (String × Node)) :
    Option (List (String × Node)) :=
  assignBelow? v true path members

end ScreenForms.Toml
