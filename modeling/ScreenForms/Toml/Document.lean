import ScreenForms.Toml.Value

/-!
# TOML documents

A document is a sequence of lines, each a table header, an entry or nothing. Entries belong to the
table of the last header above them. No value and no table may be defined twice; a table that only
stands on the way to another may still get a header.
-/

namespace ScreenForms.Toml

/-- A line that says something. -/
inductive Line where
  | table (path : List String)
  | arrayTable (path : List String)
  | entry (path : List String) (value : Toml)
  deriving Repr

/-- Changes the table at a path, making the tables on the way to it. -/
def updateAt? (change : Option Node → Option Node) :
    List String → List (String × Node) → Option (List (String × Node))
  | [], _ => none
  | [key], members => (change (find? key members)).map fun node => put key node members
  | key :: path, members =>
    match find? key members with
    | none => (updateAt? change path []).map fun inner => put key (.table .passed inner) members
    | some (.table origin inner) =>
      (updateAt? change path inner).map fun inner => put key (.table origin inner) members
    | some (.tables latest earlier) =>
      (updateAt? change path latest).map fun latest => put key (.tables latest earlier) members
    | some (.value _) => none

/-- A header defines a table that is new or was only passed. -/
def defineTable : Option Node → Option Node
  | none => some (.table .header [])
  | some (.table .passed members) => some (.table .header members)
  | some _ => none

/-- A header of an array of tables adds a table to it. -/
def addTable : Option Node → Option Node
  | none => some (.tables [] [])
  | some (.tables latest earlier) => some (.tables [] (.table (memberValues latest) :: earlier))
  | some _ => none

/-- Adds an entry to the table a node stands for. -/
def addEntry (path : List String) (v : Toml) : Option Node → Option Node
  | some (.table origin members) => (assign? v path members).map (.table origin)
  | some (.tables latest earlier) =>
    (assign? v path latest).map fun latest => .tables latest earlier
  | _ => none

/-- Takes in one line, given the path of the last header. -/
def step? (state : List String × List (String × Node)) :
    Line → Option (List String × List (String × Node))
  | .table path => (updateAt? defineTable path state.2).map fun members => (path, members)
  | .arrayTable path => (updateAt? addTable path state.2).map fun members => (path, members)
  | .entry path v =>
    if state.1.isEmpty then (assign? v path state.2).map fun members => ([], members)
    else (updateAt? (addEntry path v) state.1 state.2).map fun members => (state.1, members)

/-- One line, the blanks before it already dropped. -/
def line? (fuel : Nat) (cs : List Char) : Option (Line × List Char) :=
  match cs with
  | '[' :: '[' :: rest =>
    match key? fuel rest with
    | some (path, ']' :: ']' :: rest) => some (.arrayTable path, rest)
    | _ => none
  | '[' :: rest =>
    match key? fuel rest with
    | some (path, ']' :: rest) => some (.table path, rest)
    | _ => none
  | cs =>
    match key? fuel cs with
    | some (path, '=' :: rest) =>
      (value? fuel maxDepth (skipLineBlanks rest)).map fun r => (.entry path r.1, r.2)
    | _ => none

/-- The lines that say something. Behind each only blanks and a comment may stand. -/
def lines? : Nat → List Char → Option (List Line)
  | 0, _ => none
  | fuel + 1, cs =>
    match skipLines? fuel cs with
    | none => none
    | some [] => some []
    | some rest =>
      match line? fuel rest with
      | none => none
      | some (line, rest) =>
        match skipComment? (skipLineBlanks rest) with
        | none => none
        | some [] => some [line]
        | some rest =>
          match lineEnd? rest with
          | none => none
          | some rest => (lines? fuel rest).map (line :: ·)

/-- Reads a document as one table. A byte order mark may stand before it. -/
def read? (text : String) : Option Toml := do
  let cs := match text.toList with
    | '\uFEFF' :: cs => cs
    | cs => cs
  let lines ← lines? (2 * cs.length + 4) cs
  let (_, members) ← lines.foldlM step? ([], [])
  some (.table (memberValues members))

end ScreenForms.Toml
