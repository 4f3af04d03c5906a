import ScreenForms.Form.Document
import ScreenForms.Record.Reader

/-!
# Names and ids

While a document is built, a registry knows the names in use, up to ASCII case. A name that is
taken is made unique with the id of its control; a control without a name gets the first free
number of its kind. Controls that no record stands for get ids from a sequence.
-/

namespace ScreenForms

/-- The names in use, in lower case. -/
structure NameRegistry where
  used : List String := []
  deriving DecidableEq, Repr, Inhabited

namespace NameRegistry

/-- The form in which names are compared. -/
abbrev fold (name : String) : String := Text.onChars Text.lower name

/-- The registry of the names of a document. -/
def ofDocument (doc : Document) : NameRegistry := ⟨doc.usedNames⟩

/-- Whether a name is in use. -/
def contains (r : NameRegistry) (name : String) : Bool := fold name ∈ r.used

/-- Marks a name as used. -/
def reserve (r : NameRegistry) (name : String) : NameRegistry := ⟨fold name :: r.used⟩

/-- The name itself when it is free and not blank, else the name followed by the id. -/
def choose (r : NameRegistry) (name : String) (id : ControlId) : String :=
  if (Text.trim name.toList).isEmpty || r.contains name then name ++ "_" ++ id else name

/-- Chooses a name and marks it as used. -/
def claim (r : NameRegistry) (name : String) (id : ControlId) : String × NameRegistry :=
  let chosen := r.choose name id
  (chosen, r.reserve chosen)

end NameRegistry

/-- The last number used in default names of each kind. -/
structure NameCounter where
  last : ControlKind → Nat := fun _ => 0

namespace NameCounter

/-- The default name of a kind with a number. -/
def nameAt (kind : ControlKind) (n : Nat) : String := kind.defaultNameStem ++ Decimal.intText n

/-- The least number above `n` whose name is free, sought among the next `fuel` numbers. -/
def firstFree (kind : ControlKind) (names : NameRegistry) : Nat → Nat → Nat
  | 0, n => n + 1
  | fuel + 1, n =>
    if names.contains (nameAt kind (n + 1)) then firstFree kind names fuel (n + 1) else n + 1

/-- The next default name, marked as used. As there are only so many names in use, one of the
next numbers is free. -/
def next (c : NameCounter) (kind : ControlKind) (names : NameRegistry) :
    String × NameCounter × NameRegistry :=
  let n := firstFree kind names names.used.length (c.last kind)
  let name := nameAt kind n
  (name, ⟨fun k => if k = kind then n else c.last k⟩, names.reserve name)

end NameCounter

/-- A sequence of ids for controls that no record stands for. -/
structure IdSequence where
  salt : String
  /-- the contents that ids were made from, the latest first -/
  issued : List (List UInt8) := []
  deriving DecidableEq, Repr, Inhabited

namespace IdSequence

/-- What the id with a number is made from, given a hint. -/
def contentAt (salt : String) (number : Nat) (hint : String) : List UInt8 :=
  (salt ++ "\x00" ++ Decimal.intText number ++ "\x00" ++ hint).toUTF8.data.toList

/-- What the next id is made from. -/
def content (s : IdSequence) (hint : String) : List UInt8 :=
  contentAt s.salt (s.issued.length + 1) hint

/-- The next id, which also depends on a hint. -/
def next (s : IdSequence) (hint : String) : ControlId × IdSequence :=
  let content := s.content hint
  (contentId content, { s with issued := content :: s.issued })

end IdSequence

end ScreenForms
