import ScreenForms.Proofs.CodeLines
import ScreenForms.Proofs.Literals

/-!
# Literals of classified lines

Lines are cut up by words, blanks and keywords before any of their parts is read as an expression.
The parts that a line is written from have the literals of the whole line, in order
(`keeps_read`). Exceptions are the literals among the targets of a store and those behind
the message of a wait, which no part holds (`Line.Drops`), and counted loops and stores whose
keyword stands in a literal, which are cut there (`Line.isCut`).
-/

namespace ScreenForms.Code

open Text

variable {cs ds rest before : List Char} {ls : List (List Char)} {word : String}

/-! ## What stands behind plain text -/

/-- What stands in a text behind some text without quotation marks. -/
def Behind (cs rest : List Char) : Prop := ∃ lead, Plain lead ∧ cs = lead ++ rest

namespace Behind

theorem refl (cs : List Char) : Behind cs cs := ⟨[], by simp [Plain], rfl⟩

theorem trans (h : Behind cs ds) (h' : Behind ds rest) : Behind cs rest := by
  obtain ⟨lead, hlead, rfl⟩ := h
  obtain ⟨lead', hlead', rfl⟩ := h'
  exact ⟨lead ++ lead', hlead.append hlead', (List.append_assoc _ _ _).symm⟩

/-- What stands behind plain text is an end of the whole text. -/
theorem isSuffix (h : Behind cs rest) : rest <:+ cs := by
  obtain ⟨lead, -, rfl⟩ := h
  exact List.suffix_append lead rest

/-- No literal begins in plain text, so what stands behind it has all literals of the whole. -/
theorem hasLiterals (h : Behind cs rest) (hcs : HasLiterals cs ls) : HasLiterals rest ls := by
  obtain ⟨lead, hlead, rfl⟩ := h
  exact hcs.of_plain_append hlead

/-- And the whole is plain if what stands behind is. -/
theorem plain (h : Behind cs rest) (hrest : Plain rest) : Plain cs := by
  obtain ⟨lead, hlead, rfl⟩ := h
  exact hlead.append hrest

theorem cons {c : Char} (hc : isQuote c = false) (h : Behind cs rest) : Behind (c :: cs) rest := by
  obtain ⟨lead, hlead, rfl⟩ := h
  exact ⟨c :: lead, List.forall_mem_cons.mpr ⟨hc, hlead⟩, rfl⟩

/-- Characters are dropped from the front without a literal being lost if quotes are not among
them. -/
theorem dropWhile {p : Char → Bool} (hp : p '"' = false ∧ p '\'' = false) (cs : List Char) :
    Behind cs (cs.dropWhile p) :=
  ⟨cs.takeWhile p, plain_takeWhile hp cs, List.takeWhile_append_dropWhile.symm⟩

end Behind

/-! ## Keywords and blanks -/

/-- The words of a wait behind a leading word `WINDOW`. -/
def waitWords (cs : List Char) : List (List Char) :=
  match words cs with
  | first :: rest => if upper first = "WINDOW".toList then rest else first :: rest
  | [] => []

/-- Whether a word ends the message of a wait. -/
def endsMessage (w : List Char) : Bool := String.ofList (upper w) ∈ waitEnds

/-- The words of a wait that are no part of its message. -/
def waitTail (cs : List Char) : List (List Char) :=
  (waitWords cs).dropWhile fun w => !endsMessage w

/-- The texts of a line that are read as expressions or statements and may hold literals. -/
def Line.texts : Line → List (List Char)
  | .ifLine text | .elseIfLine text | .caseLine text | .doWhile text | .returnLine text
  | .wait text | .print text | .statement text => [text]
  | .forLine _ first last step => first :: last :: step.toList
  | .forEachLine _ collection => [collection]
  | .store value _ => [value]
  | .call _ arguments => (splitTopLevel ',' arguments).map trim
  | _ => []

/-- Lines that continue or close a block. -/
def Line.continues : Line → Bool
  | .elseIfLine _ | .elseLine | .endIf | .caseLine _ | .otherwise | .endCase | .endFor | .endDo =>
    true
  | _ => false

/-- The literals of a line that no text of it holds. -/
def Line.Drops (code : List Char) (dropped : List (List Char)) : Line → Prop
  | .store _ targets =>
    ∃ rest, rest <:+ code ∧ targets = declaredNames rest ∧ HasLiterals rest dropped
  | .wait _ => ∃ rest, tailOf? "wait" code = some rest ∧ HaveLiterals (waitTail rest) dropped
  | _ => dropped = []

/-- The texts of a line have the literals of the line, but for those that it drops. -/
def Line.Keeps (code : List Char) (ls : List (List Char)) (line : Line) : Prop :=
  ∃ kept dropped, ls = kept ++ dropped ∧ HaveLiterals line.texts kept ∧ line.Drops code dropped

/-- A line that drops nothing keeps its literals where the texts in it have them all. -/
theorem Line.Keeps.of_all {line : Line} (h : HaveLiterals line.texts ls)
    (hdrops : line.Drops cs []) : line.Keeps cs ls :=
  ⟨ls, [], (List.append_nil ls).symm, h, hdrops⟩

end ScreenForms.Code
