import ScreenForms.Text.Delimited
import ScreenForms.Text.Letter
import ScreenForms.Text.Search

/-!
# Lines of legacy code

Continued lines are joined first; then each line is classified by the keywords in it. The words of
a line are found by its ASCII word characters and blanks, and keywords are written in any case.
What is no known construct is a plain statement.
-/

namespace ScreenForms.Code

/-! ## Continued lines -/

/-- What a line adds to the line it belongs to, and whether that line goes on. A semicolon at the
end of a comment does not continue it. -/
def lineContinuation (line : List Char) : List Char × Bool :=
  let bare := Text.trimEnd line
  if (Text.trimStart bare).head? = some '*' then (bare, false)
  else
    match Text.dropTail? [';'] bare with
    | some head => (Text.trimEnd head, true)
    | none => (bare, false)

/-- Joins continued lines, given the line that is still open. -/
def joinFrom : Option (List Char) → List (List Char) → List (List Char)
  | none, [] => []
  | some whole, [] => [whole]
  | whole?, line :: rest =>
    let (part, continues) := lineContinuation line
    let joined := match whole? with
      | none => part
      | some whole => whole ++ ' ' :: Text.trimStart part
    if continues then joinFrom (some joined) rest else joined :: joinFrom none rest

/-- The lines of a body, continued ones joined. -/
def logicalLines (body : String) : List (List Char) := joinFrom none (Text.lines body.toList)

/-- The characters of a body decide what its lines are. -/
theorem logicalLines_of_toList {body : String} {cs : List Char} (h : body.toList = cs) :
    logicalLines body = joinFrom none (Text.lines cs) := by
  rw [logicalLines, h]

/-! ## Classification -/

/-- What a line of code is. -/
inductive Line where
  | blank
  | comment (text : List Char)
  | ifLine (condition : List Char)
  | elseIfLine (condition : List Char)
  | elseLine
  | endIf
  | doCase
  | caseLine (condition : List Char)
  | otherwise
  | endCase
  | forLine (counter first last : List Char) (step : Option (List Char))
  | forEachLine (element collection : List Char)
  | endFor
  | doWhile (condition : List Char)
  | endDo
  | localNames (names : List (List Char))
  | parameters (names : List (List Char))
  | returnLine (value : List Char)
  | wait (message : List Char)
  | release
  | store (value : List Char) (targets : List (List Char))
  | call (name : List Char) (arguments : List Char)
  | print (value : List Char)
  | statement (text : List Char)
  deriving DecidableEq, Repr

/-- ASCII letters, digits and the underscore. -/
def isWordPart (c : Char) : Bool := c.isAlphanum || c == '_'

/-- A word and what follows it, when the word is given in lower case. -/
def wordThen? (word : String) (cs : List Char) : Option (List Char) :=
  if Text.lower (cs.takeWhile isWordPart) = word.toList then some (cs.dropWhile isWordPart)
  else none

/-- What follows one or more ASCII blanks. -/
def blanks? : List Char → Option (List Char)
  | [] => none
  | c :: cs => if Text.isAsciiBlank c then some (cs.dropWhile Text.isAsciiBlank) else none

/-- What follows a word and blanks behind it. -/
def wordAndBlanks? (word : String) (cs : List Char) : Option (List Char) :=
  (wordThen? word cs).bind blanks?

/-- The text behind the blanks behind a word, unless it is empty. -/
def argumentOf? (word : String) (cs : List Char) : Option (List Char) :=
  (wordAndBlanks? word cs).filter fun rest => !rest.isEmpty

/-- The trimmed text behind a word that may stand alone. -/
def tailOf? (word : String) (cs : List Char) : Option (List Char) :=
  (wordThen? word cs).map Text.trim

/-- What stands before a word in lower case at the end of a text, when blanks stand between. -/
def beforeWord? (word : String) (cs : List Char) : Option (List Char) :=
  match Text.dropLeadNoCase? word.toList.reverse cs.reverse with
  | some (c :: before) => if Text.isAsciiBlank c then some before.reverse else none
  | _ => none

/-- The condition behind a word, without the word `THEN` at its end. -/
def conditionOf? (word : String) (cs : List Char) : Option (List Char) :=
  (wordThen? word cs).map fun rest =>
    let condition := rest.dropWhile Text.isAsciiBlank
    Text.trim ((beforeWord? "then" condition).getD condition)

/-- What follows blanks, a word in lower case, blanks and at least one more character. -/
def separator? (word : String) (cs : List Char) : Option (List Char) :=
  ((blanks? cs).bind fun rest =>
    (Text.dropLeadNoCase? word.toList rest).bind blanks?).filter fun rest => !rest.isEmpty

/-- Cuts a text at the first place behind its first character where a word stands between
blanks. -/
def cutAtWord? (word : String) : List Char → Option (List Char × List Char)
  | [] => none
  | c :: cs =>
    match separator? word cs with
    | some rest => some ([c], rest)
    | none => (cutAtWord? word cs).map fun r => (c :: r.1, r.2)

/-- Cuts the text behind a keyword at a word between blanks. The blanks behind the keyword do not
count as text, unless there is no other text before the word and they are enough for both. -/
def cutBehindBlanks? (word : String) (cs : List Char) : Option (List Char × List Char) :=
  match cutAtWord? word (cs.dropWhile Text.isAsciiBlank) with
  | some cut => some cut
  | none =>
    if (cs.drop 1).head?.map Text.isAsciiBlank = some true then
      (separator? word (cs.drop 1)).map fun rest => ([], rest)
    else none

/-- The names that a list declares: the first word of each item, up to a character that cannot
stand in a name, and without the lead of memory variables. -/
def declaredNames (cs : List Char) : List (List Char) :=
  (Text.splitTopLevel ',' cs).filterMap fun item =>
    match Text.blankWords item with
    | [] => none
    | word :: _ =>
      let name := word.takeWhile fun c => Text.isLetterOrNumeral c || c == '_' || c == '.'
      let name := ((Text.dropLead? ['m', '.'] name).orElse fun _ =>
        Text.dropLead? ['M', '.'] name).getD name
      if name.isEmpty then none else some name

/-- The words that end the message of a wait. -/
def waitEnds : List String := ["NOWAIT", "TIMEOUT", "NOCLEAR", "WINDOW", "AT"]

/-- The message of a wait, without a leading word `WINDOW`. -/
def waitMessage (cs : List Char) : List Char :=
  let words := Text.words cs
  let words := match words with
    | first :: rest => if Text.upper first = "WINDOW".toList then rest else words
    | [] => []
  Text.unwords (words.takeWhile fun w => String.ofList (Text.upper w) ∉ waitEnds)

/-- Counter, bounds and step of a counted loop. -/
def forParts? (cs : List Char) : Option Line := do
  let rest ← wordAndBlanks? "for" cs
  let isCounterChar (c : Char) : Bool := isWordPart c || c == '.'
  let counter := rest.takeWhile isCounterChar
  if counter.isEmpty then none
  else
    match (rest.dropWhile isCounterChar).dropWhile Text.isAsciiBlank with
    | '=' :: bounds =>
      let (first, rest) ← cutBehindBlanks? "to" bounds
      match cutAtWord? "step" rest with
      | some (last, step) =>
        some (.forLine counter (Text.trim first) (Text.trim last) (some (Text.trim step)))
      | none => some (.forLine counter (Text.trim first) (Text.trim rest) none)
    | _ => none

/-- Element and collection of a loop over a collection. -/
def forEachParts? (cs : List Char) : Option Line := do
  let rest ← wordAndBlanks? "for" cs
  let rest ← wordAndBlanks? "each" rest
  let element := rest.takeWhile isWordPart
  if element.isEmpty then none
  else
    let rest ← blanks? (rest.dropWhile isWordPart)
    let collection ← argumentOf? "in" rest
    some (.forEachLine element (Text.trim collection))

/-- Value and targets of a store. -/
def storeParts? (cs : List Char) : Option Line := do
  let rest ← wordThen? "store" cs
  let _ ← blanks? rest
  let (value, targets) ← cutBehindBlanks? "to" (rest.drop 1)
  some (.store (Text.trim value) (declaredNames targets))

/-- Name and arguments of a call of a procedure. -/
def callParts? (cs : List Char) : Option Line := do
  let rest ← wordAndBlanks? "do" cs
  let name := rest.takeWhile isWordPart
  if name.isEmpty then none
  else
    match rest.dropWhile isWordPart with
    | [] => some (.call name [])
    | rest => (separator? "with" rest).map fun args => .call name (Text.trim args)

/-- Whether a line closes the form: `RELEASE THISFORM`, or `THISFORM.RELEASE` with or without
empty parentheses. -/
def isReleaseLine (cs : List Char) : Bool :=
  let skip (cs : List Char) : List Char := cs.dropWhile Text.isAsciiBlank
  (wordAndBlanks? "release" cs).map Text.lower == some "thisform".toList ||
    match Text.dropLeadNoCase? "thisform.release".toList cs with
    | none => false
    | some [] => true
    | some rest =>
      match skip rest with
      | '(' :: rest => skip rest == [')']
      | _ => false

/-- Whether the first word of a line is one of the given ones. -/
def startsWithOneOf (words : List String) (cs : List Char) : Bool :=
  String.ofList (Text.lower (cs.takeWhile isWordPart)) ∈ words

/-- Lines that are known by their first words alone, in the order in which they are tried. -/
def blockLine? (cs : List Char) : Option Line :=
  let whole := String.ofList (Text.lower cs)
  ((conditionOf? "elseif" cs).map .elseIfLine).orElse fun _ =>
  ((conditionOf? "if" cs).map .ifLine).orElse fun _ =>
  if whole = "else" then some .elseLine
  else if startsWithOneOf ["endi", "endif"] cs then some .endIf
  else if (wordAndBlanks? "do" cs).map Text.lower = some "case".toList then some .doCase
  else
  ((tailOf? "case" cs).map .caseLine).orElse fun _ =>
  if whole ∈ ["othe", "other", "otherw", "otherwi", "otherwis", "otherwise"] then some .otherwise
  else if startsWithOneOf ["endc", "endca", "endcas", "endcase"] cs then some .endCase
  else
  (forEachParts? cs).orElse fun _ =>
  (forParts? cs).orElse fun _ =>
  if startsWithOneOf ["endfor", "next"] cs then some .endFor
  else
  (((wordAndBlanks? "do" cs).bind (argumentOf? "while")).map fun c =>
    .doWhile (Text.trim c)).orElse fun _ =>
  if startsWithOneOf ["endd", "enddo"] cs then some .endDo else none

/-- Lines that are no part of a block, in the order in which they are tried. -/
def simpleLine? (cs : List Char) : Option Line :=
  ((argumentOf? "local" cs).map fun names => .localNames (declaredNames names)).orElse fun _ =>
  (((argumentOf? "parameters" cs).orElse fun _ => argumentOf? "lparameters" cs).map
    fun names => .parameters (declaredNames names)).orElse fun _ =>
  ((tailOf? "return" cs).map .returnLine).orElse fun _ =>
  if isReleaseLine cs then some .release
  else
  ((tailOf? "wait" cs).map fun rest => .wait (waitMessage rest)).orElse fun _ =>
  (storeParts? cs).orElse fun _ =>
  (callParts? cs).orElse fun _ =>
  match cs with
  | '?' :: '?' :: value => some (.print (Text.trim value))
  | '?' :: value => some (.print (Text.trim value))
  | _ => none

/-- Classifies a line without its remark. -/
def Line.read (code : List Char) : Line :=
  let cs := Text.trim code
  match cs with
  | [] => .blank
  | '#' :: _ => .comment cs
  | _ => ((blockLine? cs).orElse fun _ => simpleLine? cs).getD (.statement cs)

end ScreenForms.Code
