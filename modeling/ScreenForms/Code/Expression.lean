import ScreenForms.Code.Idiom
import ScreenForms.Code.Naming
import ScreenForms.Code.Token
import ScreenForms.Text.Search

/-!
# Expressions and plain statements

Expressions are spelled anew token by token. Names that refer to the form, to the control the code
belongs to or to controls of the form become members of the generated window, and properties of
controls become whatever access the target has. A single equals sign is an equality in tests and
stays as it is elsewhere; in a plain statement the first one outside of brackets is the
assignment, and what stands to its right is read as a test.
-/

namespace ScreenForms.Code

/-- What code is translated for: a target, and the control that owns the code if one does. -/
structure Context where
  target : Target
  owner : Option String := none
  deriving DecidableEq, Repr, Inhabited

/-- A reference to an object with its property, if it ends in a property with a spelling of its
own. -/
structure Reference where
  /-- the whole reference in the target language -/
  text : String
  /-- the object, the property, and whether the object is the form -/
  property : Option (String × PropertyName × Bool) := none
  deriving DecidableEq, Repr

/-! ## References -/

/-- A reference that is kept as it is written. -/
def plainReference (segments : List String) : Reference :=
  { text := Text.join "." segments
    property :=
      if 2 ≤ segments.length then
        (segments.getLast?.bind PropertyName.ofName?).map fun p =>
          (Text.join "." segments.dropLast, p, false)
      else none }

/-- The control that the segments behind `THISFORM` or `THIS` name, or else the given one, as an
object of the target; without any it is the form. Controls are members of the window itself, so
the innermost name decides. -/
def objectOf (target : Target) (segments : List String) (base : Option String) : String × Bool :=
  match segments.getLast?.orElse fun _ => base with
  | some name => ((idiom target).selfLead ++ memberName target name, false)
  | none => ((idiom target).formObject, true)

/-- A reference that starts at the form or at the given control. -/
def windowReference (target : Target) (segments : List String) (base : Option String) :
    Reference :=
  match segments.getLast?.bind PropertyName.ofName? with
  | some property =>
    let (object, onForm) := objectOf target segments.dropLast base
    { text := getProperty target property object onForm
      property := some (object, property, onForm) }
  | none => { text := (objectOf target segments base).1 }

/-- Resolves a chain of names. -/
def reference (ctx : Context) : List String → Reference
  | [] => plainReference []
  | first :: rest =>
    let head := first.toUpper
    if head = "THISFORM" then windowReference ctx.target rest none
    else if head = "THIS" then windowReference ctx.target rest ctx.owner
    else if head = "M" ∧ rest ≠ [] then plainReference rest
    else plainReference (first :: rest)

/-- Whether a chain of names closes the form. -/
def isRelease (segments : List String) : Bool :=
  match segments with
  | [first, second] => Text.sameName first "thisform" && Text.sameName second "release"
  | _ => false

/-- A call that the target spells in a way of its own: closing the form, or a method of an
object. -/
def specialCall? (ctx : Context) (segments args : List String) : Option String :=
  if isRelease segments then some (idiom ctx.target).closeForm
  else
    match segments.getLast?, segments.dropLast with
    | some _, [] => none
    | some method, object =>
      (methodReference? ctx.target (reference ctx object).text method).map fun m =>
        m ++ "(" ++ Text.join ", " args ++ ")"
    | none, _ => none

/-- The text of a chain of names that is not called. -/
def referenceText (ctx : Context) (segments : List String) : String :=
  if isRelease segments then (idiom ctx.target).closeForm
  else
    let r := reference ctx segments
    match r.property with
    | some (object, property, onForm) => getProperty ctx.target property object onForm
    | none => r.text

/-- The text of a call, given its arguments in the target's spelling. `closed` says whether the call has its
closing parenthesis. -/
def callText (ctx : Context) (segments args : List String) (closed : Bool) : String :=
  let special := match segments with
    | [name] => functionCall? ctx.target name args
    | _ => none
  match special.orElse fun _ => specialCall? ctx segments args with
  | some text => text
  | none =>
    (reference ctx segments).text ++ "(" ++ Text.join ", " args ++ if closed then ")" else ""

/-! ## Pieces of a list of tokens -/

/-- The names behind the first one of a chain, each after a dot. -/
def spanChain : List Token → List String × List Token
  | .op "." :: .name word :: rest =>
    let (words, rest) := spanChain rest
    (word :: words, rest)
  | rest => ([], rest)

/-- The tokens up to the parenthesis that closes the one just read, and those behind it when it
is closed at all. -/
def splitAtClose : Nat → List Token → List Token × Option (List Token)
  | _, [] => ([], none)
  | depth, token :: rest =>
    if token.isOp ")" ∧ depth = 0 then ([], some rest)
    else
      let depth := if token.isOp "(" then depth + 1 else if token.isOp ")" then depth - 1 else depth
      let (inside, after) := splitAtClose depth rest
      (token :: inside, after)

/-- The pieces between commas that are in no further parentheses. -/
def splitAtCommas : Int → List Token → List (List Token)
  | _, [] => [[]]
  | depth, token :: rest =>
    if token.isOp "," ∧ depth = 0 then [] :: splitAtCommas depth rest
    else
      let depth := if token.isOp "(" then depth + 1 else if token.isOp ")" then depth - 1 else depth
      match splitAtCommas depth rest with
      | [] => [[token]]
      | piece :: pieces => (token :: piece) :: pieces

/-- The arguments between parentheses; none when there are only blanks. -/
def argumentsOf (inside : List Token) : List (List Token) :=
  if (Token.trim inside).isEmpty then [] else splitAtCommas 0 inside

/-- The tokens before and behind the first equals sign outside of brackets. -/
def splitAtAssign? : Int → List Token → Option (List Token × List Token)
  | _, [] => none
  | depth, token :: rest =>
    if token.isOp "=" ∧ depth = 0 then some ([], rest)
    else
      let depth :=
        if token.isOp "(" ∨ token.isOp "[" then depth + 1
        else if token.isOp ")" ∨ token.isOp "]" then depth - 1
        else depth
      (splitAtAssign? depth rest).map fun r => (token :: r.1, r.2)

/-! ## Expressions -/

/-- The word for a dotted word. -/
def dottedText (target : Target) (word : String) : String :=
  let words := idiom target
  match word with
  | "T" | "Y" => words.trueWord
  | "F" | "N" => words.falseWord
  | "NULL" => words.nullWord
  | "AND" => words.andWord
  | "OR" => words.orWord
  | _ => words.notWord

/-- The sign for an operator. -/
def operatorText (target : Target) (test : Bool) (sign : String) : String :=
  let words := idiom target
  match sign with
  | "<>" | "#" | "!=" => words.unequal
  | "==" => words.equal
  | "=" => if test then words.equal else "="
  | "!" => words.notWord
  | sign => sign

/-- The text of a token that is no name. -/
def tokenText (target : Target) (test : Bool) : Token → String
  | .str content => stringLiteral content
  | .num digits => digits
  | .name word => word
  | .dotted word => dottedText target word
  | .op sign => operatorText target test sign
  | .blank space => space

/-- Drops a blank token at the front. -/
def dropBlank : List Token → List Token
  | .blank _ :: rest => rest
  | rest => rest

/-- The target's spelling of an expression. A step takes a token at least, so the number of tokens bounds the
number of steps. -/
def exprFrom (ctx : Context) (test : Bool) : Nat → List Token → String
  | 0, _ => ""
  | _ + 1, [] => ""
  | fuel + 1, .name word :: rest =>
    let words := idiom ctx.target
    match word.toUpper with
    | "AND" => words.andWord ++ exprFrom ctx test fuel rest
    | "OR" => words.orWord ++ exprFrom ctx test fuel rest
    | "NOT" =>
      -- a sign stands directly before its operand, a word needs the blank behind it
      if words.braces then words.notWord ++ exprFrom ctx test fuel (dropBlank rest)
      else "not" ++ exprFrom ctx test fuel rest
    | _ =>
      let (more, after) := spanChain rest
      let segments := word :: more
      match after with
      | .op "(" :: inner =>
        let (inside, behind) := splitAtClose 0 inner
        let args := (argumentsOf inside).map fun arg => exprFrom ctx test fuel (Token.trim arg)
        callText ctx segments args behind.isSome ++ exprFrom ctx test fuel (behind.getD [])
      | after => referenceText ctx segments ++ exprFrom ctx test fuel after
  | fuel + 1, token :: rest => tokenText ctx.target test token ++ exprFrom ctx test fuel rest

/-- The target's spelling of an expression; in a test every single equals sign is an equality. -/
def expr (ctx : Context) (test : Bool) (tokens : List Token) : String :=
  exprFrom ctx test tokens.length tokens

/-- The target's spelling of an expression given as text. -/
def exprText (ctx : Context) (test : Bool) (cs : List Char) : String :=
  expr ctx test (Token.lex cs)

/-! ## Statements -/

/-- The names of a list that is nothing but names with dots between them. -/
def chainOf? : List Token → Option (List String)
  | [.name word] => some [word]
  | [.name word, .op "."] => some [word]
  | .name word :: .op "." :: rest => (chainOf? rest).map (word :: ·)
  | _ => none

/-- An assignment, given the target's spelling of its right-hand side. -/
def assignment (ctx : Context) (target : List Token) (value : String) : String :=
  match chainOf? target with
  | some segments =>
    let r := reference ctx segments
    match r.property with
    | some (object, property, onForm) => setProperty ctx.target property object value onForm
    | none => r.text ++ " = " ++ value
  | none => expr ctx false target ++ " = " ++ value

/-- Drops an equals sign at the front. -/
def dropLeadingAssign (tokens : List Token) : List Token :=
  match tokens with
  | token :: rest => if token.isOp "=" then Token.trim rest else tokens
  | [] => []

/-- The target's spelling of a plain statement. -/
def statement (ctx : Context) (tokens : List Token) : String :=
  let tokens := dropLeadingAssign (Token.trim tokens)
  match splitAtAssign? 0 tokens with
  | some (target, value) =>
    assignment ctx (Token.trim target) (expr ctx true (Token.trim value))
  | none => expr ctx false tokens

end ScreenForms.Code
