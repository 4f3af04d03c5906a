import ScreenForms.Proofs.Blanks
import ScreenForms.Screen.Expr

/-!
# The grammar of expressions

A derivation is a tree. An expression is a term, or an expression and a term with a sign between
them, so that sums associate to the left; a term is made from factors in the same way. The lexemes
of a tree are what it is written as, with blanks allowed around each of them (`Spells`), its depth
is the number of factors that stand within each other, and its value is found from the values of
its parts (`Expression.value?`). A tree has none when a number cannot be read, a call is of no known
function or has too few or too many arguments, or a divisor equals zero.
-/

namespace ScreenForms.Screen.Expr

open Text

/-! ## Lexemes -/

/-- A run of digits and dots. -/
structure Numeral where
  first : Char
  rest : List Char
  first_isNumberChar : isNumberChar first = true
  rest_isNumberChar : ∀ c ∈ rest, isNumberChar c = true

/-- The characters of a number. -/
def Numeral.text (n : Numeral) : List Char := n.first :: n.rest

/-- The name of a function, in any case. -/
structure FunctionName where
  first : Char
  rest : List Char
  first_isNameStart : isNameStart first = true
  rest_isNameChar : ∀ c ∈ rest, isNameChar c = true

namespace FunctionName

/-- The characters of a name. -/
def text (n : FunctionName) : List Char := n.first :: n.rest

/-- A name in the case in which functions are known. -/
def upper (n : FunctionName) : String := String.ofList (n.text.map Char.toUpper)

end FunctionName

/-- The signs of expressions. -/
def signs : List Char := ['+', '-', '*', '/', '(', ')', ',']

/-- The parts of an expression between which blanks may stand. -/
inductive Lexeme where
  | sign (c : Char) (isSign : c ∈ signs := by decide)
  | numeral (n : Numeral)
  | name (n : FunctionName)

/-- The characters of a lexeme. -/
def Lexeme.text : Lexeme → List Char
  | .sign c _ => [c]
  | .numeral n => n.text
  | .name n => n.text

/-! ## Trees -/

mutual

/-- An expression: a term, or a sum or difference of an expression and a term. -/
inductive Expression where
  | term (t : Term)
  | plus (left : Expression) (right : Term)
  | minus (left : Expression) (right : Term)

/-- A term: a factor, or a product or quotient of a term and a factor. -/
inductive Term where
  | factor (f : Factor)
  | times (left : Term) (right : Factor)
  | divide (left : Term) (right : Factor)

/-- A factor: a factor with a sign, an expression in parentheses, a number, or a call. -/
inductive Factor where
  | negative (f : Factor)
  | positive (f : Factor)
  | group (e : Expression)
  | number (n : Numeral)
  | call (function : FunctionName)
  | callWith (function : FunctionName) (args : Arguments)

/-- The arguments of a call, with commas between them. -/
inductive Arguments where
  | last (e : Expression)
  | more (e : Expression) (rest : Arguments)

end

mutual

/-- What an expression is written as. -/
def Expression.lexemes : Expression → List Lexeme
  | .term t => t.lexemes
  | .plus left right => left.lexemes ++ .sign '+' :: right.lexemes
  | .minus left right => left.lexemes ++ .sign '-' :: right.lexemes

/-- What a term is written as. -/
def Term.lexemes : Term → List Lexeme
  | .factor f => f.lexemes
  | .times left right => left.lexemes ++ .sign '*' :: right.lexemes
  | .divide left right => left.lexemes ++ .sign '/' :: right.lexemes

/-- What a factor is written as. -/
def Factor.lexemes : Factor → List Lexeme
  | .negative f => .sign '-' :: f.lexemes
  | .positive f => .sign '+' :: f.lexemes
  | .group e => .sign '(' :: (e.lexemes ++ [.sign ')'])
  | .number n => [.numeral n]
  | .call function => [.name function, .sign '(', .sign ')']
  | .callWith function args => .name function :: .sign '(' :: (args.lexemes ++ [.sign ')'])

/-- What arguments are written as, without the parentheses. -/
def Arguments.lexemes : Arguments → List Lexeme
  | .last e => e.lexemes
  | .more e rest => e.lexemes ++ .sign ',' :: rest.lexemes

end

mutual

/-- How many factors of an expression stand within each other. -/
def Expression.depth : Expression → Nat
  | .term t => t.depth
  | .plus left right => max left.depth right.depth
  | .minus left right => max left.depth right.depth

/-- How many factors of a term stand within each other. -/
def Term.depth : Term → Nat
  | .factor f => f.depth
  | .times left right => max left.depth right.depth
  | .divide left right => max left.depth right.depth

/-- How many factors stand within each other, the outermost included. -/
def Factor.depth : Factor → Nat
  | .negative f => f.depth + 1
  | .positive f => f.depth + 1
  | .group e => e.depth + 1
  | .number _ => 1
  | .call _ => 1
  | .callWith _ args => args.depth + 1

/-- How many factors of some arguments stand within each other. -/
def Arguments.depth : Arguments → Nat
  | .last e => e.depth
  | .more e rest => max e.depth rest.depth

end

mutual

/-- The value of an expression. -/
def Expression.value? (screen : ScreenSize) : Expression → Option Float
  | .term t => t.value? screen
  | .plus left right =>
    (left.value? screen).bind fun x => (right.value? screen).map fun y => x + y
  | .minus left right =>
    (left.value? screen).bind fun x => (right.value? screen).map fun y => x - y

/-- The value of a term. -/
def Term.value? (screen : ScreenSize) : Term → Option Float
  | .factor f => f.value? screen
  | .times left right =>
    (left.value? screen).bind fun x => (right.value? screen).map fun y => x * y
  | .divide left right =>
    (left.value? screen).bind fun x => (right.value? screen).bind fun y =>
      if y == 0.0 then none else some (x / y)

/-- The value of a factor. -/
def Factor.value? (screen : ScreenSize) : Factor → Option Float
  | .negative f => (f.value? screen).map fun x => -x
  | .positive f => f.value? screen
  | .group e => e.value? screen
  | .number n => Decimal.read? n.text
  | .call function => applyFunction? screen function.upper []
  | .callWith function args => (args.values? screen).bind (applyFunction? screen function.upper)

/-- The values of arguments. -/
def Arguments.values? (screen : ScreenSize) : Arguments → Option (List Float)
  | .last e => (e.value? screen).map fun x => [x]
  | .more e rest =>
    (e.value? screen).bind fun x => (rest.values? screen).map fun xs => x :: xs

end

/-! ## Spelling -/

/-- A text begins with some lexemes, with blanks allowed before each, and goes on with a rest. -/
inductive Reads : List Lexeme → List Char → List Char → Prop where
  | done (rest : List Char) : Reads [] rest rest
  | lexeme {ls : List Lexeme} {blanks cs rest : List Char} (l : Lexeme)
    (hblanks : ∀ c ∈ blanks, isBlank c = true) (h : Reads ls cs rest) :
    Reads (l :: ls) (blanks ++ (l.text ++ cs)) rest

/-- A text is some lexemes with blanks allowed around them. -/
def Spells (ls : List Lexeme) (cs : List Char) : Prop :=
  ∃ rest, Reads ls cs rest ∧ ∀ c ∈ rest, isBlank c = true

variable {ls ms : List Lexeme} {cs rest : List Char}

theorem not_isBlank_of_mem_signs {c : Char} (h : c ∈ signs) : isBlank c = false :=
  Bool.eq_false_iff.mpr (List.any_eq_false.mp (show signs.any isBlank = false by decide) c h)

theorem not_isBlank_of_isNumberChar {c : Char} (h : isNumberChar c = true) :
    isBlank c = false := by
  rcases Bool.or_eq_true_iff.mp h with hdigit | hdot
  · exact not_isBlank_of_isAlphanum (by simp [Char.isAlphanum, hdigit])
  · rw [eq_of_beq hdot]
    rfl

/-- What may begin a name is no part of a number. -/
theorem isNumberChar_of_isNameStart {c : Char} (h : isNameStart c = true) :
    isNumberChar c = false := by
  have hlow : 65 ≤ c.toNat := by
    delta isNameStart Char.isAlpha Char.isUpper Char.isLower at h
    simp only [Bool.or_eq_true, Bool.and_eq_true, decide_eq_true_eq, beq_iff_eq, ge_iff_le,
      UInt32.le_iff_toNat_le] at h
    rcases h with (h | h) | rfl
    · exact h.1
    · exact le_trans (by decide) h.1
    · decide
  rw [Bool.eq_false_iff]
  intro hnumber
  rcases Bool.or_eq_true_iff.mp hnumber with hdigit | hdot
  · simp only [Char.isDigit, Bool.and_eq_true, decide_eq_true_eq, UInt32.le_iff_toNat_le] at hdigit
    have hhigh : c.toNat ≤ 57 := hdigit.2
    omega
  · rw [eq_of_beq hdot] at hlow
    exact absurd hlow (by decide)

theorem isNameChar_of_isNameStart {c : Char} (h : isNameStart c = true) : isNameChar c = true := by
  rcases Bool.or_eq_true_iff.mp h with hletter | hunderscore
  · simp [isNameChar, Char.isAlphanum, hletter]
  · simp [isNameChar, hunderscore]

theorem not_isBlank_of_isNameChar {c : Char} (h : isNameChar c = true) : isBlank c = false := by
  rcases Bool.or_eq_true_iff.mp h with hpart | hunderscore
  · exact not_isBlank_of_isAlphanum hpart
  · rw [eq_of_beq hunderscore]
    rfl

/-- A lexeme begins with a character that is not blank. -/
theorem Lexeme.exists_text (l : Lexeme) : ∃ c cs, l.text = c :: cs ∧ isBlank c = false := by
  cases l with
  | sign c isSign => exact ⟨c, [], rfl, not_isBlank_of_mem_signs isSign⟩
  | numeral n => exact ⟨n.first, n.rest, rfl, not_isBlank_of_isNumberChar n.first_isNumberChar⟩
  | name n => exact ⟨n.first, n.rest, rfl, not_isBlank_of_isNameChar
      (isNameChar_of_isNameStart n.first_isNameStart)⟩

@[simp] theorem reads_nil : Reads [] cs rest ↔ rest = cs := by
  constructor
  · intro h
    cases h
    rfl
  · rintro rfl
    exact .done _

theorem reads_cons (l : Lexeme) : Reads (l :: ls) cs rest ↔
    ∃ mid, trimStart cs = l.text ++ mid ∧ Reads ls mid rest := by
  constructor
  · intro h
    cases h with
    | @lexeme _ blanks mid _ _ hblanks h =>
      obtain ⟨c, text, htext, hc⟩ := l.exists_text
      refine ⟨mid, ?_, h⟩
      rw [trimStart, List.dropWhile_append_of_pos hblanks, htext, List.cons_append,
        List.dropWhile_cons_of_neg (by simp [hc])]
  · rintro ⟨mid, hcs, h⟩
    have hwhole : cs = cs.takeWhile isBlank ++ (l.text ++ mid) := by
      rw [← hcs, trimStart, List.takeWhile_append_dropWhile]
    rw [hwhole]
    exact .lexeme l (fun _ => List.mem_takeWhile_imp) h

theorem reads_append : Reads (ls ++ ms) cs rest ↔ ∃ mid, Reads ls cs mid ∧ Reads ms mid rest := by
  induction ls generalizing cs with
  | nil => simp
  | cons l ls ih =>
    simp only [List.cons_append, reads_cons, ih]
    constructor
    · rintro ⟨next, hnext, mid, hls, hms⟩
      exact ⟨mid, ⟨next, hnext, hls⟩, hms⟩
    · rintro ⟨mid, ⟨next, hnext, hls⟩, hms⟩
      exact ⟨next, hnext, mid, hls, hms⟩

/-- Every lexeme takes a character at least. -/
theorem Reads.length_le (h : Reads ls cs rest) : rest.length + ls.length ≤ cs.length := by
  induction h with
  | done => simp
  | lexeme l _ _ ih =>
    obtain ⟨c, text, htext, -⟩ := l.exists_text
    simp only [htext, List.length_append, List.length_cons]
    omega

end ScreenForms.Screen.Expr
