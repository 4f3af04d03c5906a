import ScreenForms.Proofs.ExprDerives
import ScreenForms.Proofs.Lists

/-!
# Evaluation follows the grammar

A text has a value exactly when it spells a tree of the grammar that is at most 64 factors deep and
has a finite value itself, and then the two are the same (`eval?_eq_some_iff`). One direction is that
what is read is a tree; for the other, the functions read a tree to its end in front of a text that
does not go on with a further operand, and the fuel is enough for that (`Expression.reads`).
-/

namespace ScreenForms.Screen.Expr

open Text

variable {screen : ScreenSize} {fuel depth : Nat} {cs mid next rest : List Char}

/-! ## What may follow -/

/-- A text goes on with one of some characters, or ends, with blanks allowed before. -/
def GoesOn (allowed : List Char) (cs : List Char) : Prop :=
  ∀ c, (trimStart cs).head? = some c → c ∈ allowed

/-- What may stand behind a factor. -/
def behindFactor : List Char := ['+', '-', '*', '/', ')', ',']

/-- What may stand behind a whole term. -/
def behindTerm : List Char := ['+', '-', ')', ',']

/-- What may stand behind a whole expression. -/
def behindExpression : List Char := [')', ',']

section follow

variable {allowed : List Char} {c : Char}

/-- Behind blanks alone nothing more is read, whatever would be allowed. -/
theorem goesOn_of_blank (h : ∀ c ∈ cs, isBlank c = true) (allowed : List Char) :
    GoesOn allowed cs := by
  intro c hc
  rw [trimStart, List.dropWhile_eq_nil_iff.mpr h] at hc
  cases hc

/-- A text at whose front a sign was eaten goes on with that sign. -/
theorem goesOn_of_eat? (h : eat? c cs = some rest) (hc : c ∈ allowed) : GoesOn allowed cs := by
  intro d hd
  rw [eat?_eq_some_iff.mp h] at hd
  obtain rfl := Option.some.inj hd
  exact hc

/-- What may follow an inner tree may follow the tree around it. -/
theorem GoesOn.mono (h : GoesOn allowed cs) {more : List Char} (hsub : allowed ⊆ more) :
    GoesOn more cs :=
  fun c hc => hsub (h c hc)

/-- Signs that may not follow cannot be eaten, which is what stops every loop of the parser. -/
theorem GoesOn.eat?_eq_none (h : GoesOn allowed cs) (hc : c ∉ allowed) : eat? c cs = none := by
  rw [Option.eq_none_iff_forall_ne_some]
  intro rest heat
  rw [eat?_eq_some_iff] at heat
  exact hc (h c (by rw [heat]; rfl))

/-- A run of characters ends before a text that goes on with a character of another kind. -/
theorem GoesOn.head?_eq_false (h : GoesOn allowed cs) {p : Char → Bool}
    (hp : ∀ c, p c = true → isBlank c = false) (hallowed : allowed.any p = false) :
    ∀ c, cs.head? = some c → p c = false := by
  intro c hc
  rw [Bool.eq_false_iff]
  intro hpc
  obtain ⟨ds, rfl⟩ := List.head?_eq_some_iff.mp hc
  have hhead : (trimStart (c :: ds)).head? = some c := by
    rw [trimStart, List.dropWhile_cons_of_neg (by simp [hp c hpc])]
    rfl
  exact List.any_eq_false.mp hallowed c (h c hhead) hpc

/-- A sum is over where neither of its signs follows, and its value is what was added up so far. -/
theorem sumFrom?_of_goesOn (h : GoesOn behindExpression cs) (value : Float) :
    sumFrom? screen (fuel + 1) depth value cs = some (value, cs) := by
  rw [sumFrom?, h.eat?_eq_none (by decide), h.eat?_eq_none (by decide)]

/-- The same of a product. -/
theorem productFrom?_of_goesOn (h : GoesOn behindTerm cs) (value : Float) :
    productFrom? screen (fuel + 1) depth value cs = some (value, cs) := by
  rw [productFrom?, h.eat?_eq_none (by decide), h.eat?_eq_none (by decide)]

end follow

/-! ## Steps of the functions -/

section steps

variable {x y : Float}

theorem sumFrom?_plus (hsign : eat? '+' cs = some next)
    (h : product? screen fuel depth next = some (y, rest)) :
    sumFrom? screen (fuel + 1) depth x cs = sumFrom? screen fuel depth (x + y) rest := by
  simp only [sumFrom?, hsign, h]

theorem sumFrom?_minus (hsign : eat? '-' cs = some next)
    (h : product? screen fuel depth next = some (y, rest)) :
    sumFrom? screen (fuel + 1) depth x cs = sumFrom? screen fuel depth (x - y) rest := by
  have hplus : eat? '+' cs = none :=
    (goesOn_of_eat? hsign (List.mem_singleton.mpr rfl)).eat?_eq_none (by decide)
  simp only [sumFrom?, hplus, hsign, h]

theorem productFrom?_times (hsign : eat? '*' cs = some next)
    (h : factor? screen fuel depth next = some (y, rest)) :
    productFrom? screen (fuel + 1) depth x cs = productFrom? screen fuel depth (x * y) rest := by
  simp only [productFrom?, hsign, h]

theorem productFrom?_divide (hsign : eat? '/' cs = some next)
    (h : factor? screen fuel depth next = some (y, rest)) (hzero : (y == 0.0) = false) :
    productFrom? screen (fuel + 1) depth x cs = productFrom? screen fuel depth (x / y) rest := by
  have htimes : eat? '*' cs = none :=
    (goesOn_of_eat? hsign (List.mem_singleton.mpr rfl)).eat?_eq_none (by decide)
  simp only [productFrom?, htimes, hsign, h, hzero, Bool.false_eq_true, if_false]

/-- A sign in front costs one level of depth, like a pair of brackets. -/
theorem factor?_negative (hsign : eat? '-' cs = some next)
    (h : factor? screen fuel depth next = some (x, rest)) :
    factor? screen (fuel + 1) (depth + 1) cs = some (-x, rest) := by
  rw [factor?, eat?_eq_some_iff.mp hsign]
  simp [h]

theorem factor?_positive (hsign : eat? '+' cs = some next)
    (h : factor? screen fuel depth next = some (x, rest)) :
    factor? screen (fuel + 1) (depth + 1) cs = some (x, rest) := by
  rw [factor?, eat?_eq_some_iff.mp hsign]
  simp [h]

/-- A group is a sum between brackets, one level down. -/
theorem factor?_group (hopen : eat? '(' cs = some next)
    (h : sum? screen fuel depth next = some (x, mid)) (hclose : eat? ')' mid = some rest) :
    factor? screen (fuel + 1) (depth + 1) cs = some (x, rest) := by
  rw [factor?, eat?_eq_some_iff.mp hopen]
  simp [h, hclose]

end steps

/-- No function name starts with a closing bracket, so that an argument list is empty or not at
first sight. -/
theorem FunctionName.first_ne_close (function : FunctionName) :
    function.text.head? ≠ some ')' := by
  intro hfirst
  have hname := function.first_isNameStart
  rw [Option.some.inj hfirst] at hname
  cases hname

/-- A numeral is read to its last digit, because what follows a factor cannot lengthen it. -/
theorem factor?_number {n : Numeral} {x : Float} (hcs : trimStart cs = n.text ++ rest)
    (hrest : GoesOn behindFactor rest) (hx : Decimal.read? n.text = some x) :
    factor? screen (fuel + 1) (depth + 1) cs = some (x, rest) := by
  have hfirst : ∀ c, isNumberChar c = false → c ≠ n.first := by
    rintro c hc rfl
    rw [n.first_isNumberChar] at hc
    cases hc
  obtain ⟨htake, hdrop⟩ := span_append_of_head? n.rest_isNumberChar
    (hrest.head?_eq_false (fun _ => not_isBlank_of_isNumberChar) (by decide))
  have htext : (n.first :: (n.rest ++ rest)).takeWhile isNumberChar = n.text := by
    rw [List.takeWhile_cons_of_pos n.first_isNumberChar, htake]
    rfl
  rw [factor?, hcs, Numeral.text, List.cons_append]
  split
  · next h => cases h
  · next h => exact absurd (List.cons.inj h).1.symm (hfirst _ (by decide))
  · next h => exact absurd (List.cons.inj h).1.symm (hfirst _ (by decide))
  · next h => exact absurd (List.cons.inj h).1.symm (hfirst _ (by decide))
  · next h =>
    obtain ⟨rfl, rfl⟩ := List.cons.inj h
    rw [if_pos n.first_isNumberChar, htext, hx, hdrop]
    rfl

/-- A name and an opening parenthesis begin a call. -/
theorem factor?_name {function : FunctionName} (hcs : trimStart cs = function.text ++ mid)
    (hopen : eat? '(' mid = some next) :
    factor? screen (fuel + 1) (depth + 1) cs =
      match eat? ')' next with
      | some rest => (applyFunction? screen function.upper []).map fun value => (value, rest)
      | none =>
        match arguments? screen fuel depth next with
        | none => none
        | some (args, rest) =>
          (applyFunction? screen function.upper args).map fun value => (value, rest) := by
  have hpart := isNameChar_of_isNameStart function.first_isNameStart
  have hfirst : ∀ c, isNameStart c = false → c ≠ function.first := by
    rintro c hc rfl
    rw [function.first_isNameStart] at hc
    cases hc
  have hbehind : GoesOn ['('] mid := goesOn_of_eat? hopen (by decide)
  obtain ⟨htake, hdrop⟩ := span_append_of_head? function.rest_isNameChar
    (hbehind.head?_eq_false (fun _ => not_isBlank_of_isNameChar) (by decide))
  have htext : String.ofList (((function.first :: (function.rest ++ mid)).takeWhile
      isNameChar).map Char.toUpper) = function.upper := by
    rw [List.takeWhile_cons_of_pos hpart, htake]
    rfl
  rw [factor?, hcs, FunctionName.text, List.cons_append]
  split
  · next h => cases h
  · next h => exact absurd (List.cons.inj h).1.symm (hfirst _ (by decide))
  · next h => exact absurd (List.cons.inj h).1.symm (hfirst _ (by decide))
  · next h => exact absurd (List.cons.inj h).1.symm (hfirst _ (by decide))
  · next h =>
    obtain ⟨rfl, rfl⟩ := List.cons.inj h
    rw [if_neg (by simp [isNumberChar_of_isNameStart function.first_isNameStart]),
      if_pos function.first_isNameStart, htext, hdrop]
    split
    · next hclosed =>
      rw [hopen] at hclosed
      cases hclosed
    · next rest hrest =>
      obtain rfl := Option.some.inj (hopen.symm.trans hrest)
      rfl

/-! ## First lexemes -/

mutual

/-- Every tree starts with some lexeme, and never with a closing bracket. -/
theorem Expression.exists_first (e : Expression) :
    ∃ l ls, e.lexemes = l :: ls ∧ l.text.head? ≠ some ')' := by
  cases e with
  | term t => exact t.exists_first
  | plus left right =>
    obtain ⟨l, ls, hleft, hl⟩ := left.exists_first
    exact ⟨l, ls ++ .sign '+' :: right.lexemes, by rw [Expression.lexemes, hleft]; rfl, hl⟩
  | minus left right =>
    obtain ⟨l, ls, hleft, hl⟩ := left.exists_first
    exact ⟨l, ls ++ .sign '-' :: right.lexemes, by rw [Expression.lexemes, hleft]; rfl, hl⟩

theorem Term.exists_first (t : Term) :
    ∃ l ls, t.lexemes = l :: ls ∧ l.text.head? ≠ some ')' := by
  cases t with
  | factor f => exact f.exists_first
  | times left right =>
    obtain ⟨l, ls, hleft, hl⟩ := left.exists_first
    exact ⟨l, ls ++ .sign '*' :: right.lexemes, by rw [Term.lexemes, hleft]; rfl, hl⟩
  | divide left right =>
    obtain ⟨l, ls, hleft, hl⟩ := left.exists_first
    exact ⟨l, ls ++ .sign '/' :: right.lexemes, by rw [Term.lexemes, hleft]; rfl, hl⟩

theorem Factor.exists_first (f : Factor) :
    ∃ l ls, f.lexemes = l :: ls ∧ l.text.head? ≠ some ')' := by
  cases f with
  | negative f => exact ⟨_, _, rfl, by decide⟩
  | positive f => exact ⟨_, _, rfl, by decide⟩
  | group e => exact ⟨_, _, rfl, by decide⟩
  | number n =>
    refine ⟨_, _, rfl, ?_⟩
    rintro hfirst
    have hnumber := n.first_isNumberChar
    rw [Option.some.inj hfirst] at hnumber
    cases hnumber
  | call function => exact ⟨_, _, rfl, function.first_ne_close⟩
  | callWith function args => exact ⟨_, _, rfl, function.first_ne_close⟩

end

theorem Arguments.exists_first (args : Arguments) :
    ∃ l ls, args.lexemes = l :: ls ∧ l.text.head? ≠ some ')' := by
  cases args with
  | last e => exact e.exists_first
  | more e rest =>
    obtain ⟨l, ls, he, hl⟩ := e.exists_first
    exact ⟨l, ls ++ .sign ',' :: rest.lexemes, by rw [Arguments.lexemes, he]; rfl, hl⟩

theorem length_trimStart_le (cs : List Char) : (trimStart cs).length ≤ cs.length :=
  (List.dropWhile_suffix _).length_le

/-- Eating a sign shortens the text, so that one unit of fuel for each character is enough. -/
theorem length_lt_of_eat? {c : Char} (h : eat? c cs = some rest) : rest.length < cs.length := by
  have hlength := length_trimStart_le cs
  rw [eat?_eq_some_iff.mp h] at hlength
  exact hlength

/-- A factor needs a level of its own. -/
theorem Factor.depth_pos (f : Factor) : 0 < f.depth := by
  cases f <;> simp [Factor.depth]

/-! ## A tree is read to its end -/

/-- Arguments do not begin with the parenthesis that closes a call. -/
theorem Arguments.eat?_close {args : Arguments} {ls : List Lexeme}
    (h : Reads (args.lexemes ++ ls) cs rest) : eat? ')' cs = none := by
  obtain ⟨l, more, hfirst, hl⟩ := args.exists_first
  rw [hfirst, List.cons_append, reads_cons] at h
  obtain ⟨mid, hcs, -⟩ := h
  obtain ⟨c, text, htext, -⟩ := l.exists_text
  rw [htext] at hcs hl
  rw [Option.eq_none_iff_forall_ne_some]
  intro behind heat
  rw [eat?_eq_some_iff, hcs] at heat
  exact hl (congrArg List.head? heat)

/-- A run reads an operand or more and goes on as the loop that looks for the next. What it has read
pays for the fuel that the loop no longer has: a step for the first operand and one for each sign. -/
def GoesOnAs (fuel : Nat) (cs rest : List Char) (run : Option (Float × List Char))
    (loop : Nat → Option (Float × List Char)) : Prop :=
  ∃ left, fuel + rest.length ≤ left + 1 + cs.length ∧ run = loop left

section loops

variable {run : Option (Float × List Char)} {loop loop' : Nat → Option (Float × List Char)}
  {r : Float × List Char}

/-- A loop that finds no further operand ends the run. -/
theorem GoesOnAs.stop (h : GoesOnAs fuel cs rest run loop)
    (hloop : ∀ left, loop (left + 1) = some r) (hfuel : cs.length + 1 < fuel + rest.length) :
    run = some r := by
  obtain ⟨left, hleft, hrun⟩ := h
  obtain ⟨left, rfl⟩ : ∃ n, left = n + 1 := Nat.exists_eq_add_one.mpr (by omega)
  rw [hrun, hloop]

/-- A loop that finds a further operand goes on. -/
theorem GoesOnAs.turn (h : GoesOnAs fuel cs mid run loop)
    (hloop : ∀ left, fuel + mid.length ≤ left + 2 + cs.length → loop (left + 1) = loop' left)
    (hmid : rest.length < mid.length) (hfuel : cs.length + 1 < fuel + mid.length) :
    GoesOnAs fuel cs rest run loop' := by
  obtain ⟨left, hleft, hrun⟩ := h
  obtain ⟨left, rfl⟩ : ∃ n, left = n + 1 := Nat.exists_eq_add_one.mpr (by omega)
  exact ⟨left, by omega, by rw [hrun, hloop left (by omega)]⟩

/-- A run that reads an operand more, behind a sign. The operands in front of the sign are a run up
to the loop again, and the loop takes the sign and the operand behind it in one turn. Each kind of
operand asks for one step less of fuel than a run of such operands does. -/
theorem GoesOnAs.operand {steps : Nat} {allowed : List Char} {sign : Char} {isSign : sign ∈ signs}
    {ls ms : List Lexeme}
    {loop : List Char → Nat → Option (Float × List Char)}
    {read : Nat → List Char → Option (Float × List Char)}
    (hreads : Reads (ls ++ .sign sign isSign :: ms) cs rest) (hsign : sign ∈ allowed)
    (hfront : ∀ {mid}, Reads ls cs mid → GoesOn allowed mid →
      4 * cs.length + (steps + 1) ≤ fuel + 4 * mid.length → GoesOnAs fuel cs mid run (loop mid))
    (hbehind : ∀ {left next}, Reads ms next rest →
      4 * next.length + steps ≤ left + 4 * rest.length → read left next = some r)
    (hturn : ∀ {left mid next}, eat? sign mid = some next → read left next = some r →
      loop mid (left + 1) = loop' left)
    (hfuel : 4 * cs.length + (steps + 1) ≤ fuel + 4 * rest.length) :
    GoesOnAs fuel cs rest run loop' := by
  obtain ⟨mid, next, hreadl, heat, hreadr⟩ := (reads_join _).mp hreads
  have hl := hreadl.length_le
  have hs := length_lt_of_eat? heat
  have hr := hreadr.length_le
  refine (hfront hreadl (goesOn_of_eat? heat hsign) (by omega)).turn (fun left hleft => ?_)
    (by omega) (by omega)
  exact hturn heat (hbehind hreadr (by omega))

/-- A term is read to its end in front of what may stand behind a term. -/
theorem GoesOnAs.product?_eq {ls : List Lexeme} {x : Float}
    (h : GoesOnAs fuel cs rest (product? screen fuel depth cs) (productFrom? screen · depth x rest))
    (hreads : Reads ls cs rest) (hrest : GoesOn behindTerm rest)
    (hfuel : 4 * cs.length + 2 ≤ fuel + 4 * rest.length) :
    product? screen fuel depth cs = some (x, rest) := by
  have hlength := hreads.length_le
  exact h.stop (fun _ => productFrom?_of_goesOn hrest x) (by omega)

/-- An expression is read to its end in front of what may stand behind one. -/
theorem GoesOnAs.sum?_eq {ls : List Lexeme} {x : Float}
    (h : GoesOnAs fuel cs rest (sum? screen fuel depth cs) (sumFrom? screen · depth x rest))
    (hreads : Reads ls cs rest) (hrest : GoesOn behindExpression rest)
    (hfuel : 4 * cs.length + 3 ≤ fuel + 4 * rest.length) :
    sum? screen fuel depth cs = some (x, rest) := by
  have hlength := hreads.length_le
  exact h.stop (fun _ => sumFrom?_of_goesOn hrest x) (by omega)

end loops

mutual

/-- An expression is read up to the loop that looks for further terms. The loop is left open in the
statement, as a longer sum goes on with the value that is read so far. -/
theorem Expression.reads {screen : ScreenSize} {fuel depth : Nat} {cs rest : List Char} {x : Float}
    (e : Expression) (hdepth : e.depth ≤ depth) (hvalue : e.value? screen = some x)
    (hreads : Reads e.lexemes cs rest) (hrest : GoesOn behindTerm rest)
    (hfuel : 4 * cs.length + 3 ≤ fuel + 4 * rest.length) :
    GoesOnAs fuel cs rest (sum? screen fuel depth cs) (sumFrom? screen · depth x rest) := by
  cases e with
  | term t =>
    have hlength := hreads.length_le
    obtain ⟨fuel, rfl⟩ : ∃ n, fuel = n + 1 := Nat.exists_eq_add_one.mpr (by omega)
    have hproduct : product? screen fuel depth cs = some (x, rest) :=
      (t.reads hdepth hvalue hreads (hrest.mono (by decide)) (by omega)).product?_eq hreads hrest
        (by omega)
    exact ⟨fuel, by omega, by rw [sum?, hproduct]⟩
  | plus left right =>
    obtain ⟨y, hleft, hvalue⟩ := Option.bind_eq_some_iff.mp hvalue
    obtain ⟨z, hright, rfl⟩ := Option.map_eq_some_iff.mp hvalue
    exact .operand hreads (by decide) (left.reads ((le_max_left _ _).trans hdepth) hleft)
      (fun hr hf => (right.reads ((le_max_right _ _).trans hdepth) hright hr
        (hrest.mono (by decide)) hf).product?_eq hr hrest hf) sumFrom?_plus hfuel
  | minus left right =>
    obtain ⟨y, hleft, hvalue⟩ := Option.bind_eq_some_iff.mp hvalue
    obtain ⟨z, hright, rfl⟩ := Option.map_eq_some_iff.mp hvalue
    exact .operand hreads (by decide) (left.reads ((le_max_left _ _).trans hdepth) hleft)
      (fun hr hf => (right.reads ((le_max_right _ _).trans hdepth) hright hr
        (hrest.mono (by decide)) hf).product?_eq hr hrest hf) sumFrom?_minus hfuel

/-- A term is read up to the loop that looks for further factors. -/
theorem Term.reads {screen : ScreenSize} {fuel depth : Nat} {cs rest : List Char} {x : Float}
    (t : Term) (hdepth : t.depth ≤ depth) (hvalue : t.value? screen = some x)
    (hreads : Reads t.lexemes cs rest) (hrest : GoesOn behindFactor rest)
    (hfuel : 4 * cs.length + 2 ≤ fuel + 4 * rest.length) :
    GoesOnAs fuel cs rest (product? screen fuel depth cs) (productFrom? screen · depth x rest) := by
  cases t with
  | factor f =>
    have hlength := hreads.length_le
    obtain ⟨fuel, rfl⟩ : ∃ n, fuel = n + 1 := Nat.exists_eq_add_one.mpr (by omega)
    have hfactor : factor? screen fuel depth cs = some (x, rest) :=
      Factor.reads f hdepth hvalue hreads hrest (by omega)
    exact ⟨fuel, by omega, by rw [product?, hfactor]⟩
  | times left right =>
    obtain ⟨y, hleft, hvalue⟩ := Option.bind_eq_some_iff.mp hvalue
    obtain ⟨z, hright, rfl⟩ := Option.map_eq_some_iff.mp hvalue
    exact .operand hreads (by decide) (left.reads ((le_max_left _ _).trans hdepth) hleft)
      (fun hr => right.reads ((le_max_right _ _).trans hdepth) hright hr hrest) productFrom?_times
      hfuel
  | divide left right =>
    obtain ⟨y, hleft, hvalue⟩ := Option.bind_eq_some_iff.mp hvalue
    obtain ⟨z, hright, hvalue⟩ := Option.bind_eq_some_iff.mp hvalue
    obtain ⟨hzero, rfl⟩ : (z == 0.0) = false ∧ y / z = x := by simpa using hvalue
    exact .operand hreads (by decide) (left.reads ((le_max_left _ _).trans hdepth) hleft)
      (fun hr => right.reads ((le_max_right _ _).trans hdepth) hright hr hrest)
      (fun hsign hfactor => productFrom?_divide hsign hfactor hzero) hfuel

/-- A factor is read to its end. The cases are those of the grammar, each of them told from the
others by the first character, and every sign, bracket and call uses up one level of depth. -/
theorem Factor.reads {screen : ScreenSize} {fuel depth : Nat} {cs rest : List Char} {x : Float}
    (f : Factor) (hdepth : f.depth ≤ depth) (hvalue : f.value? screen = some x)
    (hreads : Reads f.lexemes cs rest) (hrest : GoesOn behindFactor rest)
    (hfuel : 4 * cs.length + 1 ≤ fuel + 4 * rest.length) :
    factor? screen fuel depth cs = some (x, rest) := by
  have hlength := hreads.length_le
  obtain ⟨fuel, rfl⟩ : ∃ n, fuel = n + 1 := Nat.exists_eq_add_one.mpr (by omega)
  obtain ⟨depth, rfl⟩ : ∃ n, depth = n + 1 :=
    Nat.exists_eq_add_one.mpr (f.depth_pos.trans_le hdepth)
  cases f with
  | negative f =>
    rw [Factor.value?] at hvalue
    obtain ⟨y, hy, rfl⟩ := Option.map_eq_some_iff.mp hvalue
    obtain ⟨next, hsign, hreads⟩ := (reads_sign_cons _).mp hreads
    have hs := length_lt_of_eat? hsign
    exact factor?_negative hsign
      (Factor.reads f (Nat.le_of_succ_le_succ hdepth) hy hreads hrest (by omega))
  | positive f =>
    obtain ⟨next, hsign, hreads⟩ := (reads_sign_cons _).mp hreads
    have hs := length_lt_of_eat? hsign
    exact factor?_positive hsign
      (Factor.reads f (Nat.le_of_succ_le_succ hdepth) hvalue hreads hrest (by omega))
  | group e =>
    obtain ⟨next, hopen, hreads⟩ := (reads_sign_cons _).mp hreads
    obtain ⟨mid, hreads, hclose⟩ := reads_append.mp hreads
    have hclose := (reads_sign _).mp hclose
    have ho := length_lt_of_eat? hopen
    have hm := hreads.length_le
    have hc := length_lt_of_eat? hclose
    have hbehind : GoesOn behindExpression mid := goesOn_of_eat? hclose (by decide)
    have hsum : sum? screen fuel depth next = some (x, mid) :=
      (e.reads (Nat.le_of_succ_le_succ hdepth) hvalue hreads (hbehind.mono (by decide))
        (by omega)).sum?_eq hreads hbehind (by omega)
    exact factor?_group hopen hsum hclose
  | number n =>
    obtain ⟨mid, hcs, hmid⟩ := (reads_cons _).mp hreads
    obtain rfl := reads_nil.mp hmid
    exact factor?_number hcs hrest hvalue
  | call function =>
    obtain ⟨mid, hcs, hreads⟩ := (reads_cons _).mp hreads
    obtain ⟨next, hopen, hclose⟩ := (reads_sign_cons _).mp hreads
    rw [factor?_name hcs hopen, (reads_sign _).mp hclose]
    exact Option.map_eq_some_iff.mpr ⟨x, hvalue, rfl⟩
  | callWith function args =>
    obtain ⟨values, hvalues, hvalue⟩ := Option.bind_eq_some_iff.mp hvalue
    obtain ⟨mid, hcs, hreads⟩ := (reads_cons _).mp hreads
    obtain ⟨next, hopen, hreads⟩ := (reads_sign_cons _).mp hreads
    have hm := length_trimStart_le cs
    rw [hcs, List.length_append] at hm
    have ho := length_lt_of_eat? hopen
    have harguments : arguments? screen fuel depth next = some (values, rest) :=
      Arguments.reads args (Nat.le_of_succ_le_succ hdepth) hvalues hreads (by omega)
    rw [factor?_name hcs hopen, Arguments.eat?_close hreads, harguments]
    exact Option.map_eq_some_iff.mpr ⟨x, hvalue, rfl⟩

/-- Arguments are read to the parenthesis that closes the call. A comma leads to the next one, and
no expression can begin with what closes the list. -/
theorem Arguments.reads {screen : ScreenSize} {fuel depth : Nat} {cs rest : List Char}
    {values : List Float} (args : Arguments) (hdepth : args.depth ≤ depth)
    (hvalues : args.values? screen = some values)
    (hreads : Reads (args.lexemes ++ [.sign ')']) cs rest)
    (hfuel : 4 * cs.length + 4 ≤ fuel + 4 * rest.length) :
    arguments? screen fuel depth cs = some (values, rest) := by
  have hlength := hreads.length_le
  obtain ⟨fuel, rfl⟩ : ∃ n, fuel = n + 1 := Nat.exists_eq_add_one.mpr (by omega)
  cases args with
  | last e =>
    rw [Arguments.values?] at hvalues
    obtain ⟨x, hvalue, rfl⟩ := Option.map_eq_some_iff.mp hvalues
    obtain ⟨mid, hreads, hclose⟩ := reads_append.mp hreads
    have hclose := (reads_sign _).mp hclose
    have hm := hreads.length_le
    have hc := length_lt_of_eat? hclose
    have hbehind : GoesOn behindExpression mid := goesOn_of_eat? hclose (by decide)
    have hsum : sum? screen fuel depth cs = some (x, mid) :=
      (e.reads hdepth hvalue hreads (hbehind.mono (by decide)) (by omega)).sum?_eq hreads hbehind
        (by omega)
    rw [arguments?, hsum]
    simp only [hclose]
  | more e more =>
    rw [Arguments.values?] at hvalues
    obtain ⟨x, hvalue, hvalues⟩ := Option.bind_eq_some_iff.mp hvalues
    obtain ⟨xs, hxs, rfl⟩ := Option.map_eq_some_iff.mp hvalues
    rw [Arguments.lexemes, List.append_assoc, List.cons_append] at hreads
    obtain ⟨mid, next, hreade, hcomma, hreads⟩ := (reads_join _).mp hreads
    have hm := hreade.length_le
    have hc := length_lt_of_eat? hcomma
    have hr := hreads.length_le
    have hbehind : GoesOn behindExpression mid := goesOn_of_eat? hcomma (by decide)
    have hclose : eat? ')' mid = none :=
      (goesOn_of_eat? hcomma (List.mem_singleton.mpr rfl)).eat?_eq_none (by decide)
    have hsum : sum? screen fuel depth cs = some (x, mid) :=
      (e.reads ((le_max_left _ _).trans hdepth) hvalue hreade (hbehind.mono (by decide))
        (by omega)).sum?_eq hreade hbehind (by omega)
    have harguments : arguments? screen fuel depth next = some (xs, rest) :=
      Arguments.reads more ((le_max_right _ _).trans hdepth) hxs hreads (by omega)
    rw [arguments?, hsum]
    simp only [hclose, hcomma, harguments, Option.map_some]

end

/-- A text has a value exactly when it spells a tree of at most 64 factors within each other that
has this value, and the value is finite. -/
theorem eval?_eq_some_iff (screen : ScreenSize) (cs : List Char) (x : Float) :
    eval? screen cs = some x ↔ ∃ e : Expression, Spells e.lexemes cs ∧ e.depth ≤ maxDepth ∧
      e.value? screen = some x ∧ x.isFinite = true := by
  constructor
  · intro h
    rw [eval?] at h
    split at h
    · cases h
    · next value rest hsum =>
      split at h
      · next hend =>
        obtain rfl := Option.some.inj h
        obtain ⟨hblank, hfinite⟩ := Bool.and_eq_true_iff.mp hend
        obtain ⟨e, hreads, hdepth, hvalue⟩ := (sound screen _).sum hsum
        have hblank := List.dropWhile_eq_nil_iff.mp (List.isEmpty_iff.mp hblank)
        exact ⟨e, ⟨rest, hreads, hblank⟩, hdepth, hvalue, hfinite⟩
      · cases h
  · rintro ⟨e, ⟨rest, hreads, hblank⟩, hdepth, hvalue, hfinite⟩
    have hlength := hreads.length_le
    have hsum : sum? screen (4 * cs.length + 5) maxDepth cs = some (x, rest) :=
      (e.reads hdepth hvalue hreads (goesOn_of_blank hblank _) (by omega)).sum?_eq hreads
        (goesOn_of_blank hblank _) (by omega)
    have hend : trimStart rest = [] := List.dropWhile_eq_nil_iff.mpr hblank
    rw [eval?, hsum]
    simp [hend, hfinite]

end ScreenForms.Screen.Expr
