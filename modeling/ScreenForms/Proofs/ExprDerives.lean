import ScreenForms.Proofs.ExprGrammar

/-!
# What an evaluation reads is a tree

The evaluator works while it reads, so each of its functions is compared with the trees of one kind:
what it returns is the value of a tree and what stands behind the tree (`sound`).
-/

namespace ScreenForms.Screen.Expr

open Text

variable {screen : ScreenSize} {fuel depth : Nat} {cs mid next rest : List Char}

/-- A sign is eaten together with the blanks in front of it, and nothing else is. -/
theorem eat?_eq_some_iff {c : Char} : eat? c cs = some rest ↔ trimStart cs = c :: rest := by
  rw [eat?]
  cases trimStart cs with
  | nil => simp
  | cons d ds =>
    by_cases hd : d = c
    · simp [hd]
    · simp [hd]

/-- Lexemes that begin with a sign are read by eating this sign first. -/
theorem reads_sign_cons {ls : List Lexeme} {c : Char} (h : c ∈ signs) :
    Reads (.sign c h :: ls) cs rest ↔ ∃ next, eat? c cs = some next ∧ Reads ls next rest := by
  simp only [reads_cons, eat?_eq_some_iff]
  rfl

theorem reads_sign {c : Char} (h : c ∈ signs) :
    Reads [.sign c h] cs rest ↔ eat? c cs = some rest := by
  simp only [reads_sign_cons, reads_nil, exists_eq_right']

/-- Two trees with a sign between them are read one behind the other. -/
theorem reads_join {ls ms : List Lexeme} {c : Char} (hc : c ∈ signs) :
    Reads (ls ++ .sign c hc :: ms) cs rest ↔
      ∃ mid next, Reads ls cs mid ∧ eat? c mid = some next ∧ Reads ms next rest := by
  simp only [reads_append, reads_sign_cons, exists_and_left]

/-- The number that begins a text with a character of a number. -/
def numeralOf {c : Char} (h : isNumberChar c = true) (cs : List Char) : Numeral where
  first := c
  rest := cs.takeWhile isNumberChar
  first_isNumberChar := h
  rest_isNumberChar _ := List.mem_takeWhile_imp

/-- The characters taken for a numeral are the numeral that begins with the first of them. -/
theorem takeWhile_numeral {c : Char} (h : isNumberChar c = true) (cs : List Char) :
    (c :: cs).takeWhile isNumberChar = (numeralOf h cs).text :=
  List.takeWhile_cons_of_pos h

/-- And what stands behind is left over. -/
theorem numeral_append {c : Char} (h : isNumberChar c = true) (cs : List Char) :
    c :: cs = (numeralOf h cs).text ++ cs.dropWhile isNumberChar :=
  congrArg (c :: ·) List.takeWhile_append_dropWhile.symm

/-- The name that begins a text with a character that may begin one. -/
def functionNameOf {c : Char} (h : isNameStart c = true) (cs : List Char) : FunctionName where
  first := c
  rest := cs.takeWhile isNameChar
  first_isNameStart := h
  rest_isNameChar _ := List.mem_takeWhile_imp

/-- The same for the name of a function. -/
theorem takeWhile_functionName {c : Char} (h : isNameStart c = true) (cs : List Char) :
    (c :: cs).takeWhile isNameChar = (functionNameOf h cs).text :=
  List.takeWhile_cons_of_pos (isNameChar_of_isNameStart h)

theorem functionName_append {c : Char} (h : isNameStart c = true) (cs : List Char) :
    c :: cs = (functionNameOf h cs).text ++ cs.dropWhile isNameChar :=
  congrArg (c :: ·) List.takeWhile_append_dropWhile.symm

/-! ## What is read is a tree -/

/-- A text begins with a tree of a kind, no deeper than a limit, that has a value; given are the
value and what stands behind the tree. -/
def Derives {T V : Type} (lexemes : T → List Lexeme) (nested : T → Nat) (value? : T → Option V)
    (limit : Nat) (cs : List Char) (r : V × List Char) : Prop :=
  ∃ t, Reads (lexemes t) cs r.2 ∧ nested t ≤ limit ∧ value? t = some r.1

/-- A text begins with an expression. -/
abbrev DerivesExpression (screen : ScreenSize) :=
  Derives Expression.lexemes Expression.depth (Expression.value? screen)

/-- A text begins with a term. -/
abbrev DerivesTerm (screen : ScreenSize) :=
  Derives Term.lexemes Term.depth (Term.value? screen)

/-- A text begins with a factor. -/
abbrev DerivesFactor (screen : ScreenSize) :=
  Derives Factor.lexemes Factor.depth (Factor.value? screen)

theorem close_mem_signs : ')' ∈ signs := by decide

/-- What arguments are written as, with the parenthesis that closes the call. -/
def Arguments.closedLexemes (args : Arguments) : List Lexeme :=
  args.lexemes ++ [.sign ')' close_mem_signs]

/-- A text begins with arguments and the parenthesis that closes the call. -/
abbrev DerivesArguments (screen : ScreenSize) :=
  Derives Arguments.closedLexemes Arguments.depth (Arguments.values? screen)

/-- Two trees with a sign between them. -/
theorem Derives.join {T U V W : Type} {lexemes : T → List Lexeme} {nested : T → Nat}
    {value? : T → Option V} {lexemes' : U → List Lexeme} {nested' : U → Nat}
    {value?' : U → Option W} {x : V} {y : W} {c : Char}
    (hleft : Derives lexemes nested value? depth cs (x, mid)) (hsign : eat? c mid = some next)
    (hright : Derives lexemes' nested' value?' depth next (y, rest)) (hc : c ∈ signs) :
    ∃ l r, Reads (lexemes l ++ .sign c hc :: lexemes' r) cs rest ∧
      max (nested l) (nested' r) ≤ depth ∧ value? l = some x ∧ value?' r = some y := by
  obtain ⟨l, hl, hdeepl, hx⟩ := hleft
  obtain ⟨r, hr, hdeepr, hy⟩ := hright
  exact ⟨l, r, (reads_join hc).mpr ⟨mid, next, hl, hsign, hr⟩, max_le hdeepl hdeepr, hx, hy⟩

section rules

variable {x y : Float} {start : List Char}

/-- A sum is derived from the sum in front of its last sign and the term behind it. -/
theorem Derives.plus (hleft : DerivesExpression screen depth start (x, cs))
    (hsign : eat? '+' cs = some next) (hright : DerivesTerm screen depth next (y, rest)) :
    DerivesExpression screen depth start (x + y, rest) := by
  obtain ⟨l, r, hreads, hdepth, hx, hy⟩ := hleft.join hsign hright (by decide)
  exact ⟨.plus l r, hreads, hdepth, by simp [Expression.value?, hx, hy]⟩

theorem Derives.minus (hleft : DerivesExpression screen depth start (x, cs))
    (hsign : eat? '-' cs = some next) (hright : DerivesTerm screen depth next (y, rest)) :
    DerivesExpression screen depth start (x - y, rest) := by
  obtain ⟨l, r, hreads, hdepth, hx, hy⟩ := hleft.join hsign hright (by decide)
  exact ⟨.minus l r, hreads, hdepth, by simp [Expression.value?, hx, hy]⟩

/-- The same for a product, with a term and a factor. -/
theorem Derives.times (hleft : DerivesTerm screen depth start (x, cs))
    (hsign : eat? '*' cs = some next) (hright : DerivesFactor screen depth next (y, rest)) :
    DerivesTerm screen depth start (x * y, rest) := by
  obtain ⟨l, r, hreads, hdepth, hx, hy⟩ := hleft.join hsign hright (by decide)
  exact ⟨.times l r, hreads, hdepth, by simp [Term.value?, hx, hy]⟩

/-- A quotient is only derived where the divisor is not zero. -/
theorem Derives.divide (hleft : DerivesTerm screen depth start (x, cs))
    (hsign : eat? '/' cs = some next) (hright : DerivesFactor screen depth next (y, rest))
    (hzero : (y == 0.0) = false) : DerivesTerm screen depth start (x / y, rest) := by
  obtain ⟨l, r, hreads, hdepth, hx, hy⟩ := hleft.join hsign hright (by decide)
  exact ⟨.divide l r, hreads, hdepth, by simp [Term.value?, hx, hy, hzero]⟩

/-- A sign in front of a factor is one level deeper than the factor. -/
theorem Derives.negative (hsign : eat? '-' cs = some next)
    (h : DerivesFactor screen depth next (x, rest)) :
    DerivesFactor screen (depth + 1) cs (-x, rest) := by
  obtain ⟨f, hreads, hdepth, hx⟩ := h
  exact ⟨.negative f, (reads_sign_cons _).mpr ⟨next, hsign, hreads⟩, Nat.succ_le_succ hdepth,
    by simp [Factor.value?, hx]⟩

theorem Derives.positive (hsign : eat? '+' cs = some next)
    (h : DerivesFactor screen depth next (x, rest)) :
    DerivesFactor screen (depth + 1) cs (x, rest) := by
  obtain ⟨f, hreads, hdepth, hx⟩ := h
  exact ⟨.positive f, (reads_sign_cons _).mpr ⟨next, hsign, hreads⟩, Nat.succ_le_succ hdepth, hx⟩

/-- So are parentheses around an expression. -/
theorem Derives.group (hopen : eat? '(' cs = some next)
    (h : DerivesExpression screen depth next (x, mid)) (hclose : eat? ')' mid = some rest) :
    DerivesFactor screen (depth + 1) cs (x, rest) := by
  obtain ⟨e, hreads, hdepth, hx⟩ := h
  refine ⟨.group e, (reads_sign_cons _).mpr ⟨next, hopen, ?_⟩, Nat.succ_le_succ hdepth, hx⟩
  exact reads_append.mpr ⟨mid, hreads, (reads_sign _).mpr hclose⟩

/-- A numeral is a factor if it can be read as a number. -/
theorem derives_number {n : Numeral} (hcs : trimStart cs = n.text ++ rest)
    (hx : Decimal.read? n.text = some x) : DerivesFactor screen (depth + 1) cs (x, rest) :=
  ⟨.number n, (reads_cons _).mpr ⟨rest, hcs, reads_nil.mpr rfl⟩,
    Nat.succ_le_succ (Nat.zero_le depth), hx⟩

/-- A function without arguments is a factor if the screen has a value for it. -/
theorem derives_call {function : FunctionName} (hcs : trimStart cs = function.text ++ mid)
    (hopen : eat? '(' mid = some next) (hclose : eat? ')' next = some rest)
    (hx : applyFunction? screen function.upper [] = some x) :
    DerivesFactor screen (depth + 1) cs (x, rest) := by
  refine ⟨.call function, (reads_cons _).mpr ⟨mid, hcs, ?_⟩,
    Nat.succ_le_succ (Nat.zero_le depth), hx⟩
  exact (reads_sign_cons _).mpr ⟨next, hopen, (reads_sign _).mpr hclose⟩

/-- And one with arguments if it is defined for their values. -/
theorem Derives.callWith {function : FunctionName} {values : List Float}
    (hcs : trimStart cs = function.text ++ mid) (hopen : eat? '(' mid = some next)
    (h : DerivesArguments screen depth next (values, rest))
    (hx : applyFunction? screen function.upper values = some x) :
    DerivesFactor screen (depth + 1) cs (x, rest) := by
  obtain ⟨args, hreads, hdepth, hvalues⟩ := h
  refine ⟨.callWith function args, (reads_cons _).mpr ⟨mid, hcs, ?_⟩, Nat.succ_le_succ hdepth,
    by simp [Factor.value?, hvalues, hx]⟩
  exact (reads_sign_cons _).mpr ⟨next, hopen, hreads⟩

end rules

/-- What the functions of the evaluator return with some fuel are trees: the values of the trees and
what stands behind them. The two loops are given the tree that has been read so far. -/
structure Sound (screen : ScreenSize) (fuel : Nat) : Prop where
  sum : ∀ {depth cs r}, sum? screen fuel depth cs = some r → DerivesExpression screen depth cs r
  sumFrom : ∀ {depth start x cs r}, DerivesExpression screen depth start (x, cs) →
    sumFrom? screen fuel depth x cs = some r → DerivesExpression screen depth start r
  product : ∀ {depth cs r}, product? screen fuel depth cs = some r → DerivesTerm screen depth cs r
  productFrom : ∀ {depth start x cs r}, DerivesTerm screen depth start (x, cs) →
    productFrom? screen fuel depth x cs = some r → DerivesTerm screen depth start r
  factor : ∀ {depth cs r}, factor? screen fuel depth cs = some r → DerivesFactor screen depth cs r
  arguments : ∀ {depth cs r}, arguments? screen fuel depth cs = some r →
    DerivesArguments screen depth cs r

namespace Sound

variable (ih : Sound screen fuel) {start : List Char} {x : Float} {r : Float × List Char}
include ih

/-- With one unit of fuel more, an expression is its first term with what stands behind it. -/
theorem sum_succ (h : sum? screen (fuel + 1) depth cs = some r) :
    DerivesExpression screen depth cs r := by
  rw [sum?] at h
  split at h
  · cases h
  · next value rest hproduct =>
    obtain ⟨t, hreads, hdepth, hvalue⟩ := ih.product hproduct
    exact ih.sumFrom ⟨.term t, hreads, hdepth, hvalue⟩ h

/-- What stands behind a sum is another term with its sign, or nothing that belongs to it. This is
the step that goes on from left to right. -/
theorem sumFrom_succ (hstart : DerivesExpression screen depth start (x, cs))
    (h : sumFrom? screen (fuel + 1) depth x cs = some r) :
    DerivesExpression screen depth start r := by
  rw [sumFrom?] at h
  split at h
  · next hplus =>
    split at h
    · cases h
    · next hproduct => exact ih.sumFrom (hstart.plus hplus (ih.product hproduct)) h
  · split at h
    · next hminus =>
      split at h
      · cases h
      · next hproduct => exact ih.sumFrom (hstart.minus hminus (ih.product hproduct)) h
    · obtain rfl := Option.some.inj h
      exact hstart

theorem product_succ (h : product? screen (fuel + 1) depth cs = some r) :
    DerivesTerm screen depth cs r := by
  rw [product?] at h
  split at h
  · cases h
  · next value rest hfactor =>
    obtain ⟨f, hreads, hdepth, hvalue⟩ := ih.factor hfactor
    exact ih.productFrom ⟨.factor f, hreads, hdepth, hvalue⟩ h

/-- The same for a product. -/
theorem productFrom_succ (hstart : DerivesTerm screen depth start (x, cs))
    (h : productFrom? screen (fuel + 1) depth x cs = some r) :
    DerivesTerm screen depth start r := by
  rw [productFrom?] at h
  split at h
  · next htimes =>
    split at h
    · cases h
    · next hfactor => exact ih.productFrom (hstart.times htimes (ih.factor hfactor)) h
  · split at h
    · next hover =>
      split at h
      · cases h
      · next hfactor =>
        split at h
        · cases h
        · next hzero =>
          exact ih.productFrom (hstart.divide hover (ih.factor hfactor) (by simpa using hzero)) h
    · obtain rfl := Option.some.inj h
      exact hstart

/-- Arguments are read one after the other up to the closing parenthesis. -/
theorem arguments_succ {r : List Float × List Char}
    (h : arguments? screen (fuel + 1) depth cs = some r) : DerivesArguments screen depth cs r := by
  rw [arguments?] at h
  split at h
  · cases h
  · next value mid hsum =>
    have hfirst := ih.sum hsum
    split at h
    · next rest hclose =>
      obtain rfl := Option.some.inj h
      obtain ⟨e, hreads, hdepth, hvalue⟩ := hfirst
      refine ⟨.last e, reads_append.mpr ⟨mid, hreads, (reads_sign _).mpr hclose⟩, hdepth, ?_⟩
      simpa [Arguments.values?] using hvalue
    · split at h
      · cases h
      · next rest hcomma =>
        obtain ⟨⟨values, behind⟩, hrest, rfl⟩ := Option.map_eq_some_iff.mp h
        obtain ⟨e, args, hreads, hdepth, hvalue, hvalues⟩ :=
          hfirst.join hcomma (ih.arguments hrest) (by decide)
        refine ⟨.more e args, ?_, hdepth, by simp [Arguments.values?, hvalue, hvalues]⟩
        simpa [Arguments.closedLexemes, Arguments.lexemes] using hreads

/-- A factor is taken apart by its first character: a sign, a parenthesis, a numeral or a name. -/
theorem factor_succ (h : factor? screen (fuel + 1) depth cs = some r) :
    DerivesFactor screen depth cs r := by
  rcases depth with _ | depth
  · simp [factor?] at h
  rw [factor?] at h
  split at h
  · cases h
  · next rest hcs =>
    obtain ⟨⟨value, behind⟩, hfactor, rfl⟩ := Option.map_eq_some_iff.mp h
    exact (ih.factor hfactor).negative (eat?_eq_some_iff.mpr hcs)
  · next rest hcs => exact (ih.factor h).positive (eat?_eq_some_iff.mpr hcs)
  · next rest hcs =>
    split at h
    · cases h
    · next value mid hsum =>
      obtain ⟨behind, hclose, rfl⟩ := Option.map_eq_some_iff.mp h
      exact (ih.sum hsum).group (eat?_eq_some_iff.mpr hcs) hclose
  · next c rest hminus hplus hopen hcs =>
    split at h
    · next hnumber =>
      obtain ⟨value, hvalue, rfl⟩ := Option.map_eq_some_iff.mp h
      rw [takeWhile_numeral hnumber] at hvalue
      exact derives_number (hcs.trans (numeral_append hnumber rest)) hvalue
    · split at h
      · next hname =>
        have hread := hcs.trans (functionName_append hname rest)
        rw [takeWhile_functionName hname] at h
        dsimp only at h
        split at h
        · cases h
        · next inner hopen =>
          split at h
          · next behind hclose =>
            obtain ⟨value, hvalue, rfl⟩ := Option.map_eq_some_iff.mp h
            exact derives_call hread hopen hclose hvalue
          · split at h
            · cases h
            · next args behind hargs =>
              obtain ⟨value, hvalue, rfl⟩ := Option.map_eq_some_iff.mp h
              exact (ih.arguments hargs).callWith hread hopen hvalue
      · cases h

end Sound

/-- Whatever is read has a derivation, by induction on the fuel over all parts of the grammar at
once. -/
theorem sound (screen : ScreenSize) (fuel : Nat) : Sound screen fuel := by
  -- the functions call each other with less fuel, so the induction is on the fuel for all at once
  induction fuel with
  | zero =>
    exact ⟨fun h => by simp [sum?] at h, fun _ h => by simp [sumFrom?] at h,
      fun h => by simp [product?] at h, fun _ h => by simp [productFrom?] at h,
      fun h => by simp [factor?] at h, fun h => by simp [arguments?] at h⟩
  | succ fuel ih =>
    exact ⟨ih.sum_succ, ih.sumFrom_succ, ih.product_succ, ih.productFrom_succ, ih.factor_succ,
      ih.arguments_succ⟩

end ScreenForms.Screen.Expr
