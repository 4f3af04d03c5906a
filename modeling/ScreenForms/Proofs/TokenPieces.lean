import ScreenForms.Proofs.Lexing

/-!
# The pieces of a text that tokens stand for

Lexing neither skips a character nor reads one twice: the text is cut into pieces, one for each
token in order, and every token is spelled by its piece (`lex_pieces`). One token is followed on its
own (`ReadFrom.exists_spells`), and what is behind it tells when a literal may lack its closing mark
and when a sign may stand alone. So a comparison is never cut in two: where a token begins with one
of its four operators, it is that operator.
-/

namespace ScreenForms.Code.Token

variable {previous : Option Token} {token : Token} {c : Char} {cs piece rest : List Char}

/-- How a token is spelled by a piece of a text in front of the rest of it. -/
inductive Spells : Token → List Char → List Char → Prop where
  | blank {space rest : List Char} (hne : space ≠ []) (h : ∀ c ∈ space, Text.isBlank c = true) :
    Spells (.blank (String.ofList space)) space rest
  | name {word rest : List Char} (h : isName (String.ofList word) = true) :
    Spells (.name (String.ofList word)) word rest
  /-- a number, which neither begins nor ends with a dot -/
  | num {d : Char} {digits rest : List Char} (hd : d.isDigit = true)
    (h : ∀ c ∈ digits, c.isDigit = true ∨ c = '.')
    (hlast : ∀ c, digits.getLast? = some c → c.isDigit = true) :
    Spells (.num (String.ofList (d :: digits))) (d :: digits) rest
  /-- a string literal -/
  | closed {mark : Char} {content rest : List Char} (hmark : Text.isQuote mark = true)
    (h : mark ∉ content) :
    Spells (.str (String.ofList content)) (mark :: content ++ [mark]) rest
  /-- a string literal without a closing mark, which ends the text -/
  | unclosed {mark : Char} {content : List Char} (hmark : Text.isQuote mark = true)
    (h : mark ∉ content) : Spells (.str (String.ofList content)) (mark :: content) []
  | dotted {word rest : List Char} (h : String.ofList (word.map Char.toUpper) ∈ dottedWords) :
    Spells (.dotted (String.ofList (word.map Char.toUpper))) ('.' :: word ++ ['.']) rest
  /-- a sign that makes no pair with what is behind it -/
  | sign {c : Char} {rest : List Char} (hblank : Text.isBlank c = false)
    (hquote : Text.isQuote c = false)
    (h : ∀ d, rest.head? = some d → String.ofList [c, d] ∉ pairOperators) :
    Spells (.op (String.ofList [c])) [c] rest
  | pair {c d : Char} {rest : List Char} (h : String.ofList [c, d] ∈ pairOperators) :
    Spells (.op (String.ofList [c, d])) [c, d] rest

/-- Tokens are spelled by pieces, one after the other. -/
inductive Covers : List Token → List (List Char) → Prop where
  | nil : Covers [] []
  | cons {token : Token} {piece : List Char} {tokens : List Token} {pieces : List (List Char)}
    (h : token.Spells piece pieces.flatten) (hrest : Covers tokens pieces) :
    Covers (token :: tokens) (piece :: pieces)

/-! ## One token -/

theorem Spells.ne_nil (h : token.Spells piece rest) : piece ≠ [] := by
  cases h with
  | blank hne => exact hne
  | name h =>
    rintro rfl
    cases h
  | _ => exact List.cons_ne_nil _ _

theorem digits_spanNumber (cs : List Char) :
    (∀ d ∈ (spanNumber cs).1, d.isDigit = true ∨ d = '.') ∧
      ∀ d, (spanNumber cs).1.getLast? = some d → d.isDigit = true := by
  -- the last digit of a longer number is that of the number behind its front
  have hlonger : ∀ {d : Char} {number : List Char}, d.isDigit = true →
      (∀ e, number.getLast? = some e → e.isDigit = true) →
      ∀ e, (d :: number).getLast? = some e → e.isDigit = true := by
    intro d number hd hlast e he
    rw [List.getLast?_cons] at he
    rcases hnumber : number.getLast? with _ | f
    · obtain rfl : d = e := by simpa [hnumber] using he
      exact hd
    · obtain rfl : f = e := by simpa [hnumber] using he
      exact hlast f hnumber
  fun_induction spanNumber cs with
  | case1 d cs hd number rest hrest ih =>
    rw [hrest] at ih
    refine ⟨List.forall_mem_cons.mpr ⟨.inr rfl, List.forall_mem_cons.mpr ⟨.inl hd, ih.1⟩⟩, ?_⟩
    intro e he
    rw [List.getLast?_cons_cons] at he
    exact hlonger hd ih.2 e he
  | case3 d cs _ hd number rest hrest ih =>
    rw [hrest] at ih
    exact ⟨List.forall_mem_cons.mpr ⟨.inl hd, ih.1⟩, hlonger hd ih.2⟩
  | _ => exact ⟨List.forall_mem_nil _, fun d hd => absurd hd.symm (Option.some_ne_none d)⟩

/-- A literal is closed by the next mark that is like the one that opens it. -/
theorem exists_spells_str (hmark : Text.isQuote c = true) (cs : List Char) :
    ∃ piece, c :: cs = piece ++ (cs.dropWhile (· != c)).drop 1 ∧
      Spells (.str (String.ofList (cs.takeWhile (· != c)))) piece
        ((cs.dropWhile (· != c)).drop 1) := by
  have hcontent : c ∉ cs.takeWhile (· != c) := by
    intro hmem
    simpa using List.mem_takeWhile_imp hmem
  have hcs := List.takeWhile_append_dropWhile (p := (· != c)) (l := cs)
  rcases hdrop : cs.dropWhile (· != c) with _ | ⟨d, rest⟩
  · rw [hdrop, List.append_nil] at hcs
    exact ⟨c :: cs.takeWhile (· != c), by rw [hcs]; simp, .unclosed hmark hcontent⟩
  · have hclosing : d = c := by
      have hhead := List.head?_dropWhile_not (· != c) cs
      simpa [hdrop] using hhead
    subst hclosing
    rw [hdrop] at hcs
    refine ⟨d :: cs.takeWhile (· != d) ++ [d], ?_, .closed hmark hcontent⟩
    simpa using hcs.symm

/-- What a token is read from is a piece in front of what is left. The cases are those of the lexer,
and each of them consumes one character at least. -/
theorem ReadFrom.exists_spells (h : ReadFrom c cs token rest) :
    ∃ piece, c :: cs = piece ++ rest ∧ token.Spells piece rest := by
  cases h with
  | blank hc =>
    refine ⟨c :: cs.takeWhile Text.isBlank, ?_, .blank (List.cons_ne_nil _ _) ?_⟩
    · rw [List.cons_append, List.takeWhile_append_dropWhile]
    · exact List.forall_mem_cons.mpr ⟨hc, fun d => List.mem_takeWhile_imp⟩
  | str _ hquote => exact exists_spells_str hquote cs
  | dotted _ hdot word rest hword hcs =>
    exact ⟨'.' :: word ++ ['.'], by simp [hdot, hcs], .dotted hword⟩
  | num _ hdigit =>
    have hdigits := digits_spanNumber cs
    refine ⟨c :: (spanNumber cs).1, ?_, .num hdigit hdigits.1 hdigits.2⟩
    rw [List.cons_append, ← (spanNumber_eq cs).1]
  | name _ hletter =>
    refine ⟨c :: cs.takeWhile isNamePart, ?_, .name (isName_iff.mpr ?_)⟩
    · rw [List.cons_append, List.takeWhile_append_dropWhile]
    · exact ⟨c, _, rfl, hletter, fun d => List.mem_takeWhile_imp⟩
  | sign hc hquote hpair =>
    refine ⟨[c], rfl, .sign hc hquote fun d hd => ?_⟩
    obtain ⟨rest, hcs⟩ := List.head?_eq_some_iff.mp hd
    exact hpair d rest hcs
  | pair _ d rest hpair hcs => exact ⟨[c, d], by rw [hcs]; rfl, .pair hpair⟩

/-! ## All tokens -/

theorem exists_covers (previous : Option Token) (cs : List Char) :
    ∃ pieces, pieces.flatten = cs ∧ Covers (lexBehind previous cs) pieces := by
  induction hn : cs.length using Nat.strong_induction_on generalizing previous cs with
  | _ n ih =>
    rcases cs with _ | ⟨c, cs⟩
    · exact ⟨[], rfl, .nil⟩
    · obtain ⟨piece, hpiece, hspells⟩ := (readFrom_read previous c cs).exists_spells
      have hlt : (read previous c cs).2.length < n :=
        hn ▸ Nat.lt_succ_of_le (length_read_le previous c cs)
      obtain ⟨pieces, hflatten, hcovers⟩ := ih _ hlt (some (read previous c cs).1) _ rfl
      refine ⟨piece :: pieces, ?_, ?_⟩
      · rw [List.flatten_cons, hflatten, hpiece]
      · rw [lexBehind_cons]
        exact .cons (hflatten.symm ▸ hspells) hcovers

theorem Covers.ne_nil {tokens : List Token} {pieces : List (List Char)} (h : Covers tokens pieces) :
    ∀ piece ∈ pieces, piece ≠ [] := by
  induction h with
  | nil => exact List.forall_mem_nil _
  | cons h _ ih => exact List.forall_mem_cons.mpr ⟨h.ne_nil, ih⟩

/-! ## Comparisons -/

/-- The signs that make a comparison with an equals sign behind them. -/
def comparisonSigns : List Char := ['<', '>', '=', '!']

theorem Spells.eq_of_op {sign : String} (h : Spells (.op sign) piece rest) :
    piece = sign.toList := by
  cases h <;> rw [String.toList_ofList]

theorem pair_mem_of_comparisonSign (h : c ∈ comparisonSigns) :
    String.ofList [c, '='] ∈ pairOperators := by
  have hall : comparisonSigns.all (fun c => String.ofList [c, '='] ∈ pairOperators) = true := by
    decide
  simpa using List.all_eq_true.mp hall c h

theorem not_isInner_of_comparisonSign (h : c ∈ comparisonSigns) : isInner c = false := by
  have hall : comparisonSigns.all (fun c => !isInner c) = true := by decide
  simpa using List.all_eq_true.mp hall c h

theorem not_isQuote_of_comparisonSign (h : c ∈ comparisonSigns) : Text.isQuote c = false := by
  have hall : comparisonSigns.all (fun c => !Text.isQuote c) = true := by decide
  simpa using List.all_eq_true.mp hall c h

/-- Only operators and string literals are spelled with other than inner characters. -/
theorem Spells.op_or_str (h : token.Spells piece rest) (hmem : c ∈ piece)
    (hc : isInner c = false) : (∃ sign, token = .op sign) ∨ ∃ content, token = .str content := by
  have hout : ¬ isInner c = true := by simp [hc]
  cases h with
  | blank _ h => exact absurd (by simp [isInner, h c hmem]) hout
  | name h =>
    have hpart := isNamePart_of_mem h (by rwa [String.toList_ofList])
    exact absurd (by simp [isInner, hpart]) hout
  | num hd h =>
    rcases List.mem_cons.mp hmem with rfl | hmem
    · exact absurd (isInner_of_isDigit hd) hout
    · rcases h c hmem with hdigit | rfl
      · exact absurd (isInner_of_isDigit hdigit) hout
      · exact absurd rfl hout
  | dotted h =>
    simp only [List.cons_append, List.mem_cons, List.mem_append, List.not_mem_nil, or_false] at hmem
    rcases hmem with rfl | hword | rfl
    · exact absurd rfl hout
    · have halpha := isAlpha_of_mem_dottedWord h hword
      exact absurd (isInner_of_isAlphanum (by simp [Char.isAlphanum, halpha])) hout
    · exact absurd rfl hout
  | closed => exact .inr ⟨_, rfl⟩
  | unclosed => exact .inr ⟨_, rfl⟩
  | sign => exact .inl ⟨_, rfl⟩
  | pair => exact .inl ⟨_, rfl⟩

/-- A token that begins with a comparison is the comparison. -/
theorem Spells.eq_comparison (h : token.Spells piece rest) (hc : c ∈ comparisonSigns)
    (hlead : [c, '='] <+: piece ++ rest) : token = .op (String.ofList [c, '=']) := by
  obtain ⟨behind, hbehind⟩ := hlead
  have hmem : c ∈ piece := by
    obtain ⟨d, piece', rfl⟩ := List.exists_cons_of_ne_nil h.ne_nil
    exact (List.cons.inj hbehind).1 ▸ List.mem_cons_self
  rcases h.op_or_str hmem (not_isInner_of_comparisonSign hc) with ⟨sign, rfl⟩ | ⟨content, rfl⟩
  · cases h with
    | sign _ _ hpair =>
      obtain ⟨rfl, hrest⟩ := List.cons.inj hbehind
      exact absurd (pair_mem_of_comparisonSign hc) (hpair '=' (congrArg List.head? hrest).symm)
    | pair =>
      obtain ⟨rfl, htail⟩ := List.cons.inj hbehind
      rw [(List.cons.inj htail).1]
  · have hquote := not_isQuote_of_comparisonSign hc
    cases h with
    | closed hmark =>
      rw [← (List.cons.inj hbehind).1, hquote] at hmark
      cases hmark
    | unclosed hmark =>
      rw [← (List.cons.inj hbehind).1, hquote] at hmark
      cases hmark

/-- Behind a comparison sign at the end of a token there is no equals sign, unless the token has two
signs. -/
theorem Spells.op_of_getLast? (h : token.Spells piece rest) (hc : c ∈ comparisonSigns)
    (hlast : piece.getLast? = some c) (hrest : rest.head? = some '=') :
    ∃ sign ∈ pairOperators, token = .op sign := by
  have hmem := List.mem_of_mem_getLast? hlast
  rcases h.op_or_str hmem (not_isInner_of_comparisonSign hc) with ⟨sign, rfl⟩ | ⟨content, rfl⟩
  · cases h with
    | sign _ _ hpair =>
      obtain rfl := Option.some.inj hlast
      exact absurd (pair_mem_of_comparisonSign hc) (hpair '=' hrest)
    | pair hpair => exact ⟨_, hpair, rfl⟩
  · cases h with
    | closed hmark =>
      rw [List.getLast?_concat] at hlast
      rw [Option.some.inj hlast, not_isQuote_of_comparisonSign hc] at hmark
      cases hmark
    | unclosed => cases hrest

section covers

variable {tokens : List Token} {pieces : List (List Char)}

theorem Covers.comparison (h : Covers tokens pieces) (hc : c ∈ comparisonSigns) {i : Nat}
    (hlead : [c, '='] <+: (pieces.drop i).flatten) :
    tokens[i]? = some (.op (String.ofList [c, '='])) := by
  induction h generalizing i with
  | nil => simp at hlead
  | cons h _ ih =>
    cases i with
    | zero => exact congrArg some (h.eq_comparison hc hlead)
    | succ i => exact ih hlead

theorem Covers.behind_comparisonSign (h : Covers tokens pieces) (hc : c ∈ comparisonSigns) {i : Nat}
    (hpiece : pieces[i]? = some piece) (hlast : piece.getLast? = some c)
    (hassign : tokens[i + 1]? = some (.op "=")) :
    ∃ sign ∈ pairOperators, tokens[i]? = some (.op sign) := by
  induction h generalizing i with
  | nil => cases hpiece
  | @cons _ _ _ pieces h hrest ih =>
    cases i with
    | zero =>
      obtain rfl := Option.some.inj hpiece
      have hhead : pieces.flatten.head? = some '=' := by
        cases hrest with
        | nil => cases hassign
        | cons hnext =>
          obtain rfl := Option.some.inj hassign
          rw [List.flatten_cons, hnext.eq_of_op]
          rfl
      obtain ⟨sign, hsign, rfl⟩ := h.op_of_getLast? hc hlast hhead
      exact ⟨sign, hsign, rfl⟩
    | succ i => exact ih hpiece hassign

end covers

/-! ## The text and its tokens -/

/-- A text is cut into pieces that are not empty and that spell its tokens in order. A token that
begins with a comparison is this comparison, so an equals sign stands alone behind one of the signs
of comparisons only where this sign belongs to the operator before it. -/
theorem lex_pieces (cs : List Char) : ∃ pieces : List (List Char), pieces.flatten = cs ∧
    (∀ piece ∈ pieces, piece ≠ []) ∧ Covers (lex cs) pieces ∧
    (∀ c ∈ comparisonSigns, ∀ i, [c, '='] <+: (pieces.drop i).flatten →
      (lex cs)[i]? = some (.op (String.ofList [c, '=']))) ∧
    ∀ c ∈ comparisonSigns, ∀ i piece, pieces[i]? = some piece → piece.getLast? = some c →
      (lex cs)[i + 1]? = some (.op "=") →
        ∃ sign ∈ pairOperators, (lex cs)[i]? = some (.op sign) := by
  obtain ⟨pieces, hflatten, hcovers⟩ := exists_covers none cs
  exact ⟨pieces, hflatten, hcovers.ne_nil, hcovers, fun c hc i => hcovers.comparison hc,
    fun c hc i piece => hcovers.behind_comparisonSign hc⟩

/-- Of two equals signs behind a sign, the first belongs to the comparison, the second to none. -/
example : lex "n<==1.".toList =
    [.name "n", .op "<=", .op "=", .num "1", .op "."] := by decide

end ScreenForms.Code.Token
