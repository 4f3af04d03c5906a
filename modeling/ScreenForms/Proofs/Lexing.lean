import ScreenForms.Proofs.ReadTokens

/-!
# Lexing a text from its front

A token takes up a character at least, so there is always fuel enough, and the tokens of a text are
its first token and the tokens of what is left (`lexBehind_cons`). What they are depends on the
token before them only where the text begins with a dot. Names are read whole (`lexBehind_name`),
and a dot behind a name belongs to it (`lexBehind_dot`).
-/

namespace ScreenForms.Code.Token

variable {previous : Option Token} {token : Token} {c : Char} {cs rest : List Char}

/-- The tokens of a text that stands behind a token. -/
def lexBehind (previous : Option Token) (cs : List Char) : List Token :=
  lexFrom cs.length previous cs

theorem lex_eq (cs : List Char) : lex cs = lexBehind none cs := rfl

@[simp] theorem lexBehind_nil : lexBehind previous [] = [] := rfl

/-- One token is read, and the rest of the text is read behind it. -/
theorem lexFrom_succ (fuel : Nat) (previous : Option Token) (c : Char) (cs : List Char) :
    lexFrom (fuel + 1) previous (c :: cs) =
      (read previous c cs).1 ::
        lexFrom fuel (some (read previous c cs).1) (read previous c cs).2 := by
  rw [lexFrom]

/-- Reading a token takes away at least the character it starts with. -/
theorem length_read_le (previous : Option Token) (c : Char) (cs : List Char) :
    (read previous c cs).2.length ≤ cs.length :=
  (readFrom_read previous c cs).isSuffix.length_le

/-- Hence fuel for every character is enough, and more of it changes nothing. -/
theorem lexFrom_of_le {fuel : Nat} (h : cs.length ≤ fuel) :
    lexFrom fuel previous cs = lexBehind previous cs := by
  -- both run out of text before they run out of fuel
  have hboth : ∀ (n m : Nat) (previous : Option Token) (cs : List Char), cs.length ≤ n →
      cs.length ≤ m → lexFrom n previous cs = lexFrom m previous cs := by
    intro n
    induction n with
    | zero =>
      intro m previous cs hn _
      rw [List.eq_nil_of_length_eq_zero (Nat.le_zero.mp hn)]
      cases m <;> rfl
    | succ n ih =>
      intro m previous cs hn hm
      rcases cs with _ | ⟨c, cs⟩
      · cases m <;> rfl
      · obtain ⟨m, rfl⟩ : ∃ k, m = k + 1 := Nat.exists_eq_add_one.mpr (Nat.zero_lt_of_lt hm)
        have hread := length_read_le previous c cs
        rw [lexFrom_succ, lexFrom_succ, ih m _ _ (hread.trans (Nat.le_of_succ_le_succ hn))
          (hread.trans (Nat.le_of_succ_le_succ hm))]
  exact hboth fuel cs.length previous cs h le_rfl

/-- The equation of the lexer without its fuel, on which everything else is built. -/
theorem lexBehind_cons (previous : Option Token) (c : Char) (cs : List Char) :
    lexBehind previous (c :: cs) =
      (read previous c cs).1 :: lexBehind (some (read previous c cs).1) (read previous c cs).2 :=
  congrArg _ (lexFrom_of_le (length_read_le previous c cs))

/-- The same, for a token that is already known. -/
theorem lexBehind_of_read (h : read previous c cs = (token, rest)) :
    lexBehind previous (c :: cs) = token :: lexBehind (some token) rest := by
  rw [lexBehind_cons, h]

/-! ## Names and dots -/

/-- Whether a text is read as one name: a letter or an underscore, and letters, numerals and
underscores behind it. -/
def isName (name : String) : Bool :=
  match name.toList with
  | [] => false
  | c :: cs => (Text.isLetter c || c == '_') && cs.all isNamePart

/-- A name starts with a letter or an underscore and goes on with parts of names. -/
theorem isName_iff {name : String} : isName name = true ↔ ∃ c cs, name = String.ofList (c :: cs) ∧
    (Text.isLetter c || c == '_') = true ∧ ∀ d ∈ cs, isNamePart d = true := by
  constructor
  · intro h
    unfold isName at h
    split at h
    · cases h
    · next c cs hname =>
      obtain ⟨hc, hcs⟩ := Bool.and_eq_true_iff.mp h
      exact ⟨c, cs, by rw [← hname, String.ofList_toList], hc, List.all_eq_true.mp hcs⟩
  · rintro ⟨c, cs, rfl, hc, hcs⟩
    rw [isName, String.toList_ofList]
    exact Bool.and_eq_true_iff.mpr ⟨hc, List.all_eq_true.mpr hcs⟩

theorem isNamePart_of_isNameStart (h : (Text.isLetter c || c == '_') = true) :
    isNamePart c = true := by
  rcases Bool.or_eq_true_iff.mp h with hletter | hunderscore
  · simp [isNamePart, Text.isLetterOrNumeral_of_isLetter hletter]
  · simp [isNamePart, hunderscore]

/-- All characters of a name are parts of names. -/
theorem isNamePart_of_mem {name : String} (h : isName name = true) (hc : c ∈ name.toList) :
    isNamePart c = true := by
  obtain ⟨d, cs, rfl, hd, hcs⟩ := isName_iff.mp h
  rw [String.toList_ofList] at hc
  rcases List.mem_cons.mp hc with rfl | hc
  · exact isNamePart_of_isNameStart hd
  · exact hcs c hc

/-- A part of a name is not blank, so that names end at blanks. -/
theorem not_isBlank_of_isNamePart (h : isNamePart c = true) : Text.isBlank c = false := by
  rcases Bool.or_eq_true_iff.mp h with hletter | hunderscore
  · exact Text.not_isBlank_of_isLetterOrNumeral hletter
  · rw [eq_of_beq hunderscore]
    rfl

/-- Names and numbers differ in their first character. -/
theorem not_isDigit_of_isNameStart (h : (Text.isLetter c || c == '_') = true) :
    c.isDigit = false := by
  rw [Bool.eq_false_iff]
  intro hdigit
  have hrange : 48 ≤ c.toNat ∧ c.toNat ≤ 57 := by
    simpa [Char.isDigit, UInt32.le_iff_toNat_le] using hdigit
  rcases Bool.or_eq_true_iff.mp h with hletter | hunderscore
  · have hascii : c.toNat < 0x80 := by omega
    rw [Text.isLetter, if_pos hascii] at hletter
    simp only [Char.isAlpha, Char.isUpper, Char.isLower, Bool.or_eq_true, Bool.and_eq_true,
      decide_eq_true_eq, ge_iff_le, UInt32.le_iff_toNat_le] at hletter
    rcases hletter with hupper | hlower
    · have hlow : 65 ≤ c.toNat := hupper.1
      omega
    · have hlow : 97 ≤ c.toNat := hlower.1
      omega
  · rw [eq_of_beq hunderscore] at hrange
    exact absurd hrange (by decide)

/-- A name is read to its end. -/
theorem lexBehind_name {name : String} (h : isName name = true) (previous : Option Token)
    (hrest : ∀ c, rest.head? = some c → isNamePart c = false) :
    lexBehind previous (name.toList ++ rest) = .name name :: lexBehind (some (.name name)) rest := by
  obtain ⟨c, cs, rfl, hc, hcs⟩ := isName_iff.mp h
  have hpart := isNamePart_of_isNameStart hc
  have hne : ∀ d, isNamePart d = false → c ≠ d := by
    rintro d hd rfl
    rw [hpart] at hd
    cases hd
  obtain ⟨htake, hdrop⟩ := span_append_of_head? hcs hrest
  rw [String.toList_ofList, List.cons_append]
  refine lexBehind_of_read ?_
  rw [read, if_neg (by simp [not_isBlank_of_isNamePart hpart]),
    if_neg (not_or.mpr ⟨hne '"' (by decide), hne '\'' (by decide)⟩), if_neg (hne '.' (by decide))]
  dsimp only
  rw [not_isDigit_of_isNameStart hc, if_neg (by decide), if_pos hc, htake, hdrop]

/-- A character with which no pair starts is an operator by itself. -/
theorem not_mem_pairOperators (h : ∀ sign ∈ pairOperators, sign.toList.head? ≠ some c) (d : Char) :
    String.ofList [c, d] ∉ pairOperators :=
  fun hmem => h _ hmem (by rw [String.toList_ofList]; rfl)

/-- So it is read alone, whatever follows. -/
theorem readOp_of_not_mem (h : ∀ d ds, cs = d :: ds → String.ofList [c, d] ∉ pairOperators) :
    readOp c cs = (.op (String.ofList [c]), cs) := by
  cases cs with
  | nil => rfl
  | cons d ds =>
    rw [readOp]
    exact if_neg (h d ds rfl)

/-- A dot behind an operand is no part of a word. -/
theorem lexBehind_dot (h : token.endsOperand = true) (cs : List Char) :
    lexBehind (some token) ('.' :: cs) = .op "." :: lexBehind (some (.op ".")) cs := by
  have hread : read (some token) '.' cs = readOp '.' cs := by
    rw [read, if_neg (by decide), if_neg (by decide), if_pos rfl, readDotted?,
      if_pos (by simpa using h)]
    rfl
  refine lexBehind_of_read (hread.trans (readOp_of_not_mem ?_))
  exact fun d _ _ => not_mem_pairOperators (by decide) d

/-! ## Blanks and signs -/

/-- Blanks are read to the last. -/
theorem lexBehind_blanks {blanks : List Char} (hne : blanks ≠ [])
    (hblanks : ∀ c ∈ blanks, Text.isBlank c = true)
    (hrest : ∀ c, rest.head? = some c → Text.isBlank c = false) (previous : Option Token) :
    lexBehind previous (blanks ++ rest) =
      .blank (String.ofList blanks) :: lexBehind (some (.blank (String.ofList blanks))) rest := by
  obtain ⟨c, cs, rfl⟩ := List.exists_cons_of_ne_nil hne
  obtain ⟨hc, hcs⟩ := List.forall_mem_cons.mp hblanks
  obtain ⟨htake, hdrop⟩ := span_append_of_head? hcs hrest
  refine lexBehind_of_read ?_
  rw [read, if_pos hc]
  change (Token.blank (String.ofList (c :: (cs ++ rest).takeWhile Text.isBlank)),
    (cs ++ rest).dropWhile Text.isBlank) = _
  rw [htake, hdrop]

/-- A single space is one token, and what stood in front of it is forgotten. -/
theorem lexBehind_space (hrest : ∀ c, rest.head? = some c → Text.isBlank c = false)
    (previous : Option Token) :
    lexBehind previous (' ' :: rest) = .blank " " :: lexBehind (some (.blank " ")) rest :=
  lexBehind_blanks (List.cons_ne_nil ' ' []) (List.forall_mem_singleton.mpr rfl) hrest previous

/-- Whether a character can only be read as an operator or as the first half of one. -/
def isSign (c : Char) : Bool :=
  !Text.isBlank c && !Text.isQuote c && c != '.' && !c.isDigit && !(Text.isLetter c || c == '_')

/-- A sign that makes no pair with what stands behind it is an operator. -/
theorem lexBehind_sign (hc : isSign c = true)
    (hpair : ∀ d ds, cs = d :: ds → String.ofList [c, d] ∉ pairOperators)
    (previous : Option Token) : lexBehind previous (c :: cs) =
      .op (String.ofList [c]) :: lexBehind (some (.op (String.ofList [c]))) cs := by
  simp only [isSign, Bool.and_eq_true, Bool.not_eq_true', bne_iff_ne, ne_eq] at hc
  obtain ⟨⟨⟨⟨hblank, hquote⟩, hdot⟩, hdigit⟩, hletter⟩ := hc
  have hmark : ¬(c = '"' ∨ c = '\'') := by simpa [Text.isQuote] using hquote
  refine lexBehind_of_read ?_
  rw [read, if_neg (by simp [hblank]), if_neg hmark, if_neg hdot]
  dsimp only
  rw [if_neg (by simp [hdigit]), if_neg (by simp [hletter]), readOp_of_not_mem hpair]

end ScreenForms.Code.Token
