import ScreenForms.Code.Translate
import ScreenForms.Proofs.SettledTexts

/-!
# Words between dots as operators

Two operands in parentheses are connected by a word between dots. Where a blank stands behind the
first operand the word is read as one token and becomes the operator of the target. Directly behind
the parenthesis the first dot is taken for that of a member, so the word is read as a name, becomes
the operator all the same, and both dots stay (`exprText_connected`). White space aside, the two
spellings are the same exactly where there is a blank (`connected_alike_iff`).
-/

namespace ScreenForms.Code

open Text

namespace Token

variable {word : String} {previous : Option Token} {c : Char} {cs rest : List Char}

/-! ## Words between dots -/

theorem isNameStart_of_isAlpha (h : c.isAlpha = true) : (isLetter c || c == '_') = true := by
  have hascii : c.toNat < 0x80 := by
    have hval : c.toNat = c.val.toNat := rfl
    delta Char.isAlpha Char.isUpper Char.isLower at h
    simp [UInt32.le_iff_toNat_le] at h
    omega
  simp [isLetter, hascii, h]

theorem toUpper_eq (word : String) : word.toUpper = String.ofList (word.toList.map Char.toUpper) := by
  apply String.toList_injective
  simp [String.toUpper]

theorem isAlpha_of_mem_word (h : word.toUpper ∈ dottedWords) (hc : c ∈ word.toList) :
    c.isAlpha = true :=
  isAlpha_of_mem_dottedWord (toUpper_eq word ▸ h) hc

/-- A word that may stand between dots may be a name as well. -/
theorem isName_of_dottedWord (h : word.toUpper ∈ dottedWords) : isName word = true := by
  rcases hlist : word.toList with _ | ⟨c, cs⟩
  · rw [toUpper_eq, hlist] at h
    exact absurd h (by decide)
  · have hstart : ∀ d ∈ c :: cs, (isLetter d || d == '_') = true := fun d hd =>
      isNameStart_of_isAlpha (isAlpha_of_mem_word h (hlist ▸ hd))
    obtain ⟨hc, hcs⟩ := List.forall_mem_cons.mp hstart
    refine isName_iff.mpr ⟨c, cs, by rw [← hlist, String.ofList_toList], hc, fun d hd => ?_⟩
    exact isNamePart_of_isNameStart (hcs d hd)

/-- Where a dot can open a word between dots, the word is one token. The word has no dot inside, so
that it ends at the second dot. -/
theorem lexBehind_dotted (h : word.toUpper ∈ dottedWords)
    (hprevious : (previous.map endsOperand).getD false = false) (rest : List Char) :
    lexBehind previous ('.' :: (word.toList ++ '.' :: rest)) =
      .dotted word.toUpper :: lexBehind (some (.dotted word.toUpper)) rest := by
  have hinside : ∀ d ∈ word.toList, (d != '.') = true := by
    intro d hd
    have halpha := isAlpha_of_mem_word h hd
    rw [bne_iff_ne]
    rintro rfl
    cases halpha
  have hend : ∀ d, ('.' :: rest).head? = some d → (d != '.') = false :=
    head?_cons_eq_false (p := (· != '.')) (bne_self_eq_false '.') rest
  obtain ⟨htake, hdrop⟩ := span_append_of_head? hinside hend
  have hdotted : readDotted? previous (word.toList ++ '.' :: rest) =
      some (.dotted word.toUpper, rest) := by
    rw [readDotted?, if_neg (by simp [hprevious]), hdrop, htake]
    dsimp only
    rw [← toUpper_eq, if_pos h]
  refine lexBehind_of_read ?_
  rw [read, if_neg (by decide), if_neg (by decide), if_pos rfl, hdotted]

/-- Behind an operand the word is a name, with a dot on either side. -/
theorem lexBehind_dots {operand : Token} (h : word.toUpper ∈ dottedWords)
    (hoperand : operand.endsOperand = true) (rest : List Char) :
    lexBehind (some operand) ('.' :: (word.toList ++ '.' :: rest)) =
      .op "." :: .name word :: .op "." :: lexBehind (some (.op ".")) rest := by
  have hdot : ∀ d, ('.' :: rest).head? = some d → isNamePart d = false :=
    head?_cons_eq_false (by decide) rest
  rw [lexBehind_dot hoperand, lexBehind_name (isName_of_dottedWord h) _ hdot, lexBehind_dot rfl]

end Token

open Token

/-! ## Operands in parentheses -/

/-- An operand in parentheses. -/
def grouped (operand : String) : String := "(" ++ operand ++ ")"

/-- Two operands in parentheses with a word between dots between them, and what stands before and
behind the word. -/
def connected (left before word after right : String) : String :=
  grouped left ++ before ++ "." ++ word ++ "." ++ after ++ grouped right

section

variable {ctx : Context} {test : Bool} {left word before after : String}

/-- The tokens of an operand in parentheses. -/
def groupedTokens (operand : String) : List Token :=
  .op "(" :: (lexBehind (some (.op "(")) operand.toList ++ [.op ")"])

theorem lex_grouped_append (hleft : closesText none 0 left.toList = true) (tail : List Char) :
    lex ((grouped left).toList ++ tail) =
      groupedTokens left ++ lexBehind (some (.op ")")) tail := by
  obtain ⟨ls, hls⟩ := isClosed_of_closesText hleft
  have htext : (grouped left).toList ++ tail = '(' :: (left.toList ++ ')' :: tail) := by
    simp [grouped]
  rw [htext, lex_eq, lexBehind_open, lexBehind_append_close hls]
  simp [groupedTokens]

theorem closes_groupedTokens (hleft : closesText none 0 left.toList = true) :
    closes 0 (groupedTokens left) = true :=
  closes_append (closes_lexBehind hleft _) (show closes 1 [.op ")"] = true by decide)

theorem sealed_groupedTokens (operand : String) : Sealed (groupedTokens operand) := by
  intro token htoken
  rw [groupedTokens, ← List.cons_append, List.getLast?_append] at htoken
  exact (Option.some.inj htoken).symm

/-- What stands behind an operand in parentheses is spelled on its own. -/
theorem exprText_grouped (hleft : closesText none 0 left.toList = true) (tail : List Char) :
    exprText ctx test ((grouped left).toList ++ tail) =
      exprText ctx test (grouped left).toList ++
        expr ctx test (lexBehind (some (.op ")")) tail) := by
  have hgrouped := lex_grouped_append hleft []
  rw [List.append_nil, lexBehind_nil, List.append_nil] at hgrouped
  rw [exprText, exprText, lex_grouped_append hleft, hgrouped,
    expr_append (closes_groupedTokens hleft) (sealed_groupedTokens left)]

theorem lexBehind_grouped (previous : Option Token) (right : String) :
    lexBehind previous (grouped right).toList = lex (grouped right).toList := by
  have htext : (grouped right).toList = '(' :: (right.toList ++ [')']) := by simp [grouped]
  rw [htext, lex_eq, lexBehind_open, lexBehind_open]

theorem expr_blank (space : String) (tokens : List Token) :
    expr ctx test (.blank space :: tokens) = space ++ expr ctx test tokens :=
  expr_cons ..

theorem expr_dot (tokens : List Token) :
    expr ctx test (.op "." :: tokens) = "." ++ expr ctx test tokens :=
  expr_cons ..

theorem expr_dotted (word : String) (tokens : List Token) :
    expr ctx test (.dotted word :: tokens) =
      dottedText ctx.target word ++ expr ctx test tokens :=
  expr_cons ..

/-- A connective is spelled the same without its dots. -/
theorem expr_connective (hword : word.toUpper ∈ ["AND", "OR"]) (tokens : List Token) :
    expr ctx test (.name word :: tokens) =
      dottedText ctx.target word.toUpper ++ expr ctx test tokens := by
  rw [expr_cons, partAt]
  rcases List.mem_pair.mp hword with hand | hor
  · rw [hand]
    rfl
  · rw [hor]
    rfl

/-- Blanks in front of an operand in parentheses stay. -/
theorem expr_blanks_grouped (hafter : ∀ c ∈ after.toList, Text.isBlank c = true)
    (previous : Option Token) (right : String) :
    expr ctx test (lexBehind previous (after.toList ++ (grouped right).toList)) =
      after ++ exprText ctx test (grouped right).toList := by
  by_cases hnil : after = ""
  · subst hnil
    rw [String.toList_empty, List.nil_append, lexBehind_grouped, String.empty_append]
    rfl
  · have hne : after.toList ≠ [] := by simpa using hnil
    have hsolid : ∀ c, (grouped right).toList.head? = some c → Text.isBlank c = false := by
      rintro c hc
      obtain rfl : '(' = c := by simpa [grouped] using hc
      rfl
    rw [lexBehind_blanks hne hafter hsolid, String.ofList_toList, expr_blank, lexBehind_grouped]
    rfl

/-! ## Connected operands -/

/-- The spelling of two operands with a word between dots between them: the dots stay where nothing
stands before the word, and are gone where blanks do. -/
theorem exprText_connected (hleft : closesText none 0 left.toList = true)
    (hword : word.toUpper ∈ ["AND", "OR"]) (hbefore : ∀ c ∈ before.toList, Text.isBlank c = true)
    (hafter : ∀ c ∈ after.toList, Text.isBlank c = true) (right : String) :
    exprText ctx test (connected left before word after right).toList =
      exprText ctx test (grouped left).toList ++
        (if before = "" then "." ++ dottedText ctx.target word.toUpper ++ "."
          else before ++ dottedText ctx.target word.toUpper) ++
        after ++ exprText ctx test (grouped right).toList := by
  have hdotted : word.toUpper ∈ dottedWords :=
    (show ["AND", "OR"] ⊆ dottedWords by decide) hword
  have htext : (connected left before word after right).toList = (grouped left).toList ++
      (before.toList ++ '.' :: (word.toList ++ '.' ::
        (after.toList ++ (grouped right).toList))) := by
    simp [connected]
  rw [htext, exprText_grouped hleft]
  split
  · next hnil =>
    subst hnil
    rw [String.toList_empty, List.nil_append, lexBehind_dots hdotted rfl, expr_dot,
      expr_connective hword, expr_dot, expr_blanks_grouped hafter]
    simp only [String.append_assoc]
  · next hnil =>
    have hne : before.toList ≠ [] := by simpa using hnil
    have hsolid : ∀ (cs : List Char) c, ('.' :: cs).head? = some c → Text.isBlank c = false :=
      head?_cons_eq_false rfl
    rw [lexBehind_blanks hne hbefore (hsolid _), String.ofList_toList, expr_blank,
      lexBehind_dotted hdotted rfl, expr_dotted, expr_blanks_grouped hafter]
    simp only [String.append_assoc]

/-- White space aside, nothing but the dots is left around the operator. So the two spellings can
differ in these dots only, which is what decides the equivalence. -/
theorem squeeze_connected (hleft : closesText none 0 left.toList = true)
    (hword : word.toUpper ∈ ["AND", "OR"]) (hbefore : ∀ c ∈ before.toList, Text.isBlank c = true)
    (hafter : ∀ c ∈ after.toList, Text.isBlank c = true) (right : String) :
    squeeze (exprText ctx test (connected left before word after right).toList) =
      squeeze (exprText ctx test (grouped left).toList) ++
        (if before = "" then ['.'] ++ squeeze (dottedText ctx.target word.toUpper) ++ ['.']
          else squeeze (dottedText ctx.target word.toUpper)) ++
        squeeze (exprText ctx test (grouped right).toList) := by
  have hoperator := settled_dottedText ctx.target word.toUpper
  have hfront := settled_exprText ctx test (grouped left).toList
  have hblanks : ∀ {s : String}, (∀ c ∈ s.toList, Text.isBlank c = true) → Settled s :=
    Settled.of_forall rfl
  have hdot : Settled "." := by decide
  rw [exprText_connected hleft hword hbefore hafter]
  split
  · have hmiddle := (hdot.append hoperator).append hdot
    rw [squeeze_append ((hfront.append hmiddle).append (hblanks hafter)),
      squeeze_append (hfront.append hmiddle), squeeze_append hfront,
      squeeze_append (hdot.append hoperator), squeeze_append hdot, squeeze_blanks hafter,
      List.append_nil]
    rfl
  · have hmiddle := (hblanks hbefore).append hoperator
    rw [squeeze_append ((hfront.append hmiddle).append (hblanks hafter)),
      squeeze_append (hfront.append hmiddle), squeeze_append hfront,
      squeeze_append (hblanks hbefore), squeeze_blanks hbefore, squeeze_blanks hafter,
      List.append_nil, List.nil_append]

end

/-- Two operands in parentheses are connected by a word between dots as if there were a space on
either side of it exactly where a blank stands before it. The word becomes the operator of the
target then; directly behind the first operand its dots stay. -/
theorem connected_alike_iff (ctx : Context) (test : Bool) {left before word after : String}
    (hleft : closesText none 0 left.toList = true) (hword : word.toUpper ∈ ["AND", "OR"])
    (hbefore : ∀ c ∈ before.toList, Text.isBlank c = true)
    (hafter : ∀ c ∈ after.toList, Text.isBlank c = true) (right : String) :
    (squeeze (exprText ctx test (connected left before word after right).toList) =
        squeeze (exprText ctx test (connected left " " word " " right).toList) ↔ before ≠ "") ∧
      exprText ctx test (connected left before word after right).toList =
        exprText ctx test (grouped left).toList ++
          (if before = "" then "." ++ dottedText ctx.target word.toUpper ++ "."
            else before ++ dottedText ctx.target word.toUpper) ++
          after ++ exprText ctx test (grouped right).toList := by
  refine ⟨?_, exprText_connected hleft hword hbefore hafter right⟩
  have hspace : ∀ c ∈ " ".toList, Text.isBlank c = true := List.all_eq_true.mp (by decide)
  rw [squeeze_connected hleft hword hbefore hafter, squeeze_connected hleft hword hspace hspace,
    if_neg (show " " ≠ "" by decide)]
  by_cases hnil : before = ""
  · rw [if_pos hnil]
    refine iff_of_false (fun heq => ?_) (not_not_intro hnil)
    have hlengths := congrArg List.length heq
    simp only [List.length_append, List.length_singleton] at hlengths
    omega
  · rw [if_neg hnil]
    exact iff_of_true rfl hnil

/-- An operand with a parenthesis in a literal, behind which the blank decides. -/
theorem connected_alike_call :
    closesText none 0 "f('x(', b)".toList = true ∧ "And".toUpper ∈ ["AND", "OR"] ∧
    squeeze (exprText { target := .html } true (connected "f('x(', b)" " " "And" "" "a = 1").toList) =
      squeeze
        (exprText { target := .html } true (connected "f('x(', b)" " " "And" " " "a = 1").toList) ∧
    squeeze (exprText { target := .html } true (connected "f('x(', b)" "" "And" "" "a = 1").toList) ≠
      squeeze
        (exprText { target := .html } true (connected "f('x(', b)" " " "And" " " "a = 1").toList) := by
  have hleft : closesText none 0 "f('x(', b)".toList = true := by decide
  have hword : "And".toUpper ∈ ["AND", "OR"] := by decide +kernel
  have hspace : ∀ c ∈ " ".toList, Text.isBlank c = true := List.all_eq_true.mp (by decide)
  have hnone : ∀ c ∈ "".toList, Text.isBlank c = true := List.all_eq_true.mp (by decide)
  refine ⟨hleft, hword, ?_, ?_⟩
  · exact (connected_alike_iff _ true hleft hword hspace hnone "a = 1").1.mpr (by decide)
  · exact fun heq =>
      (connected_alike_iff _ true hleft hword hnone hnone "a = 1").1.mp heq rfl

/-- Directly behind the parenthesis the operator keeps its dots. -/
theorem connected_apart_condition :
    "IF " ++ connected "a" "" "AND" "" "b" ++ "\nENDIF" = "IF (a).AND.(b)\nENDIF" ∧
    translate { target := .tkinter } "IF (a).AND.(b)\nENDIF" = "if (a).and.(b):\n    pass" ∧
    translate { target := .tkinter } "IF (a) .AND. (b)\nENDIF" = "if (a) and (b):\n    pass" ∧
    squeeze "if (a).and.(b):\n    pass" ≠ squeeze "if (a) and (b):\n    pass" := by
  decide +kernel

end ScreenForms.Code
