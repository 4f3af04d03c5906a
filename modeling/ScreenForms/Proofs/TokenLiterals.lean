import Mathlib.Data.List.Infix
import ScreenForms.Code.Expression
import ScreenForms.Proofs.LineLiterals
import ScreenForms.Proofs.ReadTokens

/-!
# Literals among tokens

The tokens of a closed text have exactly its literals (`literals_lex`). Lists of tokens are then
cut into chains of names, arguments and the two sides of an assignment, where nothing but names,
operators and blanks gets lost. A call that closes the form is the one construct whose arguments
are not written (`releasesPlainly`).
-/

namespace ScreenForms.Code

open Text

namespace Token

/-- What a string literal becomes. -/
def literal? : Token → Option String
  | .str content => some (stringLiteral content)
  | _ => none

/-- What the string literals among some tokens become. -/
def literals (tokens : List Token) : List String := tokens.filterMap literal?

@[simp] theorem literals_nil : literals [] = [] := rfl

/-- Operators are no literals. -/
theorem literal?_of_isOp {token : Token} {sign : String} (h : token.isOp sign = true) :
    token.literal? = none := by
  cases token with
  | op => rfl
  | _ => cases h

/-! ## Reading tokens -/

variable {previous : Option Token} {c : Char} {cs rest : List Char} {token : Token}

/-- A quoted text up to its closing mark is one token, and reading goes on behind the mark. The mark
that opened it decides which one closes it. -/
theorem read_literal {content : List Char} (hc : isQuote c = true) (hcontent : c ∉ content)
    (previous : Option Token) (rest : List Char) :
    read previous c (content ++ c :: rest) = (.str (String.ofList content), rest) := by
  have hinside : ∀ d ∈ content, (d != c) = true := by
    intro d hd
    rw [bne_iff_ne]
    rintro rfl
    exact hcontent hd
  have htake : (content ++ c :: rest).takeWhile (· != c) = content := by
    rw [List.takeWhile_append_of_pos hinside]
    simp
  have hdrop : (content ++ c :: rest).dropWhile (· != c) = c :: rest := by
    rw [List.dropWhile_append_of_pos hinside]
    simp
  have hblank : Text.isBlank c = false := by
    rcases eq_of_isQuote hc with rfl | rfl <;> rfl
  rw [read, if_neg (by simp [hblank]), if_pos (eq_of_isQuote hc), htake, hdrop]
  rfl

/-- A token that begins with no mark is no literal, and only plain text belongs to it. -/
theorem ReadFrom.behind (h : ReadFrom c cs token rest) (hc : isQuote c = false) :
    token.literal? = none ∧ Behind cs rest := by
  have hinner : (∀ sign, token ≠ .op sign) → (∀ content, token ≠ .str content) →
      Behind cs rest := by
    intro hop hstr
    obtain ⟨text, hcs, htext⟩ := h.exists_inner hop hstr
    exact ⟨text, plain_of_forall ⟨rfl, rfl⟩ (List.forall_mem_cons.mp htext).2, hcs⟩
  cases h with
  | str _ hquote =>
    rw [hc] at hquote
    cases hquote
  | sign => exact ⟨rfl, .refl _⟩
  | pair _ d rest hpair hcs =>
    have hplain : ∀ w ∈ pairOperators, Plain w.toList := by decide
    subst hcs
    exact ⟨rfl, (Behind.refl rest).cons (hplain _ hpair d (by simp))⟩
  | _ => exact ⟨rfl, hinner nofun nofun⟩

end Token

/-! ## Cutting lists of tokens -/

open Token

variable {tokens xs ys rest : List Token}

/-- At most one blank is dropped, and only in front. -/
theorem dropBlank_suffix (tokens : List Token) : dropBlank tokens <:+ tokens := by
  unfold dropBlank
  split
  · exact List.suffix_cons _ _
  · exact List.suffix_refl tokens

/-- What is left stands in the tokens as one stretch. -/
theorem isInfix_trim (tokens : List Token) : Token.trim tokens <:+: tokens := by
  have hend : Token.trim tokens <+: tokens.dropWhile Token.isBlank := by
    rw [← List.reverse_suffix]
    simpa [Token.trim] using List.dropWhile_suffix Token.isBlank
  exact hend.isInfix.trans (List.dropWhile_suffix Token.isBlank).isInfix

section

variable {token : Token}

/-- A token that is not blank stops the trimming from the end. -/
theorem rdropWhile_cons_of_not_isBlank (h : token.isBlank = false) (tokens : List Token) :
    (token :: tokens).rdropWhile Token.isBlank = token :: tokens.rdropWhile Token.isBlank := by
  rw [List.rdropWhile, List.rdropWhile, List.reverse_cons, List.dropWhile_append]
  split
  · next hempty => simp [h, List.isEmpty_iff.mp hempty]
  · simp

/-- With a token in front that is not blank, only the end is trimmed. -/
theorem trim_cons_of_not_isBlank (h : token.isBlank = false) (tokens : List Token) :
    Token.trim (token :: tokens) = token :: tokens.rdropWhile Token.isBlank := by
  rw [Token.trim, List.dropWhile_cons_of_neg (by simp [h])]
  exact rdropWhile_cons_of_not_isBlank h tokens

/-- Trimmed tokens begin with one that is not blank, if there is any. -/
theorem exists_trim_eq_cons {tokens : List Token} (hmem : token ∈ tokens)
    (hblank : token.isBlank = false) :
    ∃ t ts, Token.trim tokens = t :: ts ∧ t.isBlank = false := by
  rcases hdrop : tokens.dropWhile Token.isBlank with _ | ⟨t, ts⟩
  · have hall := List.dropWhile_eq_nil_iff.mp hdrop token hmem
    rw [hblank] at hall
    cases hall
  · have hfirst : t.isBlank = false := by
      have hhead := List.head?_dropWhile_not Token.isBlank tokens
      rw [hdrop] at hhead
      simpa using hhead
    refine ⟨t, ts.rdropWhile Token.isBlank, ?_, hfirst⟩
    rw [Token.trim, hdrop]
    exact rdropWhile_cons_of_not_isBlank hfirst ts

end

/-- A chain of members is made from dots and names in turn, and it stands at the front. -/
theorem spanChain_eq (tokens : List Token) :
    tokens = ((spanChain tokens).1.flatMap fun w => [.op ".", .name w]) ++
      (spanChain tokens).2 := by
  fun_induction spanChain tokens with
  | case1 word rest words after hafter ih =>
    rw [hafter] at ih
    exact congrArg ([.op ".", .name word] ++ ·) ih
  | case2 rest => rfl

/-- Every member of a chain is a name among the tokens. -/
theorem name_mem_of_mem_spanChain {word : String} (h : word ∈ (spanChain tokens).1) :
    .name word ∈ tokens := by
  rw [spanChain_eq tokens]
  refine List.mem_append_left _ (List.mem_flatMap.mpr ⟨word, h, ?_⟩)
  simp

/-- A token that is tested for an operator is nothing but this operator. -/
theorem eq_op_of_isOp {token : Token} {sign : String} (h : token.isOp sign = true) :
    token = .op sign := by
  cases token with
  | op => exact congrArg Token.op (eq_of_beq h)
  | _ => cases h

/-- What stands between parentheses, the closing one, and what stands behind it. -/
theorem splitAtClose_eq (depth : Nat) (tokens : List Token) :
    ∃ closing, tokens = (splitAtClose depth tokens).1 ++ closing ++
      (splitAtClose depth tokens).2.getD [] ∧ ∀ token ∈ closing, token = .op ")" := by
  induction tokens generalizing depth with
  | nil => exact ⟨[], rfl, List.forall_mem_nil _⟩
  | cons token tokens ih =>
    rw [splitAtClose]
    split
    · next hclose => exact ⟨[token], rfl, List.forall_mem_singleton.mpr (eq_op_of_isOp hclose.1)⟩
    · dsimp only
      generalize (if token.isOp "(" = true then depth + 1
        else if token.isOp ")" = true then depth - 1 else depth) = deeper
      obtain ⟨closing, htokens, hclosing⟩ := ih deeper
      exact ⟨closing, congrArg (token :: ·) htokens, hclosing⟩

/-- What stands before the closing parenthesis begins the tokens. -/
theorem isPrefix_splitAtClose (depth : Nat) (tokens : List Token) :
    (splitAtClose depth tokens).1 <+: tokens := by
  obtain ⟨closing, htokens, -⟩ := splitAtClose_eq depth tokens
  exact ⟨closing ++ (splitAtClose depth tokens).2.getD [], by simpa using htokens.symm⟩

/-- What stands behind it ends them. -/
theorem isSuffix_splitAtClose (depth : Nat) (tokens : List Token) :
    (splitAtClose depth tokens).2.getD [] <:+ tokens := by
  obtain ⟨closing, htokens, -⟩ := splitAtClose_eq depth tokens
  exact ⟨_, htokens.symm⟩

/-- More tokens at the end leave what stands between parentheses, or add to it. -/
theorem splitAtClose_append (depth : Nat) (xs ys : List Token) :
    (splitAtClose depth xs).1 <+: (splitAtClose depth (xs ++ ys)).1 := by
  induction xs generalizing depth with
  | nil => exact List.nil_prefix
  | cons token xs ih =>
    rw [List.cons_append, splitAtClose, splitAtClose]
    split
    · exact List.prefix_refl []
    · exact List.cons_prefix_cons.mpr ⟨rfl, ih _⟩

/-- Cut at the commas outside parentheses, the tokens are the pieces with the commas put back. -/
theorem splitAtCommas_eq (depth : Int) (tokens : List Token) :
    ∃ piece pieces, splitAtCommas depth tokens = piece :: pieces ∧
      tokens = piece ++ pieces.flatMap (.op "," :: ·) := by
  induction tokens generalizing depth with
  | nil => exact ⟨[], [], rfl, rfl⟩
  | cons token tokens ih =>
    rw [splitAtCommas]
    split
    · next hcomma =>
      obtain ⟨piece, pieces, heq, htokens⟩ := ih depth
      refine ⟨[], splitAtCommas depth tokens, rfl, ?_⟩
      rw [heq, eq_op_of_isOp hcomma.1]
      exact congrArg (.op "," :: ·) htokens
    · dsimp only
      generalize (if token.isOp "(" = true then depth + 1
        else if token.isOp ")" = true then depth - 1 else depth) = deeper
      obtain ⟨piece, pieces, heq, htokens⟩ := ih deeper
      rw [heq]
      exact ⟨token :: piece, pieces, rfl, congrArg (token :: ·) htokens⟩

/-- Arguments have their tokens from between the parentheses, where otherwise only blanks and
commas stand. -/
theorem argumentsOf_cases (inside : List Token) :
    argumentsOf inside = [] ∧ (∀ token ∈ inside, token.isBlank = true) ∨
      ∃ piece pieces, argumentsOf inside = piece :: pieces ∧
        inside = piece ++ pieces.flatMap (.op "," :: ·) := by
  unfold argumentsOf
  split
  · next hempty =>
    refine .inl ⟨rfl, fun token htoken => ?_⟩
    by_contra hblank
    obtain ⟨t, ts, htrim, -⟩ := exists_trim_eq_cons htoken (by simpa using hblank)
    rw [htrim] at hempty
    cases hempty
  · exact .inr (splitAtCommas_eq 0 inside)

/-- Every argument stands in the tokens of the call as one stretch. -/
theorem isInfix_of_mem_argumentsOf {inside piece : List Token} (h : piece ∈ argumentsOf inside) :
    piece <:+: inside := by
  rcases argumentsOf_cases inside with ⟨hnone, -⟩ | ⟨first, pieces, heq, hinside⟩
  · rw [hnone] at h
    cases h
  · rw [heq] at h
    rcases List.mem_cons.mp h with rfl | h
    · exact ⟨[], pieces.flatMap (.op "," :: ·), hinside.symm⟩
    · obtain ⟨before, after, rfl⟩ := List.append_of_mem h
      refine ⟨first ++ before.flatMap (.op "," :: ·) ++ [.op ","],
        after.flatMap (.op "," :: ·), ?_⟩
      rw [hinside]
      simp

/-- An assignment is cut at a token that is no literal. -/
theorem splitAtAssign?_eq {depth : Int} (h : splitAtAssign? depth tokens = some (xs, ys)) :
    ∃ sign, tokens = xs ++ sign :: ys ∧ sign.literal? = none := by
  induction tokens generalizing depth xs with
  | nil => cases h
  | cons token tokens ih =>
    rw [splitAtAssign?] at h
    split at h
    · next hassign =>
      obtain ⟨rfl, rfl⟩ := Prod.mk.inj (Option.some.inj h)
      exact ⟨token, rfl, literal?_of_isOp hassign.1⟩
    · obtain ⟨⟨xs', ys'⟩, htail, heq⟩ := Option.map_eq_some_iff.mp h
      obtain ⟨rfl, rfl⟩ := Prod.mk.inj heq
      obtain ⟨sign, rfl, hsign⟩ := ih htail
      exact ⟨sign, rfl, hsign⟩

/-- Whether a call that closes the form and stands at the front has no token of a kind among its
arguments. -/
def startsWithout (p : Token → Bool) : List Token → Bool
  | .name first :: .op "." :: .name second :: .op "(" :: inner =>
    !isRelease [first, second] || (splitAtClose 0 inner).1.all (!p ·)
  | _ => true

/-- Whether no call that closes the form has a token of a kind among its arguments. -/
def releasesWithout (p : Token → Bool) (tokens : List Token) : Bool :=
  tokens.tails.all (startsWithout p)

section

variable {p : Token → Bool}

/-- A call that closes the form may stand anywhere among the tokens, so the condition is one on all
of their ends. -/
theorem releasesWithout_iff :
    releasesWithout p tokens = true ↔ ∀ rest, rest <:+ tokens → startsWithout p rest = true := by
  simp [releasesWithout, List.all_eq_true, List.mem_tails]

/-- The condition on a call looks no further than its closing parenthesis. -/
theorem startsWithout_of_append (h : startsWithout p (xs ++ ys) = true) :
    startsWithout p xs = true := by
  unfold startsWithout
  split
  · next first second inner =>
    rcases Bool.or_eq_true_iff.mp h with hrelease | hall
    · rw [hrelease]
      rfl
    · rw [List.all_eq_true] at hall
      rw [Bool.or_eq_true_iff, List.all_eq_true]
      exact .inr fun t ht => hall t ((splitAtClose_append 0 inner ys).subset ht)
  · rfl

/-- The condition passes to every stretch of the tokens, such as an argument. -/
theorem releasesWithout_of_isInfix (h : releasesWithout p tokens = true) (hxs : xs <:+: tokens) :
    releasesWithout p xs = true := by
  -- in the whole list a call may have more arguments, but never fewer
  obtain ⟨before, after, rfl⟩ := hxs
  rw [releasesWithout_iff] at h ⊢
  rintro rest ⟨lead, rfl⟩
  have hwhole : startsWithout p (rest ++ after) = true := h _ ⟨before ++ lead, by simp⟩
  exact startsWithout_of_append hwhole

/-- Where the condition holds, the arguments of a call that closes the form have no such tokens. -/
theorem eq_false_of_isRelease {first : String} {more : List String} {inner : List Token}
    (hwithout : releasesWithout p
      (.name first :: ((more.flatMap fun w => [.op ".", .name w]) ++ .op "(" :: inner)) = true)
    (h : isRelease (first :: more) = true) {token : Token} (ht : token ∈ (splitAtClose 0 inner).1) :
    p token = false := by
  have hstart := releasesWithout_iff.mp hwithout _ (List.suffix_refl _)
  match more, h with
  | [second], h =>
    rcases Bool.or_eq_true_iff.mp hstart with hrelease | hall
    · rw [h] at hrelease
      cases hrelease
    · simpa using List.all_eq_true.mp hall token ht

end

end ScreenForms.Code
