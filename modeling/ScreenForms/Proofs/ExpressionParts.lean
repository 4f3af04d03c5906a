import ScreenForms.Proofs.EqualitySigns
import ScreenForms.Proofs.Parentheses

/-!
# Parts of expressions

An expression is spelled part by part: a part is some text or a call, and the tokens behind it are
an expression of their own (`expr_cons`). Which part stands at the front is read off the tokens
alone, and it takes up at least one of them, so there are always steps enough. Tokens that close
their parentheses and end with a closing one make up whole parts, whatever stands behind them, so
the two sides are spelled apart (`expr_append`).
-/

namespace ScreenForms.Code

open Token

/-- What stands at the front of an expression, and the tokens behind it. -/
inductive Part where
  | plain (text : String) (after : List Token)
  /-- a call with the tokens between its parentheses, and whether it is closed -/
  | call (segments : List String) (inside : List Token) (closed : Bool) (after : List Token)

namespace Part

/-- The tokens behind a part. -/
def after : Part → List Token
  | .plain _ after => after
  | .call _ _ _ after => after

/-- A part with more tokens behind it. -/
def append (tail : List Token) : Part → Part
  | .plain text after => .plain text (after ++ tail)
  | .call segments inside closed after => .call segments inside closed (after ++ tail)

/-- The spelling of a part and of what stands behind it, given that of expressions. -/
def spell (ctx : Context) (write : List Token → String) : Part → String
  | .plain text after => text ++ write after
  | .call segments inside closed after =>
    callText ctx segments ((argumentsOf inside).map fun arg => write (Token.trim arg)) closed ++
      write after

/-- Whether a part and what stands behind it are cut from a list. -/
def IsCutFrom (tokens : List Token) : Part → Prop
  | .plain _ after => after <:+ tokens
  | .call _ inside _ after => inside <:+: tokens ∧ after <:+ tokens

end Part

/-- A reference, or a call of it. -/
def referencePart (ctx : Context) (segments : List String) : List Token → Part
  | .op "(" :: inner =>
    let (inside, behind) := splitAtClose 0 inner
    .call segments inside behind.isSome (behind.getD [])
  | after => .plain (referenceText ctx segments) after

/-- The part of an expression that begins with the given token. -/
def partAt (ctx : Context) (test : Bool) (token : Token) (rest : List Token) : Part :=
  match token with
  | .name word =>
    let words := idiom ctx.target
    if word.toUpper = "AND" then .plain words.andWord rest
    else if word.toUpper = "OR" then .plain words.orWord rest
    else if word.toUpper = "NOT" then
      if words.braces then .plain words.notWord (dropBlank rest) else .plain "not" rest
    else
      let (more, after) := spanChain rest
      referencePart ctx (word :: more) after
  | token => .plain (tokenText ctx.target test token) rest

section

variable {ctx : Context} {test : Bool} {fuel : Nat} {token : Token} {rest tokens tail : List Token}

theorem exprFrom_succ (ctx : Context) (test : Bool) (fuel : Nat) (token : Token)
    (rest : List Token) : exprFrom ctx test (fuel + 1) (token :: rest) =
      (partAt ctx test token rest).spell ctx (exprFrom ctx test fuel) := by
  cases token with
  | name word =>
    rw [partAt]
    dsimp only
    split
    · next hand => exact exprFrom_and hand
    split
    · next hor => exact exprFrom_or hor
    split
    · next hnot =>
      rw [exprFrom_not hnot]
      split <;> rfl
    next hand hor hnot =>
      unfold referencePart
      split
      · next inner hafter => exact exprFrom_call hand hor hnot (Prod.ext rfl hafter)
      · next hafter => exact exprFrom_reference hand hor hnot rfl hafter
  | _ => exact exprFrom_cons nofun

theorem isCutFrom_partAt (ctx : Context) (test : Bool) (token : Token) (rest : List Token) :
    (partAt ctx test token rest).IsCutFrom rest := by
  cases token with
  | name word =>
    rw [partAt]
    dsimp only
    split
    · exact List.suffix_refl rest
    split
    · exact List.suffix_refl rest
    split
    · split
      · exact dropBlank_suffix rest
      · exact List.suffix_refl rest
    have hchain : (spanChain rest).2 <:+ rest := ⟨_, (spanChain_eq rest).symm⟩
    unfold referencePart
    split
    · next inner hafter =>
      have hinner : inner <:+ rest := (List.suffix_cons _ _).trans (hafter ▸ hchain)
      exact ⟨(isPrefix_splitAtClose 0 inner).isInfix.trans hinner.isInfix,
        (isSuffix_splitAtClose 0 inner).trans hinner⟩
    · exact hchain
  | _ => exact List.suffix_refl rest

theorem Part.IsCutFrom.isSuffix {part : Part} (h : part.IsCutFrom tokens) :
    part.after <:+ tokens := by
  cases part with
  | plain => exact h
  | call => exact h.2

/-- Spellings that agree on what is cut from a list agree on its parts. -/
theorem Part.spell_congr {part : Part} {write write' : List Token → String}
    (hpart : part.IsCutFrom tokens)
    (h : ∀ xs : List Token, xs <:+: tokens → write xs = write' xs) :
    part.spell ctx write = part.spell ctx write' := by
  cases part with
  | plain text after => exact congrArg (text ++ ·) (h after hpart.isInfix)
  | call segments inside closed after =>
    have hargs : (argumentsOf inside).map (fun arg => write (Token.trim arg)) =
        (argumentsOf inside).map fun arg => write' (Token.trim arg) := by
      refine List.map_congr_left fun arg harg => h _ ?_
      exact (isInfix_trim arg).trans ((isInfix_of_mem_argumentsOf harg).trans hpart.1)
    rw [spell, spell, hargs, h after hpart.2.isInfix]

/-- A step takes up a token at least. -/
theorem exprFrom_of_le (h : tokens.length ≤ fuel) :
    exprFrom ctx test fuel tokens = expr ctx test tokens := by
  have hboth : ∀ (n m : Nat) (tokens : List Token), tokens.length ≤ n → tokens.length ≤ m →
      exprFrom ctx test n tokens = exprFrom ctx test m tokens := by
    intro n
    induction n with
    | zero =>
      intro m tokens hn _
      rw [List.eq_nil_of_length_eq_zero (Nat.le_zero.mp hn)]
      cases m <;> rfl
    | succ n ih =>
      intro m tokens hn hm
      rcases tokens with _ | ⟨token, rest⟩
      · cases m <;> rfl
      · obtain ⟨m, rfl⟩ : ∃ k, m = k + 1 := Nat.exists_eq_add_one.mpr (Nat.zero_lt_of_lt hm)
        rw [exprFrom_succ, exprFrom_succ]
        refine Part.spell_congr (isCutFrom_partAt ctx test token rest) fun xs hxs => ih m xs ?_ ?_
        · exact hxs.length_le.trans (Nat.le_of_succ_le_succ hn)
        · exact hxs.length_le.trans (Nat.le_of_succ_le_succ hm)
  exact hboth fuel tokens.length tokens h le_rfl

@[simp] theorem expr_nil : expr ctx test [] = "" := rfl

/-- An expression is its first part and the expression behind it. -/
theorem expr_cons (ctx : Context) (test : Bool) (token : Token) (rest : List Token) :
    expr ctx test (token :: rest) = (partAt ctx test token rest).spell ctx (expr ctx test) := by
  rw [expr, List.length_cons, exprFrom_succ]
  exact Part.spell_congr (isCutFrom_partAt ctx test token rest) fun xs hxs =>
    exprFrom_of_le hxs.length_le

/-! ## Tokens behind closed parentheses -/

/-- Tokens that end with a closing parenthesis, if there are any. -/
def Sealed (tokens : List Token) : Prop := ∀ token ∈ tokens.getLast?, token = .op ")"

theorem Sealed.of_isSuffix (h : Sealed tokens) (hsuffix : rest <:+ tokens) : Sealed rest := by
  obtain ⟨lead, rfl⟩ := hsuffix
  intro token htoken
  refine h token ?_
  rw [List.getLast?_append, Option.mem_def.mp htoken]
  rfl

theorem Sealed.ne_nil (h : Sealed (token :: rest)) (htoken : token ≠ .op ")") : rest ≠ [] := by
  rintro rfl
  exact htoken (h token rfl)

theorem dropBlank_append (hne : tokens ≠ []) (tail : List Token) :
    dropBlank (tokens ++ tail) = dropBlank tokens ++ tail := by
  obtain ⟨token, rest, rfl⟩ := List.exists_cons_of_ne_nil hne
  rw [List.cons_append]
  cases token <;> rfl

theorem spanChain_append (h : Sealed tokens) (hne : tokens ≠ []) (tail : List Token) :
    spanChain (tokens ++ tail) = ((spanChain tokens).1, (spanChain tokens).2 ++ tail) ∧
      (spanChain tokens).2 ≠ [] := by
  fun_induction spanChain tokens with
  | case1 word rest words after hafter ih =>
    have hrest := h.of_isSuffix ((List.suffix_cons _ _).trans (List.suffix_cons _ _))
    have hname : Sealed (.name word :: rest) := h.of_isSuffix (List.suffix_cons _ _)
    obtain ⟨hchain, hbehind⟩ := ih hrest (hname.ne_nil (by simp))
    rw [hafter] at hchain hbehind
    exact ⟨by rw [List.cons_append, List.cons_append, spanChain, hchain], hbehind⟩
  | case2 tokens hshape =>
    refine ⟨?_, hne⟩
    unfold spanChain
    split
    · next word rest heq =>
      rcases tokens with _ | ⟨first, _ | ⟨second, more⟩⟩
      · exact absurd rfl hne
      · obtain ⟨rfl, -⟩ := List.cons.inj heq
        exact absurd (h _ rfl) (by decide)
      · obtain ⟨rfl, hmore⟩ := List.cons.inj heq
        obtain ⟨rfl, -⟩ := List.cons.inj hmore
        exact absurd rfl (hshape word more)
    · rfl

/-- A parenthesis that is closed is found closed, whatever stands behind. The induction is on the
tokens, with the parentheses that are open further inside counted in `depth`. -/
theorem splitAtClose_of_closes {depth outer : Nat}
    (h : closes (depth + outer + 1) tokens = true) (tail : List Token) :
    ∃ behind, (splitAtClose depth tokens).2 = some behind ∧ closes outer behind = true ∧
      splitAtClose depth (tokens ++ tail) =
        ((splitAtClose depth tokens).1, some (behind ++ tail)) := by
  induction tokens generalizing depth with
  | nil => simp [closes] at h
  | cons token tokens ih =>
    rw [List.cons_append, splitAtClose, splitAtClose]
    rw [closes] at h
    by_cases hend : token.isOp ")" = true ∧ depth = 0
    · obtain ⟨hclose, rfl⟩ := hend
      obtain rfl := eq_op_of_isOp hclose
      exact ⟨tokens, rfl, by simpa [isOp] using h, rfl⟩
    · rw [if_neg hend, if_neg hend]
      have hdeeper : closes ((if token.isOp "(" = true then depth + 1
          else if token.isOp ")" = true then depth - 1 else depth) + outer + 1) tokens = true := by
        split at h
        · next hopen =>
          rw [if_pos hopen]
          rwa [show depth + 1 + outer + 1 = depth + outer + 1 + 1 by omega]
        · next hopen =>
          rw [if_neg hopen]
          split at h
          · next hclose =>
            have hdepth : depth ≠ 0 := fun hzero => hend ⟨hclose, hzero⟩
            obtain ⟨-, h⟩ := Bool.and_eq_true_iff.mp h
            rw [if_pos hclose]
            rwa [show depth - 1 + outer + 1 = depth + outer + 1 - 1 by omega]
          · next hclose => rwa [if_neg hclose]
      obtain ⟨behind, hbehind, houter, happend⟩ := ih hdeeper
      refine ⟨behind, hbehind, houter, ?_⟩
      dsimp only
      rw [happend]

theorem exists_closes_of_cons {depth : Nat} (h : closes depth (token :: rest) = true) :
    ∃ depth, closes depth rest = true := by
  rw [closes] at h
  split at h
  · exact ⟨_, h⟩
  · split at h
    · exact ⟨_, (Bool.and_eq_true_iff.mp h).2⟩
    · exact ⟨_, h⟩

theorem closes_dropBlank (depth : Nat) (tokens : List Token) :
    closes depth (dropBlank tokens) = closes depth tokens := by
  unfold dropBlank
  split <;> rfl

theorem closes_spanChain (depth : Nat) (tokens : List Token) :
    closes depth (spanChain tokens).2 = closes depth tokens := by
  fun_induction spanChain tokens with
  | case1 word rest words after hafter ih =>
    rw [hafter] at ih
    exact ih
  | case2 => rfl

theorem referencePart_append {segments : List String} {depth : Nat}
    (h : closes depth tokens = true) (hne : tokens ≠ []) (tail : List Token) :
    referencePart ctx segments (tokens ++ tail) =
        (referencePart ctx segments tokens).append tail ∧
      ∃ depth, closes depth (referencePart ctx segments tokens).after = true := by
  obtain ⟨token, rest, rfl⟩ := List.exists_cons_of_ne_nil hne
  by_cases htoken : token = .op "("
  · subst htoken
    have hinner : closes (0 + depth + 1) rest = true := by
      rw [Nat.zero_add]
      exact h
    obtain ⟨behind, hbehind, hclosed, happend⟩ := splitAtClose_of_closes hinner tail
    rw [List.cons_append, referencePart, referencePart]
    dsimp only
    rw [happend, hbehind]
    exact ⟨rfl, depth, hclosed⟩
  · have hplain : ∀ more, referencePart ctx segments (token :: more) =
        .plain (referenceText ctx segments) (token :: more) := by
      intro more
      unfold referencePart
      split
      · next heq => exact absurd (List.cons.inj heq).1 htoken
      · rfl
    rw [List.cons_append, hplain, hplain]
    exact ⟨rfl, depth, h⟩

/-- Tokens that close their parentheses and end with a closing one begin with the same part
whatever stands behind them, and what they have behind the part is closed as well. -/
theorem partAt_append (ctx : Context) (test : Bool) {depth : Nat}
    (h : closes depth (token :: rest) = true) (hseal : Sealed (token :: rest)) (tail : List Token) :
    partAt ctx test token (rest ++ tail) = (partAt ctx test token rest).append tail ∧
      ∃ depth, closes depth (partAt ctx test token rest).after = true := by
  cases token with
  | name word =>
    have hne : rest ≠ [] := hseal.ne_nil (by simp)
    have hrest : closes depth rest = true := h
    rw [partAt, partAt]
    dsimp only
    split
    · exact ⟨rfl, depth, hrest⟩
    split
    · exact ⟨rfl, depth, hrest⟩
    split
    · split
      · rw [dropBlank_append hne]
        exact ⟨rfl, depth, (closes_dropBlank depth rest).trans hrest⟩
      · exact ⟨rfl, depth, hrest⟩
    obtain ⟨hchain, hbehind⟩ := spanChain_append (hseal.of_isSuffix (List.suffix_cons _ _)) hne tail
    rw [hchain]
    exact referencePart_append ((closes_spanChain depth rest).trans hrest) hbehind tail
  | _ => exact ⟨rfl, exists_closes_of_cons h⟩

theorem Part.spell_append {part : Part} {write : List Token → String}
    (h : write (part.after ++ tail) = write part.after ++ write tail) :
    (part.append tail).spell ctx write = part.spell ctx write ++ write tail := by
  cases part with
  | plain text after => exact (congrArg _ h).trans (String.append_assoc ..).symm
  | call segments inside closed after => exact (congrArg _ h).trans (String.append_assoc ..).symm

/-- What stands behind closed parentheses is spelled on its own. -/
theorem expr_append {depth : Nat} (h : closes depth tokens = true) (hseal : Sealed tokens)
    (tail : List Token) :
    expr ctx test (tokens ++ tail) = expr ctx test tokens ++ expr ctx test tail := by
  induction hlength : tokens.length using Nat.strong_induction_on generalizing tokens depth with
  | _ n ih =>
    rcases tokens with _ | ⟨token, rest⟩
    · simp
    · obtain ⟨hpart, depth', hafter⟩ := partAt_append ctx test h hseal tail
      have hsuffix := (isCutFrom_partAt ctx test token rest).isSuffix
      rw [List.cons_append, expr_cons, expr_cons, hpart]
      refine Part.spell_append (ih _ ?_ hafter (hseal.of_isSuffix ?_) rfl)
      · rw [← hlength]
        exact Nat.lt_succ_of_le hsuffix.length_le
      · exact hsuffix.trans (List.suffix_cons token rest)

end

end ScreenForms.Code
