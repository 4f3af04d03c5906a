import ScreenForms.Proofs.Lexing
import ScreenForms.Proofs.TokenLiterals

/-!
# Closed parentheses

Where every literal of a text is closed, a closing parenthesis behind the text ends its last token,
so it cuts the tokens of the whole in two (`lexBehind_append_close`). Parentheses outside of quotes
are operators, so the tokens of a text close the parentheses that the text closes
(`closes_lexBehind`).
-/

namespace ScreenForms.Code

open Text

/-- Whether a text closes its literals, and the parentheses that it opens or that are open before
it, none sooner than it is opened. Carries the open quotation mark and the number of open
parentheses. -/
def closesText : Option Char → Nat → List Char → Bool
  | none, depth, [] => depth == 0
  | some _, _, [] => false
  | some mark, depth, c :: cs => closesText (if c = mark then none else some mark) depth cs
  | none, depth, c :: cs =>
    if isQuote c then closesText (some c) depth cs
    else if c = '(' then closesText none (depth + 1) cs
    else if c = ')' then depth != 0 && closesText none (depth - 1) cs
    else closesText none depth cs

/-- Whether tokens close the parentheses that they open or that are open before them. -/
def closes : Nat → List Token → Bool
  | depth, [] => depth == 0
  | depth, token :: tokens =>
    if token.isOp "(" then closes (depth + 1) tokens
    else if token.isOp ")" then depth != 0 && closes (depth - 1) tokens
    else closes depth tokens

section

variable {c mark : Char} {cs rest tail : List Char} {depth : Nat}

theorem closesText_plain (hquote : isQuote c = false) (hopen : c ≠ '(') (hclose : c ≠ ')') :
    closesText none depth (c :: cs) = closesText none depth cs := by
  rw [closesText, if_neg (by simp [hquote]), if_neg hopen, if_neg hclose]

/-- Inner characters of tokens are neither marks nor parentheses. -/
theorem closesText_inner {text : List Char} (h : ∀ d ∈ text, Token.isInner d = true) :
    closesText none depth (text ++ rest) = closesText none depth rest := by
  induction text with
  | nil => rfl
  | cons c text ih =>
    obtain ⟨hc, htext⟩ := List.forall_mem_cons.mp h
    have hne : ∀ d, Token.isInner d = false → c ≠ d := by
      rintro d hd rfl
      rw [hc] at hd
      cases hd
    have hquote : isQuote c = false :=
      plain_of_forall ⟨rfl, rfl⟩ (List.forall_mem_singleton.mpr hc) c (List.mem_singleton_self c)
    rw [List.cons_append, closesText_plain hquote (hne '(' rfl) (hne ')' rfl), ih htext]

/-- An open literal is closed by the next mark of its kind. -/
theorem closesText_quoted (h : closesText (some mark) depth cs = true) :
    closesText none depth ((cs.dropWhile (· != mark)).drop 1) = true := by
  induction cs with
  | nil => cases h
  | cons c cs ih =>
    rw [closesText] at h
    by_cases hmark : c = mark
    · simpa [hmark] using h
    · rw [if_neg hmark] at h
      simpa [hmark] using ih h

/-- A text that closes its parentheses closes its literals. -/
theorem isClosed_of_closesText (h : closesText none depth cs = true) : IsClosed cs := by
  have hread : ∀ (cs : List Char) (depth : Nat),
      (closesText none depth cs = true → (readLiterals none cs).isSome = true) ∧
        ∀ mark seen, closesText (some mark) depth cs = true →
          (readLiterals (some (mark, seen)) cs).isSome = true := by
    intro cs
    induction cs with
    | nil => exact fun depth => ⟨fun _ => rfl, fun _ _ h => by cases h⟩
    | cons c cs ih =>
      refine fun depth => ⟨fun h => ?_, fun mark seen h => ?_⟩
      · rw [closesText] at h
        rw [readLiterals]
        split at h
        · next hquote => exact if_pos hquote ▸ (ih depth).2 c [] h
        · next hquote =>
          rw [if_neg hquote]
          split at h
          · exact (ih _).1 h
          · split at h
            · exact (ih _).1 (Bool.and_eq_true_iff.mp h).2
            · exact (ih _).1 h
      · rw [closesText] at h
        rw [readLiterals]
        by_cases hmark : c = mark
        · rw [if_pos hmark] at h
          simpa [hmark] using (ih depth).1 h
        · rw [if_neg hmark] at h
          rw [if_neg hmark]
          exact (ih depth).2 mark _ h
  obtain ⟨ls, hls⟩ := Option.isSome_iff_exists.mp ((hread cs depth).1 h)
  exact ⟨ls, readLiterals_eq_some_iff.mp hls⟩

end

namespace Token

variable {previous : Option Token} {token : Token} {tokens : List Token} {c : Char}
  {cs rest tail : List Char} {ls : List (List Char)} {depth : Nat}

/-! ## Texts in front of a closing parenthesis -/

theorem span_append_close {p : Char → Bool} (hp : p ')' = false) (cs tail : List Char) :
    (cs ++ ')' :: tail).takeWhile p = cs.takeWhile p ∧
      (cs ++ ')' :: tail).dropWhile p = cs.dropWhile p ++ ')' :: tail := by
  induction cs with
  | nil => simp [hp]
  | cons c cs ih =>
    obtain ⟨htake, hdrop⟩ := ih
    rcases hc : p c with _ | _
    · simp [hc]
    · simp [hc, htake, hdrop]

theorem spanNumber_append_close (cs tail : List Char) : spanNumber (cs ++ ')' :: tail) =
    ((spanNumber cs).1, (spanNumber cs).2 ++ ')' :: tail) := by
  fun_induction spanNumber cs with
  | case1 d cs hd number rest hrest ih =>
    rw [hrest] at ih
    simp [spanNumber, hd, ih]
  | case2 d cs hd => simp [spanNumber, hd]
  | case3 c cs hdot hc number rest hrest ih =>
    rw [hrest] at ih
    have hsign : c ≠ '.' := by
      rintro rfl
      cases hc
    rw [List.cons_append, spanNumber, if_pos hc, ih]
    exact fun _ _ heq => absurd heq hsign
  | case4 c cs hdot hc =>
    rcases cs with _ | ⟨d, cs⟩
    · by_cases hsign : c = '.'
      · subst hsign
        rfl
      · simp [spanNumber, hc, hsign]
    · have hsign : c ≠ '.' := fun hsign => hdot d cs hsign rfl
      rw [List.cons_append, spanNumber, if_neg hc]
      exact fun _ _ heq => absurd heq hsign
  | case5 => rfl

theorem readDotted?_append_close (previous : Option Token) (cs tail : List Char) :
    readDotted? previous (cs ++ ')' :: tail) =
      (readDotted? previous cs).map fun found => (found.1, found.2 ++ ')' :: tail) := by
  rw [readDotted?, readDotted?]
  split
  · rfl
  by_cases hdot : '.' ∈ cs
  · obtain ⟨htake, hdrop⟩ := span_append_of_mem (· != '.') hdot (bne_self_eq_false _) (')' :: tail)
    have hmem := mem_dropWhile (· != '.') hdot (bne_self_eq_false _)
    rw [htake, hdrop]
    obtain ⟨dot, rest, hrest⟩ := List.exists_cons_of_ne_nil (List.ne_nil_of_mem hmem)
    rw [hrest]
    dsimp only [List.cons_append]
    split <;> rfl
  · -- no word between dots has a parenthesis in it
    have hinside : ∀ d ∈ cs, (d != '.') = true := by
      intro d hd
      rw [bne_iff_ne]
      rintro rfl
      exact hdot hd
    have hclose : ∀ word ∈ dottedWords, ')' ∉ word.toList := by decide
    have hword : String.ofList (((cs ++ ')' :: tail).takeWhile (· != '.')).map Char.toUpper) ∉
        dottedWords := by
      refine fun hmem => hclose _ hmem ?_
      rw [String.toList_ofList, List.takeWhile_append_of_pos hinside]
      simp
    rw [List.dropWhile_eq_nil_iff.mpr hinside]
    split
    · rfl
    · exact if_neg hword

theorem readOp_append_close (c : Char) (cs tail : List Char) :
    readOp c (cs ++ ')' :: tail) = ((readOp c cs).1, (readOp c cs).2 ++ ')' :: tail) := by
  rcases cs with _ | ⟨d, cs⟩
  · have hpair : ∀ sign ∈ pairOperators, sign.toList.getLast? ≠ some ')' := by decide
    refine if_neg fun hmem => hpair _ hmem ?_
    rw [String.toList_ofList]
    rfl
  · rw [List.cons_append, readOp, readOp]
    split <;> rfl

/-- A token that is no literal ends at a closing parenthesis at the latest. -/
theorem read_append_close (previous : Option Token) (hquote : isQuote c = false)
    (cs tail : List Char) : read previous c (cs ++ ')' :: tail) =
      ((read previous c cs).1, (read previous c cs).2 ++ ')' :: tail) := by
  have hmark : ¬(c = '"' ∨ c = '\'') := by simpa [isQuote] using hquote
  rw [read, read]
  by_cases hblank : Text.isBlank c = true
  · obtain ⟨htake, hdrop⟩ := span_append_close (p := Text.isBlank) rfl cs tail
    rw [if_pos hblank, if_pos hblank, htake, hdrop]
  rw [if_neg hblank, if_neg hblank, if_neg hmark, if_neg hmark, readDotted?_append_close]
  have hfound : (if c = '.' then (readDotted? previous cs).map fun found =>
        (found.1, found.2 ++ ')' :: tail) else none) =
      (if c = '.' then readDotted? previous cs else none).map fun found =>
        (found.1, found.2 ++ ')' :: tail) := by
    split <;> rfl
  rw [hfound]
  cases if c = '.' then readDotted? previous cs else none with
  | some found => rfl
  | none =>
    dsimp only [Option.map]
    split
    · rw [spanNumber_append_close]
    · split
      · obtain ⟨htake, hdrop⟩ := span_append_close (p := isNamePart) (by decide) cs tail
        rw [htake, hdrop]
      · exact readOp_append_close c cs tail

/-- A closing parenthesis cuts the tokens in two, where all literals before it are closed. -/
theorem lexBehind_append_close (h : HasLiterals cs ls) (previous : Option Token)
    (tail : List Char) : lexBehind previous (cs ++ ')' :: tail) =
      lexBehind previous cs ++ .op ")" :: lexBehind (some (.op ")")) tail := by
  -- what a token leaves of the text is shorter, and its literals are closed again
  induction hlength : cs.length using Nat.strong_induction_on generalizing cs ls previous with
  | _ n ih =>
    rcases cs with _ | ⟨c, cs⟩
    · refine lexBehind_sign (by decide +kernel) (fun d _ _ => ?_) previous
      exact not_mem_pairOperators (by decide) d
    · have hshort : cs.length < n := by
        rw [← hlength]
        exact Nat.lt_succ_self _
      rw [List.cons_append]
      by_cases hc : isQuote c = true
      · obtain ⟨content, rest, ms, rfl, hcontent, rfl, hrest⟩ := h.exists_of_mark hc
        rw [List.length_append, List.length_cons] at hshort
        rw [List.append_assoc, List.cons_append, lexBehind_of_read (read_literal hc hcontent ..),
          lexBehind_of_read (read_literal hc hcontent ..), ih _ (by omega) hrest _ rfl]
        rfl
      · rw [Bool.not_eq_true] at hc
        obtain ⟨-, hbehind⟩ := (readFrom_read previous c cs).behind hc
        have hrest := hbehind.hasLiterals (h.of_cons hc)
        have hlength := (length_read_le previous c cs).trans_lt hshort
        rw [lexBehind_of_read (read_append_close previous hc cs tail), lexBehind_cons,
          ih _ hlength hrest _ rfl]
        rfl

/-! ## Parentheses among tokens -/

theorem lexBehind_open (previous : Option Token) (cs : List Char) :
    lexBehind previous ('(' :: cs) = .op "(" :: lexBehind (some (.op "(")) cs := by
  refine lexBehind_sign (by decide +kernel) (fun d _ _ => ?_) previous
  exact not_mem_pairOperators (by decide) d

theorem closes_of_neg (hopen : token.isOp "(" = false) (hclose : token.isOp ")" = false) :
    closes depth (token :: tokens) = closes depth tokens := by
  rw [closes, if_neg (by simp [hopen]), if_neg (by simp [hclose])]

/-- A sign that stands alone is a parenthesis exactly if its character is. -/
theorem closes_sign (hquote : isQuote c = false) (htext : closesText none depth (c :: cs) = true)
    (htokens : ∀ depth, closesText none depth cs = true → closes depth tokens = true) :
    closes depth (.op (String.ofList [c]) :: tokens) = true := by
  have hsign : ∀ d, isOp (String.ofList [d]) (.op (String.ofList [c])) = true ↔ c = d := by
    intro d
    rw [isOp, beq_iff_eq, String.ofList_inj, List.singleton_inj]
  have hopen : isOp "(" (.op (String.ofList [c])) = true ↔ c = '(' := hsign '('
  have hclose : isOp ")" (.op (String.ofList [c])) = true ↔ c = ')' := hsign ')'
  rw [closesText, if_neg (by simp [hquote])] at htext
  simp only [closes, hopen, hclose]
  split at htext
  · next hc => exact (if_pos hc).trans (htokens _ htext)
  next hne =>
  rw [if_neg hne]
  split at htext
  · next hc =>
    obtain ⟨hdepth, hrest⟩ := Bool.and_eq_true_iff.mp htext
    exact (if_pos hc).trans (Bool.and_eq_true_iff.mpr ⟨hdepth, htokens _ hrest⟩)
  · next hc => exact (if_neg hc).trans (htokens _ htext)

/-- No pair of signs has a parenthesis in it. -/
theorem closes_pair {d : Char} (hpair : String.ofList [c, d] ∈ pairOperators) (depth : Nat)
    (cs : List Char) (tokens : List Token) :
    closesText none depth (c :: d :: cs) = closesText none depth cs ∧
      closes depth (.op (String.ofList [c, d]) :: tokens) = closes depth tokens := by
  have hplain : ∀ sign ∈ pairOperators, isOp "(" (.op sign) = false ∧
      isOp ")" (.op sign) = false ∧ sign.toList.all (!isMark ·) = true := by decide
  obtain ⟨hopen, hclose, hmarks⟩ := hplain _ hpair
  have hskip : ∀ e ∈ [c, d], ∀ cs, closesText none depth (e :: cs) = closesText none depth cs := by
    intro e he cs
    rw [String.toList_ofList] at hmarks
    have hmark : isMark e = false := by simpa using List.all_eq_true.mp hmarks e he
    simp only [isMark, Bool.or_eq_false_iff, beq_eq_false_iff_ne] at hmark
    exact closesText_plain hmark.1.1.1.1 hmark.1.1.1.2 hmark.1.2
  exact ⟨by rw [hskip c (by simp), hskip d (by simp)], closes_of_neg hopen hclose⟩

/-- Reading a token takes its parenthesis off the text, if it is one. -/
theorem ReadFrom.closes (h : ReadFrom c cs token rest)
    (htext : closesText none depth (c :: cs) = true)
    (htokens : ∀ depth, closesText none depth rest = true → closes depth tokens = true) :
    Code.closes depth (token :: tokens) = true := by
  have hinner : (∀ sign, token ≠ .op sign) → (∀ content, token ≠ .str content) →
      Code.closes depth (token :: tokens) = true := by
    intro hop hstr
    obtain ⟨text, rfl, hinner⟩ := h.exists_inner hop hstr
    have hsign : ∀ sign, token.isOp sign = false := by
      intro sign
      cases token with
      | op other => exact absurd rfl (hop other)
      | _ => rfl
    rw [← List.cons_append, closesText_inner hinner] at htext
    rw [closes_of_neg (hsign _) (hsign _)]
    exact htokens depth htext
  cases h with
  | str hc hquote =>
    rw [closesText, if_pos hquote] at htext
    exact htokens depth (closesText_quoted htext)
  | sign hc hquote => exact closes_sign hquote htext htokens
  | pair hc d rest hpair hcs =>
    obtain ⟨hskip, htoken⟩ := closes_pair hpair depth rest tokens
    rw [hcs, hskip] at htext
    exact htoken.trans (htokens depth htext)
  | _ => exact hinner nofun nofun

theorem closes_append {xs ys : List Token} {m n : Nat} (hxs : closes m xs = true)
    (hys : closes n ys = true) : closes (m + n) (xs ++ ys) = true := by
  induction xs generalizing m with
  | nil =>
    obtain rfl : m = 0 := eq_of_beq hxs
    rwa [Nat.zero_add]
  | cons token xs ih =>
    rw [closes] at hxs
    rw [List.cons_append, closes]
    split at hxs
    · next hopen =>
      rw [if_pos hopen, Nat.add_right_comm]
      exact ih hxs
    next hopen =>
    rw [if_neg hopen]
    split at hxs
    · next hclose =>
      obtain ⟨hdepth, hxs⟩ := Bool.and_eq_true_iff.mp hxs
      have hpos : m ≠ 0 := by simpa using hdepth
      rw [if_pos hclose, Bool.and_eq_true_iff, Nat.sub_add_comm (Nat.pos_of_ne_zero hpos)]
      exact ⟨by simp [hpos], ih hxs⟩
    · next hclose =>
      rw [if_neg hclose]
      exact ih hxs

/-- The tokens of a text close the parentheses that the text closes. -/
theorem closes_lexBehind (h : closesText none depth cs = true) (previous : Option Token) :
    closes depth (lexBehind previous cs) = true := by
  induction hlength : cs.length using Nat.strong_induction_on generalizing cs depth previous with
  | _ n ih =>
    rcases cs with _ | ⟨c, cs⟩
    · exact h
    · rw [lexBehind_cons]
      refine (readFrom_read previous c cs).closes h fun depth hrest => ih _ ?_ hrest _ rfl
      rw [← hlength, List.length_cons]
      exact Nat.lt_succ_of_le (length_read_le previous c cs)

end Token

end ScreenForms.Code
