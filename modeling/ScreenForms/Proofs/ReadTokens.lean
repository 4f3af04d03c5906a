import ScreenForms.Code.Token
import ScreenForms.Proofs.Folding
import ScreenForms.Proofs.Literals

/-!
# Reading tokens

What a character and those behind it are read as is settled by the character: a token of one of
seven forms, together with what is left of the text (`ReadFrom`). A token that is neither an
operator nor a string literal takes up nothing but blanks, dots and characters of names
(`ReadFrom.exists_inner`), so marks of quotes and signs are only ever read where they stand alone.
-/

namespace ScreenForms.Code.Token

open Text

/-- How a character and those behind it are read: as a token and what is left. -/
inductive ReadFrom (c : Char) (cs : List Char) : Token → List Char → Prop where
  | blank (hc : Text.isBlank c = true) :
    ReadFrom c cs (.blank (String.ofList (c :: cs.takeWhile Text.isBlank)))
      (cs.dropWhile Text.isBlank)
  | str (hc : Text.isBlank c = false) (hquote : isQuote c = true) :
    ReadFrom c cs (.str (String.ofList (cs.takeWhile (· != c)))) ((cs.dropWhile (· != c)).drop 1)
  | dotted (hc : Text.isBlank c = false) (hdot : c = '.') (word rest : List Char)
    (hword : String.ofList (word.map Char.toUpper) ∈ dottedWords) (hcs : cs = word ++ '.' :: rest) :
    ReadFrom c cs (.dotted (String.ofList (word.map Char.toUpper))) rest
  | num (hc : Text.isBlank c = false) (hdigit : c.isDigit = true) :
    ReadFrom c cs (.num (String.ofList (c :: (spanNumber cs).1))) (spanNumber cs).2
  | name (hc : Text.isBlank c = false) (hletter : (isLetter c || c == '_') = true) :
    ReadFrom c cs (.name (String.ofList (c :: cs.takeWhile isNamePart))) (cs.dropWhile isNamePart)
  | sign (hc : Text.isBlank c = false) (hquote : isQuote c = false)
    (hpair : ∀ d rest, cs = d :: rest → String.ofList [c, d] ∉ pairOperators) :
    ReadFrom c cs (.op (String.ofList [c])) cs
  | pair (hc : Text.isBlank c = false) (d : Char) (rest : List Char)
    (hpair : String.ofList [c, d] ∈ pairOperators) (hcs : cs = d :: rest) :
    ReadFrom c cs (.op (String.ofList [c, d])) rest

section

variable {previous : Option Token} {c : Char} {cs rest : List Char} {token : Token}

theorem readFrom_readOp (hc : Text.isBlank c = false) (hquote : isQuote c = false)
    (cs : List Char) : ReadFrom c cs (readOp c cs).1 (readOp c cs).2 := by
  cases cs with
  | nil => exact .sign hc hquote nofun
  | cons d cs =>
    rw [readOp]
    split
    · next hpair => exact .pair hc d cs hpair rfl
    · next hpair =>
      refine .sign hc hquote ?_
      rintro d rest ⟨⟩
      exact hpair

theorem readFrom_readDotted? (hc : Text.isBlank c = false) (hdot : c = '.')
    {found : Token × List Char} (h : readDotted? previous cs = some found) :
    ReadFrom c cs found.1 found.2 := by
  rw [readDotted?] at h
  split at h
  · cases h
  · split at h
    · cases h
    · next dot rest hdrop =>
      dsimp only at h
      split at h
      · next hword =>
        obtain rfl := Option.some.inj h
        have hclosing : dot = '.' := by
          have hhead := List.head?_dropWhile_not (· != '.') cs
          simpa [hdrop] using hhead
        subst hclosing
        refine .dotted hc hdot _ rest hword ?_
        rw [← hdrop, List.takeWhile_append_dropWhile]
      · cases h

theorem readFrom_read (previous : Option Token) (c : Char) (cs : List Char) :
    ReadFrom c cs (read previous c cs).1 (read previous c cs).2 := by
  rw [read]
  split
  · next hblank => exact .blank hblank
  · next hsolid =>
    have hc : Text.isBlank c = false := by simpa using hsolid
    split
    · next hquote => exact .str hc (by simpa [isQuote] using hquote)
    · next hplain =>
      have hquote : isQuote c = false := by simpa [isQuote] using hplain
      split
      · next found hdotted =>
        split at hdotted
        · next hdot => exact readFrom_readDotted? hc hdot hdotted
        · cases hdotted
      · split
        · next hdigit => exact .num hc hdigit
        · split
          · next hletter => exact .name hc hletter
          · exact readFrom_readOp hc hquote cs

theorem ReadFrom.isBlank_eq (h : ReadFrom c cs token rest) : token.isBlank = Text.isBlank c := by
  cases h with
  | blank hc => exact hc.symm
  | str hc => exact hc.symm
  | dotted hc => exact hc.symm
  | num hc => exact hc.symm
  | name hc => exact hc.symm
  | sign hc => exact hc.symm
  | pair hc => exact hc.symm

/-- An equals sign is read as it stands. -/
theorem ReadFrom.of_isOp_assign (h : ReadFrom c cs token rest) (hassign : token.isOp "=" = true) :
    c = '=' ∧ rest = cs := by
  cases h with
  | sign =>
    have hsign := congrArg String.toList (eq_of_beq hassign)
    rw [String.toList_ofList] at hsign
    exact ⟨(List.cons.inj hsign).1, rfl⟩
  | pair hc d rest hpair =>
    have hlengths : ∀ sign ∈ pairOperators, sign ≠ "=" := by decide
    exact absurd (eq_of_beq hassign) (hlengths _ hpair)
  | _ => cases hassign

/-! ## Characters of tokens -/

/-- A character of blanks, names, numbers and words between dots. -/
def isInner (c : Char) : Bool := Text.isBlank c || isNamePart c || c == '.'

theorem isInner_of_isAlphanum (h : c.isAlphanum = true) : isInner c = true := by
  simp [isInner, isNamePart, isLetterOrNumeral_of_isAlphanum h]

theorem isInner_of_isDigit (h : c.isDigit = true) : isInner c = true :=
  isInner_of_isAlphanum (by simp [Char.isAlphanum, h])

theorem spanNumber_eq (cs : List Char) :
    cs = (spanNumber cs).1 ++ (spanNumber cs).2 ∧ ∀ d ∈ (spanNumber cs).1, isInner d = true := by
  fun_induction spanNumber cs with
  | case1 d cs hd number rest hrest ih =>
    rw [hrest] at ih
    refine ⟨congrArg ('.' :: d :: ·) ih.1, ?_⟩
    exact List.forall_mem_cons.mpr ⟨rfl, List.forall_mem_cons.mpr ⟨isInner_of_isDigit hd, ih.2⟩⟩
  | case2 d cs => exact ⟨rfl, List.forall_mem_nil _⟩
  | case3 c cs _ hc number rest hrest ih =>
    rw [hrest] at ih
    exact ⟨congrArg (c :: ·) ih.1, List.forall_mem_cons.mpr ⟨isInner_of_isDigit hc, ih.2⟩⟩
  | case4 c cs => exact ⟨rfl, List.forall_mem_nil _⟩
  | case5 => exact ⟨rfl, List.forall_mem_nil _⟩

theorem isAlpha_of_mem_dottedWord {word : List Char}
    (hword : String.ofList (word.map Char.toUpper) ∈ dottedWords) {d : Char} (hd : d ∈ word) :
    d.isAlpha = true := by
  have hletters : ∀ w ∈ dottedWords, w.toList.all Char.isUpper = true := by decide
  rw [← Char.isUpper_toUpper_eq_isAlpha]
  refine List.all_eq_true.mp (hletters _ hword) _ ?_
  rw [String.toList_ofList]
  exact List.mem_map_of_mem hd

/-- A token that is neither an operator nor a string literal takes up inner characters only. -/
theorem ReadFrom.exists_inner (h : ReadFrom c cs token rest) (hop : ∀ sign, token ≠ .op sign)
    (hstr : ∀ content, token ≠ .str content) :
    ∃ text, cs = text ++ rest ∧ ∀ d ∈ c :: text, isInner d = true := by
  cases h with
  | blank hc =>
    refine ⟨_, (List.takeWhile_append_dropWhile).symm, List.forall_mem_cons.mpr ⟨?_, ?_⟩⟩
    · simp [isInner, hc]
    · intro d hd
      simp [isInner, List.mem_takeWhile_imp hd]
  | str => exact absurd rfl (hstr _)
  | dotted hc hdot word rest hword hcs =>
    refine ⟨word ++ ['.'], by simpa using hcs, List.forall_mem_cons.mpr ⟨hdot ▸ rfl, ?_⟩⟩
    refine List.forall_mem_append.mpr ⟨fun d hd => ?_, List.forall_mem_singleton.mpr rfl⟩
    exact isInner_of_isAlphanum (by simp [Char.isAlphanum, isAlpha_of_mem_dottedWord hword hd])
  | num hc hdigit =>
    obtain ⟨hcs, hnumber⟩ := spanNumber_eq cs
    exact ⟨_, hcs, List.forall_mem_cons.mpr ⟨isInner_of_isDigit hdigit, hnumber⟩⟩
  | name hc hletter =>
    refine ⟨_, (List.takeWhile_append_dropWhile).symm, List.forall_mem_cons.mpr ⟨?_, ?_⟩⟩
    · have hpart : isNamePart c = true := by
        rcases Bool.or_eq_true_iff.mp hletter with hletter | hunderscore
        · simp [isNamePart, isLetterOrNumeral_of_isLetter hletter]
        · simp [isNamePart, hunderscore]
      simp [isInner, hpart]
    · intro d hd
      simp [isInner, List.mem_takeWhile_imp hd]
  | sign => exact absurd rfl (hop _)
  | pair => exact absurd rfl (hop _)

/-- Every token but the first character of it is taken from the front of what follows. -/
theorem ReadFrom.isSuffix (h : ReadFrom c cs token rest) : rest <:+ cs := by
  have hinner : (∀ sign, token ≠ .op sign) → (∀ content, token ≠ .str content) → rest <:+ cs := by
    intro hop hstr
    obtain ⟨text, hcs, -⟩ := h.exists_inner hop hstr
    exact ⟨text, hcs.symm⟩
  cases h with
  | str => exact (List.drop_suffix 1 _).trans (List.dropWhile_suffix _)
  | sign => exact List.suffix_refl cs
  | pair hc d rest hpair hcs => exact hcs ▸ List.suffix_cons d rest
  | _ => exact hinner nofun nofun

/-- What holds of each token as it is read holds of all tokens of a text. -/
theorem forall_mem_lexFrom {p : Token → Prop}
    (h : ∀ {c : Char} {cs rest : List Char} {token : Token}, ReadFrom c cs token rest → p token)
    (fuel : Nat) (previous : Option Token) (cs : List Char) :
    ∀ token ∈ lexFrom fuel previous cs, p token := by
  induction fuel generalizing previous cs with
  | zero => exact List.forall_mem_nil _
  | succ fuel ih =>
    rcases cs with _ | ⟨c, cs⟩
    · exact List.forall_mem_nil _
    · exact List.forall_mem_cons.mpr ⟨h (readFrom_read previous c cs), ih _ _⟩

end

end ScreenForms.Code.Token
