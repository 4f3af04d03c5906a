import ScreenForms.Proofs.BlockRows
import ScreenForms.Proofs.WrittenLiterals

/-!
# What texts begin with

In a language whose comments stand behind `#`, a text is code when its first character behind
blanks is not that mark (`isCode_iff`). The spelling of an expression begins with code wherever its
first token is not blank, since every token begins with a character of its own and the mark itself
is spelled as an operator (`beginsCode_exprFrom`). So every assignment and every plain statement
begins with code, but for a lone equals sign, which is dropped and leaves nothing
(`beginsCode_statement`).
-/

namespace ScreenForms.Code

open Text

/-- What is left behind the blanks at the front does not begin with one. -/
theorem not_isBlank_of_trimStart {c : Char} {cs rest : List Char} (h : trimStart cs = c :: rest) :
    isBlank c = false := by
  have hhead := List.head?_dropWhile_not isBlank cs
  rwa [← trimStart, h] at hhead

/-- A text whose first character behind blanks is there and marks no comment. -/
def BeginsCode (s : String) : Prop := ∃ c cs, trimStart s.toList = c :: cs ∧ c ≠ '#'

instance (s : String) : Decidable (BeginsCode s) :=
  decidable_of_iff ((trimStart s.toList).head?.any (· ≠ '#') = true) <| by
    rw [BeginsCode]
    cases trimStart s.toList <;> simp

namespace BeginsCode

variable {s t : String} {c : Char}

/-- A text whose first character is neither blank nor a mark of comments begins code. -/
theorem of_head? (h : s.toList.head? = some c) (hblank : isBlank c = false) (hmark : c ≠ '#') :
    BeginsCode s := by
  obtain ⟨cs, hcs⟩ := List.head?_eq_some_iff.mp h
  exact ⟨c, cs, by rw [hcs, trimStart, List.dropWhile_cons_of_neg (by simp [hblank])], hmark⟩

/-- Text begins where its first part does, or behind it when there are only blanks in it. -/
theorem append_iff (s t : String) :
    BeginsCode (s ++ t) ↔ BeginsCode s ∨ trimStart s.toList = [] ∧ BeginsCode t := by
  rw [BeginsCode, BeginsCode, BeginsCode, String.toList_append, trimStart,
    List.dropWhile_append, ← trimStart]
  rcases trimStart s.toList with _ | ⟨c, cs⟩
  · simp [trimStart]
  · simp

/-- Whatever is put behind. -/
theorem append_right (h : BeginsCode s) (t : String) : BeginsCode (s ++ t) :=
  (append_iff s t).mpr (.inl h)

/-- Text without the mark does not turn what stands behind it into a comment. -/
theorem append_left (h : BeginsCode t) (hs : '#' ∉ s.toList) : BeginsCode (s ++ t) := by
  rw [append_iff]
  rcases hcs : trimStart s.toList with _ | ⟨c, cs⟩
  · exact .inr ⟨rfl, h⟩
  · refine .inl ⟨c, cs, hcs, ?_⟩
    rintro rfl
    exact hs ((List.dropWhile_sublist _).subset (hcs ▸ List.mem_cons_self))

/-- What stands behind the mark is no code. -/
theorem not_mark (s : String) : ¬ BeginsCode ("#" ++ s) := by
  rw [append_iff]
  rintro (h | ⟨h, -⟩)
  · exact absurd h (by decide)
  · cases h

/-- In particular such a text is not blank. -/
theorem solid (h : BeginsCode s) : Solid s := by
  obtain ⟨c, cs, hcs, -⟩ := h
  have hmem : c ∈ s.toList := (List.dropWhile_sublist _).subset (hcs ▸ List.mem_cons_self)
  exact ⟨c, hmem, not_isBlank_of_trimStart hcs⟩

end BeginsCode

/-- Where indentation marks blocks, comments begin with a number sign. -/
theorem comment_eq {target : Target} (hbraces : (idiom target).braces = false) :
    (idiom target).comment = "#" := by
  cases target with
  | tkinter => rfl
  | qt => rfl
  | winforms => cases hbraces
  | html => cases hbraces

/-- Where comments stand behind `#`, code is what begins with code. -/
theorem isCode_iff {target : Target} (hbraces : (idiom target).braces = false) (s : String) :
    isCode target s.toList = true ↔ BeginsCode s := by
  rcases hcs : trimStart s.toList with _ | ⟨c, cs⟩
  · simp [isCode, BeginsCode, trim, trimEnd, hcs, dropEndWhile]
  · have htrim : trim s.toList = c :: trimEnd cs := by
      rw [trim, hcs]
      exact trimEnd_cons_of_neg (not_isBlank_of_trimStart hcs) cs
    rw [isCode, htrim, comment_eq hbraces, BeginsCode, hcs]
    by_cases hc : '#' = c
    · subst hc
      simp [dropLead?]
    · simp [dropLead?, hc, Ne.symm hc]

/-! ## Properties and calls -/

section

variable {target : Target} {text : String}

/-- An object begins with a name, and names begin with letters or underscores. -/
theorem beginsCode_objectOf (target : Target) (segments : List String) (base : Option String) :
    BeginsCode (objectOf target segments base).1 := by
  rw [objectOf]
  split
  · have hlead : BeginsCode (idiom target).selfLead := by cases target <;> decide
    exact hlead.append_right _
  · cases target <;> decide

theorem BeginsCode.append_right₂ {s : String} (h : BeginsCode s) (t u : String) :
    BeginsCode (s ++ t ++ u) :=
  (h.append_right t).append_right u

/-- Reading a property begins with the object or with a word of the target. -/
theorem beginsCode_getProperty {object : String} (h : BeginsCode object) (property : PropertyName)
    (onForm : Bool) : BeginsCode (getProperty target property object onForm) := by
  cases target with
  | tkinter =>
    cases property with
    | caption => cases onForm <;> exact h.append_right _
    | value => exact .append_right₂ (by decide) _ _
    | enabled => exact .append_right₂ (by decide) _ _
    | visible => exact .append_right₂ (by decide) _ _
    | foreColor => exact h.append_right _
    | backColor => exact h.append_right _
  | qt =>
    cases property with
    | caption => cases onForm <;> exact h.append_right _
    | value => exact .append_right₂ (by decide) _ _
    | enabled => exact h.append_right _
    | visible => exact h.append_right _
    | foreColor => exact (h.append_right₂ _ _).append_right _
    | backColor => exact (h.append_right₂ _ _).append_right _
  | winforms => cases property <;> exact h.append_right _
  | html =>
    cases property with
    | caption =>
      cases onForm with
      | false => exact h.append_right _
      | true => exact show BeginsCode "document.title" by decide
    | value => exact h.append_right _
    | enabled => exact .append_right₂ (by decide) _ _
    | visible => exact .append_right₂ (by decide) _ _
    | foreColor => exact h.append_right _
    | backColor => exact h.append_right _

/-- So does setting it. -/
theorem beginsCode_setProperty {object : String} (h : BeginsCode object) (property : PropertyName)
    (value : String) (onForm : Bool) :
    BeginsCode (setProperty target property object value onForm) := by
  cases target with
  | tkinter =>
    cases property with
    | caption => cases onForm <;> exact (h.append_right₂ _ _).append_right _
    | value => exact (BeginsCode.append_right₂ (by decide) _ _).append_right₂ _ _
    | enabled => exact (h.append_right₂ _ _).append_right _
    | visible => exact (BeginsCode.append_right₂ (by decide) _ _).append_right₂ _ _
    | foreColor => exact (h.append_right₂ _ _).append_right _
    | backColor => exact (h.append_right₂ _ _).append_right _
  | qt =>
    cases property with
    | caption => cases onForm <;> exact (h.append_right₂ _ _).append_right _
    | value => exact (BeginsCode.append_right₂ (by decide) _ _).append_right₂ _ _
    | enabled => exact (h.append_right₂ _ _).append_right _
    | visible => exact (h.append_right₂ _ _).append_right _
    | foreColor => exact (BeginsCode.append_right₂ (by decide) _ _).append_right₂ _ _
    | backColor => exact (BeginsCode.append_right₂ (by decide) _ _).append_right₂ _ _
  | winforms =>
    cases property with
    | value => exact (h.append_right₂ _ _).append_right _
    | _ => exact h.append_right₂ _ _
  | html =>
    cases property with
    | caption =>
      cases onForm with
      | false => exact h.append_right₂ _ _
      | true => exact BeginsCode.append_right (by decide) _
    | enabled => exact (h.append_right₂ _ _).append_right _
    | visible => exact (h.append_right₂ _ _).append_right _
    | _ => exact h.append_right₂ _ _

/-- A call of a function begins with its name in the target. -/
theorem beginsCode_functionCall? {name : String} {args : List String}
    (h : functionCall? target name args = some text) : BeginsCode text := by
  unfold functionCall? at h
  split at h
  · obtain rfl := Option.some.inj h
    have hbox : BeginsCode (idiom target).messageBox := by cases target <;> decide
    exact (hbox.append_right₂ _ _).append_right _
  · obtain rfl := Option.some.inj h
    rw [colorCall]
    split <;>
      exact ((BeginsCode.append_right₂ (by decide) _ _).append_right₂ _ _).append_right₂ _ _
  · unfold textFunction? at h
    split at h
    all_goals cases h
    all_goals exact .append_right₂ (by decide) _ _
  · cases h

/-- A method is named behind its object. -/
theorem beginsCode_methodReference? {object name : String} (hobject : BeginsCode object)
    (h : methodReference? target object name = some text) : BeginsCode text := by
  unfold methodReference? at h
  split at h
  · obtain rfl := Option.some.inj h
    cases target <;> exact hobject.append_right _
  · cases h

end

/-! ## References -/

section

variable {ctx : Context} {segments : List String}

/-- Joined texts begin as the first of them. -/
theorem beginsCode_join {sep : String} {ss : List String} (hne : ss ≠ [])
    (h : ∀ s ∈ ss, BeginsCode s) : BeginsCode (join sep ss) := by
  rcases ss with _ | ⟨s, ss⟩
  · exact absurd rfl hne
  · obtain ⟨hs, -⟩ := List.forall_mem_cons.mp h
    cases ss with
    | nil => exact hs
    | cons t ss => exact (hs.append_right _).append_right _

/-- A reference whose text begins with code, and the object of its property as well. -/
structure Reference.Begins (r : Reference) : Prop where
  text : BeginsCode r.text
  object : ∀ object property onForm, r.property = some (object, property, onForm) →
    BeginsCode object

theorem begins_plainReference (hne : segments ≠ []) (h : ∀ s ∈ segments, BeginsCode s) :
    (plainReference segments).Begins := by
  refine ⟨beginsCode_join hne h, fun object property onForm hproperty => ?_⟩
  simp only [plainReference] at hproperty
  split at hproperty
  · next hlength =>
    obtain ⟨p, -, heq⟩ := Option.map_eq_some_iff.mp hproperty
    obtain ⟨rfl, -⟩ := Prod.mk.inj heq
    have hfront : segments.dropLast ≠ [] := by
      rw [← List.length_pos_iff, List.length_dropLast]
      omega
    exact beginsCode_join hfront fun s hs => h s (List.dropLast_subset _ hs)
  · cases hproperty

/-- A chain behind the form begins with the object that it refers to. -/
theorem begins_windowReference (target : Target) (segments : List String) (base : Option String) :
    (windowReference target segments base).Begins := by
  rw [windowReference]
  split
  · next property _ =>
    have hobject := beginsCode_objectOf target segments.dropLast base
    refine ⟨beginsCode_getProperty hobject property _, ?_⟩
    rintro object property onForm ⟨⟩
    exact hobject
  · exact ⟨beginsCode_objectOf target segments base, nofun⟩

/-- So every chain begins code, whatever it refers to, if its names do. -/
theorem begins_reference (hne : segments ≠ []) (h : ∀ s ∈ segments, BeginsCode s) :
    (reference ctx segments).Begins := by
  rcases segments with _ | ⟨first, rest⟩
  · exact absurd rfl hne
  · rw [reference]
    split
    · exact begins_windowReference ..
    · split
      · exact begins_windowReference ..
      · split
        · next hmemory => exact begins_plainReference hmemory.2 (List.forall_mem_cons.mp h).2
        · exact begins_plainReference hne h

theorem beginsCode_closeForm (target : Target) : BeginsCode (idiom target).closeForm := by
  cases target <;> decide

/-- And so does its text. -/
theorem beginsCode_referenceText (hne : segments ≠ []) (h : ∀ s ∈ segments, BeginsCode s) :
    BeginsCode (referenceText ctx segments) := by
  have hreference : (reference ctx segments).Begins := begins_reference hne h
  rw [referenceText]
  split
  · exact beginsCode_closeForm ctx.target
  · dsimp only
    split
    · next object property onForm hproperty =>
      exact beginsCode_getProperty (hreference.object _ _ _ hproperty) _ _
    · exact hreference.text

/-- A call begins with what is called. -/
theorem beginsCode_callText (hne : segments ≠ []) (h : ∀ s ∈ segments, BeginsCode s)
    (args : List String) (closed : Bool) : BeginsCode (callText ctx segments args closed) := by
  unfold callText
  dsimp only
  split
  · next text hspecial =>
    rcases eq_some_or_of_orElse hspecial with hfunction | hmethod
    · split at hfunction
      · exact beginsCode_functionCall? hfunction
      · cases hfunction
    · rw [specialCall?] at hmethod
      split at hmethod
      · obtain rfl := Option.some.inj hmethod
        exact beginsCode_closeForm ctx.target
      · split at hmethod
        · cases hmethod
        · next hfront =>
          obtain ⟨m, hm, rfl⟩ := Option.map_eq_some_iff.mp hmethod
          have hobject : (reference ctx segments.dropLast).Begins :=
            begins_reference hfront fun s hs => h s (List.dropLast_subset _ hs)
          exact (beginsCode_methodReference? hobject.text hm).append_right₂ _ _ |>.append_right _
        · cases hmethod
  · exact (((begins_reference hne h).text.append_right _).append_right _).append_right _

end

/-! ## Tokens -/

/-- What is known of a token that was read: its text begins with a character of its own, which is
a blank only for blank tokens and the mark of comments only as an operator. -/
def Token.IsRead : Token → Prop
  | .str _ | .dotted _ => True
  | .num text | .name text => BeginsCode text
  | .op sign => sign = "#" ∨ BeginsCode sign
  | .blank space => ∀ c ∈ space.toList, Text.isBlank c = true

section

variable {previous : Option Token} {c : Char} {cs rest : List Char} {token : Token}

theorem beginsCode_ofList (hblank : Text.isBlank c = false) (hmark : c ≠ '#') (cs : List Char) :
    BeginsCode (String.ofList (c :: cs)) :=
  .of_head? (by simp) hblank hmark

/-- A token that is read off a text begins as the text does, so its words begin with the characters
that words begin with. -/
theorem Token.ReadFrom.isRead (h : Token.ReadFrom c cs token rest) : token.IsRead := by
  cases h with
  | blank hc =>
    intro d hd
    rw [String.toList_ofList] at hd
    rcases List.mem_cons.mp hd with rfl | hd
    · exact hc
    · exact List.mem_takeWhile_imp hd
  | str => trivial
  | dotted => trivial
  | num hc hdigit =>
    refine beginsCode_ofList hc ?_ _
    rintro rfl
    cases hdigit
  | name hc hletter =>
    refine beginsCode_ofList hc ?_ _
    rintro rfl
    revert hletter
    decide
  | sign hc =>
    by_cases hmark : c = '#'
    · exact .inl (hmark ▸ rfl)
    · exact .inr (beginsCode_ofList hc hmark [])
  | pair hc d rest hpair =>
    have hheads : ∀ sign ∈ Token.pairOperators, sign.toList.head? ≠ some '#' := by decide
    refine .inr (beginsCode_ofList hc ?_ [d])
    rintro rfl
    exact hheads _ hpair (by simp)

/-- This holds of all tokens of a text. -/
theorem isRead_of_mem_lex (h : token ∈ Token.lex cs) : token.IsRead :=
  Token.forall_mem_lexFrom (fun hread => hread.isRead) _ _ _ token h

/-- Only blanks are read as blank tokens alone. -/
theorem isBlank_of_lexFrom {fuel : Nat} (hfuel : cs.length ≤ fuel)
    (h : ∀ t ∈ Token.lexFrom fuel previous cs, t.isBlank = true) :
    ∀ d ∈ cs, Text.isBlank d = true := by
  induction fuel generalizing previous cs with
  | zero =>
    obtain rfl := List.length_eq_zero_iff.mp (Nat.le_zero.mp hfuel)
    exact List.forall_mem_nil _
  | succ fuel ih =>
    rcases cs with _ | ⟨c, cs⟩
    · exact List.forall_mem_nil _
    · have hread := Token.readFrom_read previous c cs
      rw [Token.lexFrom] at h
      generalize Token.read previous c cs = found at h hread
      obtain ⟨token, rest⟩ := found
      obtain ⟨hfirst, hrest⟩ := List.forall_mem_cons.mp h
      cases hread with
      | blank hc =>
        have hlength : (cs.dropWhile Text.isBlank).length ≤ fuel :=
          (List.dropWhile_suffix _).length_le.trans (Nat.le_of_succ_le_succ hfuel)
        refine List.forall_mem_cons.mpr ⟨hc, fun d hd => ?_⟩
        rw [← List.takeWhile_append_dropWhile (p := Text.isBlank) (l := cs)] at hd
        rcases List.mem_append.mp hd with hd | hd
        · exact List.mem_takeWhile_imp hd
        · exact ih hlength hrest d hd
      | _ => cases hfirst

end

/-! ## Expressions -/

section

variable {ctx : Context} {test : Bool} {tokens : List Token}

/-- A token that is no blank begins code in the target as well. -/
theorem beginsCode_tokenText {token : Token} (h : token.IsRead) (hblank : token.isBlank = false) :
    BeginsCode (tokenText ctx.target test token) := by
  cases token with
  | str content =>
    exact .of_head? (c := '"') (by simp [tokenText, stringLiteral, quoteWith]) rfl (by decide)
  | num text => exact h
  | name text => exact h
  | dotted word =>
    show BeginsCode (dottedText ctx.target word)
    unfold dottedText
    split <;> cases ctx.target <;> decide
  | op sign =>
    show BeginsCode (operatorText ctx.target test sign)
    unfold operatorText
    dsimp only
    split
    · cases ctx.target <;> decide
    · cases ctx.target <;> decide
    · cases ctx.target <;> decide
    · cases ctx.target <;> decide
    · cases test
      · exact show BeginsCode "=" by decide
      · cases ctx.target <;> decide
    · cases ctx.target <;> decide
    · next hmark _ _ _ _ =>
      rcases h with h | h
      · exact absurd h hmark
      · exact h
  | blank space => cases hblank

/-- An expression begins with code when its first token is not blank. Each token writes something,
and no part of it looks like the mark of a comment. -/
theorem beginsCode_exprFrom {token : Token} {rest : List Token}
    (h : ∀ t ∈ token :: rest, t.IsRead) (hblank : token.isBlank = false) (fuel : Nat) :
    BeginsCode (exprFrom ctx test (fuel + 1) (token :: rest)) := by
  obtain ⟨htoken, hrest⟩ := List.forall_mem_cons.mp h
  cases token with
  | name word =>
    have hsegments : ∀ w ∈ word :: (spanChain rest).1, BeginsCode w :=
      List.forall_mem_cons.mpr ⟨htoken, fun w hw => hrest _ (name_mem_of_mem_spanChain hw)⟩
    rw [exprFrom]
    dsimp only
    split
    · exact BeginsCode.append_right (by cases ctx.target <;> decide) _
    · exact BeginsCode.append_right (by cases ctx.target <;> decide) _
    · split
      · exact BeginsCode.append_right (by cases ctx.target <;> decide) _
      · exact BeginsCode.append_right (by decide) _
    · split
      · exact (beginsCode_callText (List.cons_ne_nil _ _) hsegments _ _).append_right _
      · exact (beginsCode_referenceText (List.cons_ne_nil _ _) hsegments).append_right _
  | str content => exact (beginsCode_tokenText htoken rfl).append_right _
  | num text => exact (beginsCode_tokenText htoken rfl).append_right _
  | dotted word => exact (beginsCode_tokenText htoken rfl).append_right _
  | op sign => exact (beginsCode_tokenText htoken rfl).append_right _
  | blank space => cases hblank

/-- An expression does not turn what stands behind it into a comment. It may consist of blanks,
which is why the text behind it has to begin with code. -/
theorem beginsCode_exprFrom_append (h : ∀ t ∈ tokens, t.IsRead) (fuel : Nat) {s : String}
    (hs : BeginsCode s) : BeginsCode (exprFrom ctx test fuel tokens ++ s) := by
  induction fuel generalizing tokens with
  | zero => exact hs.append_left (by simp [exprFrom])
  | succ fuel ih =>
    rcases tokens with _ | ⟨token, rest⟩
    · exact hs.append_left (by simp [exprFrom])
    · cases hblank : token.isBlank with
      | false => exact (beginsCode_exprFrom h hblank fuel).append_right s
      | true =>
        obtain ⟨htoken, hrest⟩ := List.forall_mem_cons.mp h
        cases token with
        | blank space =>
          have hspell : exprFrom ctx test (fuel + 1) (.blank space :: rest) =
              space ++ exprFrom ctx test fuel rest := rfl
          rw [hspell, String.append_assoc]
          refine (ih hrest).append_left fun hmark => ?_
          exact absurd (htoken '#' hmark) (by decide)
        | _ => cases hblank

end

/-! ## Statements -/

section

variable {ctx : Context} {tokens : List Token}

/-- A chain of names that is read off a text is not empty, and its names begin code. -/
theorem beginsCode_of_chainOf? {segments : List String} (hread : ∀ t ∈ tokens, t.IsRead)
    (h : chainOf? tokens = some segments) : segments ≠ [] ∧ ∀ s ∈ segments, BeginsCode s := by
  fun_induction chainOf? tokens generalizing segments with
  | case1 word =>
    obtain rfl := Option.some.inj h
    exact ⟨List.cons_ne_nil _ _, List.forall_mem_singleton.mpr (hread _ List.mem_cons_self)⟩
  | case2 word =>
    obtain rfl := Option.some.inj h
    exact ⟨List.cons_ne_nil _ _, List.forall_mem_singleton.mpr (hread _ List.mem_cons_self)⟩
  | case3 word rest _ ih =>
    obtain ⟨words, hwords, rfl⟩ := Option.map_eq_some_iff.mp h
    have hrest := ih (fun t ht => hread t (by simp [ht])) hwords
    exact ⟨List.cons_ne_nil _ _,
      List.forall_mem_cons.mpr ⟨hread (.name word) List.mem_cons_self, hrest.2⟩⟩
  | case4 => cases h

/-- An assignment begins with code, whatever it assigns to. -/
theorem beginsCode_assignment (h : ∀ t ∈ tokens, t.IsRead) (value : String) :
    BeginsCode (assignment ctx tokens value) := by
  rw [assignment]
  split
  · next segments hchain =>
    obtain ⟨hne, hsegments⟩ := beginsCode_of_chainOf? h hchain
    have hreference : (reference ctx segments).Begins := begins_reference hne hsegments
    dsimp only
    split
    · next object property onForm hproperty =>
      exact beginsCode_setProperty (hreference.object _ _ _ hproperty) _ _ _
    · exact hreference.text.append_right₂ _ _
  · rw [String.append_assoc]
    exact beginsCode_exprFrom_append h _ (BeginsCode.append_right (by decide) _)

end

section

variable {ctx : Context} {cs : List Char}

/-- What a plain statement is spelled from begins with a token that is not blank, but for a lone
equals sign. -/
theorem exists_dropLeadingAssign_eq_cons (htrim : trim cs = cs) (hne : cs ≠ [])
    (hassign : cs ≠ ['=']) :
    ∃ t ts, dropLeadingAssign (Token.trim (Token.lex cs)) = t :: ts ∧ t.isBlank = false := by
  rcases cs with _ | ⟨c, cs⟩
  · exact absurd rfl hne
  have hhead : (trim (c :: cs)).head? = some c := by rw [htrim]; rfl
  have hc : Text.isBlank c = false := not_isBlank_of_head?_trim hhead
  have hread := Token.readFrom_read none c cs
  rw [Token.lex, List.length_cons, Token.lexFrom]
  generalize Token.read none c cs = found at hread ⊢
  obtain ⟨token, rest⟩ := found
  dsimp only at hread ⊢
  have hblank : token.isBlank = false := hread.isBlank_eq.trans hc
  rw [trim_cons_of_not_isBlank hblank, dropLeadingAssign]
  split
  · next hsign =>
    obtain ⟨rfl, rfl⟩ := hread.of_isOp_assign hsign
    -- behind the sign something is left, since the text does not end with a blank
    obtain ⟨t, ht, htblank⟩ : ∃ t ∈ Token.lexFrom rest.length (some token) rest,
        t.isBlank = false := by
      by_contra hnone
      push Not at hnone
      have hall := isBlank_of_lexFrom le_rfl fun t ht => by simpa using hnone t ht
      rw [trim_cons_of_neg hc, trimEnd, dropEndWhile_eq_nil_iff.mpr hall] at htrim
      exact hassign htrim.symm
    rw [← List.rdropWhile_append_rtakeWhile (p := Token.isBlank)
      (l := Token.lexFrom rest.length (some token) rest)] at ht
    rcases List.mem_append.mp ht with ht | ht
    · exact exists_trim_eq_cons ht htblank
    · rw [List.mem_rtakeWhile_imp ht] at htblank
      cases htblank
  · exact ⟨token, _, rfl, hblank⟩

/-- A plain statement begins with code, but for a lone equals sign. -/
theorem beginsCode_statement (htrim : trim cs = cs) (hne : cs ≠ []) (hassign : cs ≠ ['=']) :
    BeginsCode (statement ctx (Token.lex cs)) := by
  obtain ⟨t, ts, heq, hblank⟩ := exists_dropLeadingAssign_eq_cons htrim hne hassign
  have hread : ∀ x ∈ t :: ts, x.IsRead := by
    intro x hx
    rw [← heq] at hx
    exact isRead_of_mem_lex
      ((isInfix_trim _).subset ((isInfix_dropLeadingAssign _).subset hx))
  rw [statement, heq]
  split
  · next target value hsplit =>
    obtain ⟨sign, hsign, -⟩ := splitAtAssign?_eq hsplit
    refine beginsCode_assignment (fun x hx => hread x ?_) _
    rw [hsign]
    exact List.mem_append_left _ ((isInfix_trim target).subset hx)
  · exact beginsCode_exprFrom hread hblank ts.length

end

end ScreenForms.Code
