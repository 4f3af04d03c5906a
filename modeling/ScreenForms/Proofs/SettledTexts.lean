import ScreenForms.Proofs.ExpressionParts
import ScreenForms.Proofs.ProgramNames
import ScreenForms.Proofs.WrittenLiterals

/-!
# Literals of generated code

A scan of generated code is in a literal from one double quote to the next that has no backslash
before it. White space outside of literals can be left out of a text (`squeeze`). A text that leaves
no literal open is settled, and settled texts are squeezed one by one (`squeeze_append`). Every
expression is spelled as a settled text (`settled_expr`): literals are closed, and no other token
has a quotation mark.
-/

namespace ScreenForms.Code

open Text

/-! ## Texts -/

/-- Where a scan of generated code stands. -/
inductive Place where
  | code
  | literal
  /-- in a literal, behind a backslash -/
  | escape
  deriving DecidableEq, Repr

/-- The place behind a character. -/
def Place.next : Place → Char → Place
  | .code, c => if c = '"' then .literal else .code
  | .literal, c => if c = '"' then .code else if c = '\\' then .escape else .literal
  | .escape, _ => .literal

/-- The characters from a place on, but for white space outside of literals. -/
def squeezeFrom : Place → List Char → List Char
  | _, [] => []
  | place, c :: cs =>
    if place = .code ∧ isBlank c = true then squeezeFrom place cs
    else c :: squeezeFrom (place.next c) cs

/-- The characters of a text but for white space outside of literals. -/
def squeeze (s : String) : List Char := squeezeFrom .code s.toList

/-- A text that leaves no literal open. -/
def Settled (s : String) : Prop := s.toList.foldl Place.next .code = .code

instance (s : String) : Decidable (Settled s) := inferInstanceAs (Decidable (_ = _))

/-- Squeezing goes from left to right, so behind a text it goes on in the place that the text leads
to. -/
theorem squeezeFrom_append (place : Place) (xs ys : List Char) :
    squeezeFrom place (xs ++ ys) =
      squeezeFrom place xs ++ squeezeFrom (xs.foldl Place.next place) ys := by
  induction xs generalizing place with
  | nil => rfl
  | cons c xs ih =>
    rw [List.cons_append, squeezeFrom, squeezeFrom, List.foldl_cons]
    split
    · next h =>
      obtain ⟨rfl, hblank⟩ := h
      have hmark : c ≠ '"' := by
        rintro rfl
        cases hblank
      rw [Place.next, if_neg hmark, ih]
    · rw [ih, List.cons_append]

section

variable {s t : String}

/-- Behind a settled text it begins anew. -/
theorem squeeze_append (h : Settled s) (t : String) : squeeze (s ++ t) = squeeze s ++ squeeze t := by
  rw [squeeze, String.toList_append, squeezeFrom_append, h]
  rfl

/-- Blanks outside of literals are all left out. -/
theorem squeeze_blanks (h : ∀ c ∈ s.toList, isBlank c = true) : squeeze s = [] := by
  rw [squeeze]
  generalize s.toList = cs at h
  induction cs with
  | nil => rfl
  | cons c cs ih =>
    obtain ⟨hc, hcs⟩ := List.forall_mem_cons.mp h
    rw [squeezeFrom, if_pos ⟨rfl, hc⟩, ih hcs]

namespace Settled

/-- Settled texts one behind the other are settled. -/
theorem append (hs : Settled s) (ht : Settled t) : Settled (s ++ t) := by
  rw [Settled, String.toList_append, List.foldl_append, hs]
  exact ht

/-- So is a settled text between others. -/
theorem between (h : Settled s) {lead tail : String} (hlead : Settled lead) (htail : Settled tail) :
    Settled (lead ++ s ++ tail) :=
  (hlead.append h).append htail

/-- A text without quotation marks is settled. -/
theorem of_not_mem (h : '"' ∉ s.toList) : Settled s := by
  rw [Settled]
  generalize s.toList = cs at h
  induction cs with
  | nil => rfl
  | cons c cs ih =>
    rw [List.mem_cons, not_or] at h
    rw [List.foldl_cons, Place.next, if_neg (Ne.symm h.1), ih h.2]

/-- In particular one whose characters are all of a kind that has no marks. -/
theorem of_forall {p : Char → Bool} (hp : p '"' = false) (h : ∀ c ∈ s.toList, p c = true) :
    Settled s := by
  refine of_not_mem fun hmem => ?_
  rw [h _ hmem] at hp
  cases hp

theorem ofList {p : Char → Bool} (hp : p '"' = false) {cs : List Char}
    (h : ∀ c ∈ cs, p c = true) : Settled (String.ofList cs) :=
  of_forall hp (by rwa [String.toList_ofList])

/-- Joined texts are settled when all of them and the separator are. -/
theorem join {sep : String} (hsep : Settled sep) {ss : List String} (h : ∀ s ∈ ss, Settled s) :
    Settled (Text.join sep ss) := by
  induction ss with
  | nil => rfl
  | cons s ss ih =>
    obtain ⟨hs, hss⟩ := List.forall_mem_cons.mp h
    cases ss with
    | nil => exact hs
    | cons t ts => exact (hs.append hsep).append (ih hss)

end Settled

/-- A literal is closed where it ends, whatever is in it. -/
theorem settled_stringLiteral (content : String) : Settled (stringLiteral content) := by
  have hinside : ∀ cs : List Char,
      (cs.flatMap escapeMark).foldl Place.next .literal = .literal := by
    intro cs
    induction cs with
    | nil => rfl
    | cons c cs ih =>
      have hc : (escapeMark c).foldl Place.next .literal = .literal := by
        rw [escapeMark]
        split
        · rfl
        split
        · rfl
        · next hslash hmark => simp [Place.next, hslash, hmark]
      rw [List.flatMap_cons, List.foldl_append, hc, ih]
  rw [Settled, stringLiteral, quoteWith, String.toList_ofList, List.cons_append, List.foldl_cons,
    List.foldl_append]
  exact congrArg (List.foldl Place.next · ['"']) (hinside _)

end

/-! ## Properties and calls -/

section

variable {target : Target} {object text : String}

/-- Identifiers are made from letters, digits and underscores. -/
theorem settled_identifier (name : String) : Settled (identifier name) := by
  have hfit : ∀ c ∈ identifierChars name.toList, Token.isNamePart c = true := by
    intro c hc
    rw [identifierChars_eq] at hc
    obtain ⟨d, -, rfl⟩ := List.mem_map.mp hc
    rw [fit]
    split
    · assumption
    · decide
  exact Settled.ofList (by decide) hfit

/-- An object is a name, or the form with names behind it. -/
theorem settled_objectOf (target : Target) (segments : List String) (base : Option String) :
    Settled (objectOf target segments base).1 := by
  rw [objectOf]
  split
  · next name _ =>
    have hlead : Settled (idiom target).selfLead := by cases target <;> decide
    refine hlead.append ?_
    rw [memberName]
    split
    · exact (settled_identifier name).append (by decide)
    · exact settled_identifier name
  · cases target <;> decide

/-- Reading a property puts settled text around its object, for every target. The spellings are
fixed texts, each of which closes what it opens. -/
theorem settled_getProperty (h : Settled object) (property : PropertyName) (onForm : Bool) :
    Settled (getProperty target property object onForm) := by
  cases target with
  | tkinter =>
    cases property with
    | caption => cases onForm <;> exact h.append (by decide)
    | value => exact h.between (by decide) (by decide)
    | enabled => exact h.between (by decide) (by decide)
    | visible => exact h.between (by decide) (by decide)
    | _ => exact h.append (by decide)
  | qt =>
    cases property with
    | caption => cases onForm <;> exact h.append (by decide)
    | value => exact h.between (by decide) (by decide)
    | foreColor => exact ((h.append (by decide)).append h).append (by decide)
    | backColor => exact ((h.append (by decide)).append h).append (by decide)
    | _ => exact h.append (by decide)
  | winforms => cases property <;> exact h.append (by decide)
  | html =>
    cases property with
    | caption =>
      cases onForm with
      | false => exact h.append (by decide)
      | true => exact show Settled "document.title" by decide
    | enabled => exact h.between (by decide) (by decide)
    | visible => exact h.between (by decide) (by decide)
    | _ => exact h.append (by decide)

/-- So does calling a function for its arguments. -/
theorem settled_functionCall? {name : String} {args : List String}
    (hargs : ∀ arg ∈ args, Settled arg) (h : functionCall? target name args = some text) :
    Settled text := by
  unfold functionCall? at h
  split at h
  · obtain rfl := Option.some.inj h
    have hbox : Settled (idiom target).messageBox := by cases target <;> decide
    exact (Settled.join (by decide) hargs).between (hbox.append (by decide)) (by decide)
  · obtain rfl := Option.some.inj h
    obtain ⟨hred, hargs⟩ := List.forall_mem_cons.mp hargs
    obtain ⟨hgreen, hargs⟩ := List.forall_mem_cons.mp hargs
    have hblue := List.forall_mem_singleton.mp hargs
    rw [colorCall]
    split <;>
      exact (((hred.between (by decide) (by decide)).append hgreen).append (by decide)).append hblue
        |>.append (by decide)
  · have hargument := List.forall_mem_singleton.mp hargs
    unfold textFunction? at h
    split at h
    all_goals cases h
    all_goals exact hargument.between (by decide) (by decide)
  · cases h

/-- And naming a method for its object. -/
theorem settled_methodReference? {name : String} (hobject : Settled object)
    (h : methodReference? target object name = some text) : Settled text := by
  unfold methodReference? at h
  split at h
  · obtain rfl := Option.some.inj h
    cases target <;> exact hobject.append (by decide)
  · cases h

theorem settled_closeForm (target : Target) : Settled (idiom target).closeForm := by
  cases target <;> decide

end

/-! ## References -/

section

variable {ctx : Context} {segments : List String}

/-- A reference whose text is settled, and the object of its property as well. -/
structure Reference.Settles (r : Reference) : Prop where
  text : Settled r.text
  object : ∀ object property onForm, r.property = some (object, property, onForm) → Settled object

/-- A chain of names with dots between them is settled if its names are. -/
theorem settles_plainReference (h : ∀ s ∈ segments, Settled s) :
    (plainReference segments).Settles := by
  have hdot : Settled "." := by decide
  refine ⟨.join hdot h, fun object property onForm hproperty => ?_⟩
  simp only [plainReference] at hproperty
  split at hproperty
  · obtain ⟨p, -, heq⟩ := Option.map_eq_some_iff.mp hproperty
    obtain ⟨rfl, -⟩ := Prod.mk.inj heq
    exact .join hdot fun s hs => h s (List.dropLast_subset _ hs)
  · cases hproperty

/-- A chain behind the form is settled whatever its names are, since they are made into
identifiers. -/
theorem settles_windowReference (target : Target) (segments : List String)
    (base : Option String) : (windowReference target segments base).Settles := by
  rw [windowReference]
  split
  · next property _ =>
    have hobject := settled_objectOf target segments.dropLast base
    refine ⟨settled_getProperty hobject property _, ?_⟩
    rintro object property onForm ⟨⟩
    exact hobject
  · exact ⟨settled_objectOf target segments base, nofun⟩

/-- So every chain is, whatever it refers to. -/
theorem settles_reference (h : ∀ s ∈ segments, Settled s) : (reference ctx segments).Settles := by
  rcases segments with _ | ⟨first, rest⟩
  · exact settles_plainReference h
  · rw [reference]
    split
    · exact settles_windowReference ..
    split
    · exact settles_windowReference ..
    split
    · exact settles_plainReference (List.forall_mem_cons.mp h).2
    · exact settles_plainReference h

/-- And so is the text of a chain, be it a property, a method or neither. -/
theorem settled_referenceText (h : ∀ s ∈ segments, Settled s) :
    Settled (referenceText ctx segments) := by
  have hreference : (reference ctx segments).Settles := settles_reference h
  rw [referenceText]
  split
  · exact settled_closeForm ctx.target
  dsimp only
  split
  · next object property onForm hproperty =>
    exact settled_getProperty (hreference.object _ _ _ hproperty) _ _
  · exact hreference.text

/-- A call is settled if its arguments are. -/
theorem settled_callText (h : ∀ s ∈ segments, Settled s) {args : List String}
    (hargs : ∀ arg ∈ args, Settled arg) (closed : Bool) :
    Settled (callText ctx segments args closed) := by
  have hjoin : Settled (join ", " args) := .join (by decide) hargs
  unfold callText
  dsimp only
  split
  · next text hspecial =>
    rcases eq_some_or_of_orElse hspecial with hfunction | hmethod
    · split at hfunction
      · exact settled_functionCall? hargs hfunction
      · cases hfunction
    · rw [specialCall?] at hmethod
      split at hmethod
      · obtain rfl := Option.some.inj hmethod
        exact settled_closeForm ctx.target
      split at hmethod
      · cases hmethod
      · obtain ⟨m, hm, rfl⟩ := Option.map_eq_some_iff.mp hmethod
        have hobject : (reference ctx segments.dropLast).Settles :=
          settles_reference fun s hs => h s (List.dropLast_subset _ hs)
        exact hjoin.between ((settled_methodReference? hobject.text hm).append (by decide))
          (by decide)
      · cases hmethod
  · refine hjoin.between ((settles_reference h).text.append (by decide)) ?_
    cases closed <;> decide

end

/-! ## Expressions -/

/-- A token whose text is settled. -/
def Token.Settles : Token → Prop
  | .str _ | .dotted _ => True
  | .num text | .name text | .op text | .blank text => Settled text

/-- A token that is read off a text is settled: literals end with their mark, and no other token has
marks. -/
theorem Token.ReadFrom.settles {c : Char} {cs rest : List Char} {token : Token}
    (h : Token.ReadFrom c cs token rest) : token.Settles := by
  cases h with
  | blank hc =>
    refine Settled.ofList (p := Text.isBlank) rfl (List.forall_mem_cons.mpr ⟨hc, ?_⟩)
    exact fun d => List.mem_takeWhile_imp
  | str => trivial
  | dotted => trivial
  | num hc hdigit =>
    refine Settled.ofList (p := Token.isInner) rfl (List.forall_mem_cons.mpr ⟨?_, ?_⟩)
    · exact Token.isInner_of_isDigit hdigit
    · exact (Token.spanNumber_eq cs).2
  | name hc hletter =>
    refine Settled.ofList (p := Token.isNamePart) (by decide) (List.forall_mem_cons.mpr ⟨?_, ?_⟩)
    · exact Token.isNamePart_of_isNameStart hletter
    · exact fun d => List.mem_takeWhile_imp
  | sign hc hquote =>
    refine Settled.ofList (p := (!isQuote ·)) rfl (List.forall_mem_singleton.mpr ?_)
    simpa using hquote
  | pair hc d rest hpair =>
    have hplain : ∀ sign ∈ Token.pairOperators, Settled sign := by decide
    exact hplain _ hpair

section

variable {ctx : Context} {test : Bool} {tokens rest : List Token} {token : Token}

/-- So all tokens of a text are. -/
theorem settles_of_mem_lex {cs : List Char} (h : token ∈ Token.lex cs) : token.Settles :=
  Token.forall_mem_lexFrom (fun hread => hread.settles) _ _ _ token h

theorem settled_dottedText (target : Target) (word : String) :
    Settled (dottedText target word) := by
  unfold dottedText
  split <;> cases target <;> decide

/-- And so are their texts in the target. -/
theorem settled_tokenText (h : token.Settles) : Settled (tokenText ctx.target test token) := by
  cases token with
  | str content => exact settled_stringLiteral content
  | dotted word => exact settled_dottedText ctx.target word
  | op sign =>
    show Settled (operatorText ctx.target test sign)
    unfold operatorText
    dsimp only
    split
    · cases ctx.target <;> decide
    · cases ctx.target <;> decide
    · cases ctx.target <;> decide
    · cases ctx.target <;> decide
    · cases test
      · exact show Settled "=" by decide
      · cases ctx.target <;> decide
    · cases ctx.target <;> decide
    · exact h
  | _ => exact h

/-- A part whose own text is settled, or whose segments are. -/
def Part.Settles : Part → Prop
  | .plain text _ => Settled text
  | .call segments _ _ _ => ∀ s ∈ segments, Settled s

/-- The part at the front of some tokens is settled, be it a word, a reference or a call. For a
call this says that its segments are settled, since its arguments are translated later. -/
theorem settles_partAt (h : ∀ t ∈ token :: rest, t.Settles) :
    (partAt ctx test token rest).Settles := by
  obtain ⟨htoken, hrest⟩ := List.forall_mem_cons.mp h
  cases token with
  | name word =>
    have hsegments : ∀ s ∈ word :: (spanChain rest).1, Settled s :=
      List.forall_mem_cons.mpr ⟨htoken, fun s hs => hrest _ (name_mem_of_mem_spanChain hs)⟩
    rw [partAt]
    dsimp only
    split
    · exact show Settled (idiom ctx.target).andWord by cases ctx.target <;> decide
    split
    · exact show Settled (idiom ctx.target).orWord by cases ctx.target <;> decide
    split
    · split
      · exact show Settled (idiom ctx.target).notWord by cases ctx.target <;> decide
      · exact show Settled "not" by decide
    unfold referencePart
    split
    · exact hsegments
    · exact settled_referenceText hsegments
  | _ => exact settled_tokenText htoken

/-- Every expression leaves no literal open. The induction is over the fuel, and each step writes
one settled part in front of a settled rest. -/
theorem settled_expr (h : ∀ t ∈ tokens, t.Settles) : Settled (expr ctx test tokens) := by
  induction hlength : tokens.length using Nat.strong_induction_on generalizing tokens with
  | _ n ih =>
    rcases tokens with _ | ⟨token, rest⟩
    · rfl
    have hpart : (partAt ctx test token rest).Settles := settles_partAt h
    have hcut := isCutFrom_partAt ctx test token rest
    have hwrite : ∀ xs : List Token, xs <:+: rest → Settled (expr ctx test xs) := by
      intro xs hxs
      refine ih _ ?_ (fun t ht => h t (List.mem_cons_of_mem _ (hxs.subset ht))) rfl
      rw [← hlength]
      exact Nat.lt_succ_of_le hxs.length_le
    rw [expr_cons]
    cases hshape : partAt ctx test token rest with
    | plain text after =>
      rw [hshape] at hpart hcut
      exact Settled.append hpart (hwrite after hcut.isInfix)
    | call segments inside closed after =>
      rw [hshape] at hpart hcut
      refine (settled_callText hpart (fun text htext => ?_) closed).append
        (hwrite after hcut.2.isInfix)
      obtain ⟨arg, harg, rfl⟩ := List.mem_map.mp htext
      exact hwrite _ ((isInfix_trim arg).trans ((isInfix_of_mem_argumentsOf harg).trans hcut.1))

/-- So the translation of every expression is settled, and squeezing may go on behind it as if
nothing stood in front. -/
theorem settled_exprText (ctx : Context) (test : Bool) (cs : List Char) :
    Settled (exprText ctx test cs) :=
  settled_expr fun _ => settles_of_mem_lex

end

end ScreenForms.Code
