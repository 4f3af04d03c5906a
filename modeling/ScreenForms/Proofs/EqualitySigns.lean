import ScreenForms.Proofs.TokenLiterals

/-!
# Equals signs in expressions

An expression is spelled the same way whatever its single equals signs stand for: they leave places
open in a text that depends on nothing else, and what is written into the places is the equality of
the target in a test and the sign itself elsewhere (`exists_template_expr`). So a test is spelled
as the expression with pairs of equals signs in it (`expr_map_putSign`). Every sign has its place,
at any depth of parentheses and in the arguments of every call but one that closes the form, whose
arguments are not written.
-/

namespace ScreenForms.Code

open Token

/-! ## Templates -/

/-- A text in which places are left open. -/
abbrev Template := List (Option String)

namespace Template

/-- How many places are open. -/
def places (t : Template) : Nat := t.count none

/-- The text with a sign in every open place. -/
def fill (sign : String) : Template → String
  | [] => ""
  | some text :: t => text ++ fill sign t
  | none :: t => sign ++ fill sign t

/-- The text with one text after the other in the open places. -/
def fillWith : Template → List String → String
  | [], _ => ""
  | some text :: t, texts => text ++ fillWith t texts
  | none :: t, texts => texts.headD "" ++ fillWith t texts.tail

/-- The template with one template after the other in the open places. -/
def plug : Template → List Template → Template
  | [], _ => []
  | some text :: t, us => some text :: plug t us
  | none :: t, us => us.headD [] ++ plug t us.tail

variable {sign : String}

@[simp] theorem places_nil : places [] = 0 := rfl

@[simp] theorem places_some (text : String) (t : Template) :
    places (some text :: t) = places t := by
  simp [places]

@[simp] theorem places_none (t : Template) : places (none :: t) = places t + 1 := by
  simp [places]

/-- Places are counted piece by piece, so those of two templates one behind the other add up. -/
@[simp] theorem places_append (t u : Template) : places (t ++ u) = places t + places u :=
  List.count_append

theorem fill_append (t u : Template) : fill sign (t ++ u) = fill sign t ++ fill sign u := by
  induction t with
  | nil => simp [fill]
  | cons part t ih => cases part <;> simp [fill, ih, String.append_assoc]

/-- Texts are put into a template from left to right: what the first half leaves over goes into the
second. -/
theorem fillWith_append (t u : Template) (texts : List String) :
    fillWith (t ++ u) texts = fillWith t texts ++ fillWith u (texts.drop t.places) := by
  induction t generalizing texts with
  | nil => simp [fillWith]
  | cons part t ih => cases part <;> simp [fillWith, ih, String.append_assoc, Nat.add_comm]

/-- Templates put into the places of a template are filled with it. This is how the expression
around arguments is described once those of the arguments are. -/
theorem fill_plug (t : Template) (us : List Template) :
    fill sign (t.plug us) = t.fillWith (us.map (fill sign)) := by
  induction t generalizing us with
  | nil => rfl
  | cons part t ih =>
    cases part with
    | some text => simp [plug, fill, fillWith, ih]
    | none => cases us <;> simp [plug, fillWith, fill_append, ih]

/-- The places of a plugged template are those of the templates that were put in, as long as there
is one for each place. -/
theorem places_plug {t : Template} {us : List Template} (h : us.length = t.places) :
    (t.plug us).places = (us.map places).sum := by
  induction t generalizing us with
  | nil => simp [List.length_eq_zero_iff.mp h, plug]
  | cons part t ih =>
    cases part with
    | some text => simpa [plug] using ih (by simpa using h)
    | none =>
      cases us with
      | nil => simp at h
      | cons u us =>
        have htail : us.length = places t := by simpa using h
        simp [plug, ih htail]

end Template

open Template

/-! ## Calls -/

/-- A spelling of some arguments that writes each of them once and in order, between texts that do
not depend on them. -/
def WritesEach (count : Nat) (spell : List String → String) : Prop :=
  ∃ t : Template, t.places = count ∧ ∀ args, args.length = count → spell args = t.fillWith args

namespace WritesEach

variable {count : Nat} {spell : List String → String}

/-- Text may be put around what an idiom writes. -/
theorem between (h : WritesEach count spell) (lead tail : String) :
    WritesEach count fun args => lead ++ spell args ++ tail := by
  obtain ⟨t, hplaces, hspell⟩ := h
  refine ⟨some lead :: (t ++ [some tail]), by simpa using hplaces, fun args hargs => ?_⟩
  simp [fillWith, fillWith_append, hspell args hargs, String.append_assoc]

/-- Joining arguments with a separator writes each of them once and in order. -/
theorem join (sep : String) (count : Nat) : WritesEach count (Text.join sep) := by
  induction count with
  | zero =>
    refine ⟨[], rfl, fun args hargs => ?_⟩
    rw [List.length_eq_zero_iff.mp hargs]
    rfl
  | succ count ih =>
    obtain ⟨t, hplaces, hspell⟩ := ih
    cases count with
    | zero =>
      refine ⟨[none], rfl, fun args hargs => ?_⟩
      obtain ⟨arg, rfl⟩ := List.length_eq_one_iff.mp hargs
      simp [fillWith, Text.join]
    | succ count =>
      refine ⟨none :: some sep :: t, by simpa using hplaces, ?_⟩
      rintro (_ | ⟨first, _ | ⟨second, args⟩⟩) hargs
      · cases hargs
      · cases hargs
      · have htail := hspell (second :: args) (by simpa using hargs)
        simp [fillWith, Text.join, htail, String.append_assoc]

/-- An idiom with a single argument between two texts. -/
theorem one (lead tail : String) : WritesEach 1 fun args => lead ++ args.headD "" ++ tail := by
  refine ⟨[some lead, none, some tail], rfl, fun args _ => ?_⟩
  simp [fillWith, String.append_assoc]

end WritesEach

/-- A spelling that there may not be: if there is one for some number of arguments, it writes each
of them once and in order. -/
def MayWriteEach (count : Nat) (spell? : List String → Option String) : Prop :=
  (∀ args, args.length = count → spell? args = none) ∨
    ∃ spell, WritesEach count spell ∧ ∀ args, args.length = count → spell? args = some (spell args)

section

variable {count : Nat} {spell? other? : List String → Option String} {spell : List String → String}

/-- Of two idioms that write each of their arguments, the first that applies is taken. -/
theorem MayWriteEach.orElse (h : MayWriteEach count spell?) (hother : MayWriteEach count other?) :
    MayWriteEach count fun args => (spell? args).orElse fun _ => other? args := by
  rcases h with hnone | ⟨spell, hwrites, hspell⟩
  · rcases hother with hnone' | ⟨spell, hwrites, hspell⟩
    · exact .inl fun args hargs => by simp [hnone args hargs, hnone' args hargs]
    · exact .inr ⟨spell, hwrites, fun args hargs => by simp [hnone args hargs, hspell args hargs]⟩
  · exact .inr ⟨spell, hwrites, fun args hargs => by simp [hspell args hargs]⟩

/-- Only calls with the right number of arguments matter. -/
theorem WritesEach.congr {spell' : List String → String} (h : WritesEach count spell)
    (heq : ∀ args, args.length = count → spell' args = spell args) : WritesEach count spell' := by
  obtain ⟨t, hplaces, hspell⟩ := h
  exact ⟨t, hplaces, fun args hargs => (heq args hargs).trans (hspell args hargs)⟩

/-- An idiom that may not apply, with one that always does behind it. -/
theorem MayWriteEach.getD (h : MayWriteEach count spell?) (hspell : WritesEach count spell) :
    WritesEach count fun args => (spell? args).getD (spell args) := by
  rcases h with hnone | ⟨found, hwrites, hfound⟩
  · exact hspell.congr fun args hargs => by simp [hnone args hargs]
  · exact hwrites.congr fun args hargs => by simp [hfound args hargs]

/-- Functions of one text write it once, whatever the target calls them. -/
theorem mayWriteEach_textFunction? (target : Target) (name : String) :
    MayWriteEach 1 fun args => textFunction? target name (args.headD "") := by
  have hfound : ∀ lead tail, (∀ x, textFunction? target name x = some (lead ++ x ++ tail)) →
      MayWriteEach 1 fun args => textFunction? target name (args.headD "") :=
    fun lead tail h => .inr ⟨_, .one lead tail, fun args _ => h (args.headD "")⟩
  by_cases htrim : name = "ALLTRIM"
  · subst htrim
    cases target <;> exact hfound _ _ fun x => rfl
  by_cases hupper : name = "UPPER"
  · subst hupper
    cases target <;> exact hfound _ _ fun x => rfl
  by_cases hlower : name = "LOWER"
  · subst hlower
    cases target <;> exact hfound _ _ fun x => rfl
  by_cases hlen : name = "LEN"
  · subst hlen
    cases target <;> exact hfound _ _ fun x => rfl
  exact .inl fun args _ => by simp [textFunction?, htrim, hupper, hlower, hlen]

/-- The three parts of a color are written in order. -/
theorem writesEach_colorCall (target : Target) :
    WritesEach 3 fun args =>
      colorCall target (args.headD "") (args.tail.headD "") (args.tail.tail.headD "") := by
  have hcall : ∀ lead first second tail, (∀ red green blue, colorCall target red green blue =
      lead ++ red ++ first ++ green ++ second ++ blue ++ tail) → WritesEach 3 fun args =>
        colorCall target (args.headD "") (args.tail.headD "") (args.tail.tail.headD "") := by
    intro lead first second tail h
    refine ⟨[some lead, none, some first, none, some second, none, some tail], rfl, ?_⟩
    intro args _
    simp [h, fillWith, String.append_assoc]
  cases target <;> exact hcall _ _ _ _ fun red green blue => rfl

/-- Every function that a target knows by name writes each of its arguments once. The ones that take
a fixed number of arguments are not applied to another number. -/
theorem mayWriteEach_functionCall? (target : Target) (name : String) (count : Nat) :
    MayWriteEach count (functionCall? target name) := by
  by_cases hbox : name.toUpper = "MESSAGEBOX"
  · have hjoin := WritesEach.join ", " count
    refine .inr ⟨_, hjoin.between ((idiom target).messageBox ++ "(") ")", fun args hargs => ?_⟩
    simp [functionCall?, hbox]
  by_cases hcolor : name.toUpper = "RGB" ∧ count = 3
  · obtain ⟨hcolor, rfl⟩ := hcolor
    refine .inr ⟨_, writesEach_colorCall target, fun args hargs => ?_⟩
    obtain ⟨red, green, blue, rfl⟩ := List.length_eq_three.mp hargs
    simp [functionCall?, hcolor]
  by_cases hone : count = 1
  · subst hone
    have heq : ∀ args : List String, args.length = 1 →
        functionCall? target name args = textFunction? target name.toUpper (args.headD "") := by
      intro args hargs
      obtain ⟨arg, rfl⟩ := List.length_eq_one_iff.mp hargs
      simp [functionCall?]
    rcases mayWriteEach_textFunction? target name.toUpper with hnone | ⟨spell, hwrites, hspell⟩
    · exact .inl fun args hargs => (heq args hargs).trans (hnone args hargs)
    · exact .inr ⟨spell, hwrites, fun args hargs => (heq args hargs).trans (hspell args hargs)⟩
  · refine .inl fun args hargs => ?_
    unfold functionCall?
    split
    · contradiction
    · exact absurd ⟨‹_›, hargs.symm⟩ hcolor
    · exact absurd hargs.symm hone
    · rfl

/-- A chain of one name is looked up among the functions, and a longer one is no function. -/
theorem mayWriteEach_named (target : Target) (segments : List String) (count : Nat) :
    MayWriteEach count fun args => match segments with
      | [function] => functionCall? target function args
      | _ => none := by
  rcases segments with _ | ⟨function, _ | ⟨method, more⟩⟩
  · exact .inl fun args _ => rfl
  · exact mayWriteEach_functionCall? target function count
  · exact .inl fun args _ => rfl

/-- Besides the functions there are calls for members of controls, and those write their arguments
as well. Only the call that closes the form drops them. -/
theorem mayWriteEach_specialCall? (ctx : Context) {segments : List String}
    (h : isRelease segments = false) (count : Nat) :
    MayWriteEach count (specialCall? ctx segments) := by
  unfold specialCall?
  rw [h]
  rcases hlast : segments.getLast? with _ | method
  · exact .inl fun args _ => rfl
  rcases hobject : segments.dropLast with _ | ⟨first, object⟩
  · exact .inl fun args _ => rfl
  rcases hmethod : methodReference? ctx.target (reference ctx (first :: object)).text method with
    _ | m
  · exact .inl fun args _ => by simp [hmethod]
  · refine .inr ⟨_, (WritesEach.join ", " count).between (m ++ "(") ")", fun args _ => ?_⟩
    simp [hmethod]

/-- A call writes each of its arguments once and in order, unless it closes the form. -/
theorem writesEach_callText (ctx : Context) {segments : List String}
    (h : isRelease segments = false) (closed : Bool) (count : Nat) :
    WritesEach count fun args => callText ctx segments args closed := by
  have hplain : WritesEach count fun args => (reference ctx segments).text ++ "(" ++
      Text.join ", " args ++ if closed then ")" else "" :=
    (WritesEach.join ", " count).between ((reference ctx segments).text ++ "(") _
  have hspecial := (mayWriteEach_named ctx.target segments count).orElse
    (mayWriteEach_specialCall? ctx h count)
  refine (hspecial.getD hplain).congr ?_
  intro args hargs
  unfold callText
  dsimp only
  split
  · next text hfound => exact (congrArg (Option.getD · _) hfound).symm
  · next hnone => exact (congrArg (Option.getD · _) hnone).symm

/-- The call that closes the form is the same text for all arguments: they are dropped. -/
theorem callText_of_isRelease (ctx : Context) {segments : List String}
    (h : isRelease segments = true) (args : List String) (closed : Bool) :
    callText ctx segments args closed = (idiom ctx.target).closeForm := by
  match segments, h with
  | [first, second], h => simp [callText, specialCall?, h]

/-- The template of a call: when the call does not close the form, all of its arguments stand in
the places of it, and otherwise none. -/
theorem exists_template_callText (ctx : Context) (segments : List String) (closed : Bool)
    (count : Nat) :
    ∃ call : Template,
      (∀ us : List Template, us.length = count →
        (call.plug us).places = if isRelease segments then 0 else (us.map places).sum) ∧
      ∀ args, args.length = count → callText ctx segments args closed = call.fillWith args := by
  cases hrelease : isRelease segments with
  | true =>
    refine ⟨[some (idiom ctx.target).closeForm], fun us _ => by simp [plug], fun args _ => ?_⟩
    rw [callText_of_isRelease ctx hrelease]
    simp [fillWith]
  | false =>
    obtain ⟨call, hplaces, hcall⟩ := writesEach_callText ctx hrelease closed count
    exact ⟨call, fun us hus => places_plug (hus.trans hplaces.symm), hcall⟩

end

/-! ## Signs among tokens -/

/-- How many single equals signs there are. -/
def signs (tokens : List Token) : Nat := tokens.countP (isOp "=")

/-- A single equals sign becomes another operator. -/
def putSign (sign : String) (token : Token) : Token := if token.isOp "=" then .op sign else token

/-- An operator that does not cut an expression into pieces. -/
def IsNeutral (sign : String) : Prop := sign ∉ ["(", ")", ",", "."]

instance (sign : String) : Decidable (IsNeutral sign) :=
  inferInstanceAs (Decidable (sign ∉ ["(", ")", ",", "."]))

variable {sign : String} {tokens xs ys : List Token}

@[simp] theorem signs_append (xs ys : List Token) : signs (xs ++ ys) = signs xs + signs ys :=
  List.countP_append

/-- A lone equals sign at the front counts, and nothing else does. -/
theorem signs_cons_of_pos {token : Token} (h : token.isOp "=" = true) (tokens : List Token) :
    signs (token :: tokens) = signs tokens + 1 :=
  List.countP_cons_of_pos h

theorem signs_cons_of_neg {token : Token} (h : token.isOp "=" = false) (tokens : List Token) :
    signs (token :: tokens) = signs tokens :=
  List.countP_cons_of_neg (by simp [h])

/-- Without equals signs there is nothing to be counted. -/
theorem signs_eq_zero (h : ∀ token ∈ tokens, token.isOp "=" = false) : signs tokens = 0 :=
  List.countP_eq_zero.mpr fun token htoken => by simp [h token htoken]

/-- A blank is no operator. -/
theorem isOp_of_isBlank {token : Token} (h : token.isBlank = true) (sign : String) :
    token.isOp sign = false := by
  cases token with
  | blank => rfl
  | _ => cases h

/-- Only equals signs are replaced. -/
theorem putSign_of_neg {token : Token} (h : token.isOp "=" = false) :
    putSign sign token = token := by
  rw [putSign, if_neg (by simp [h])]

theorem putSign_op {other : String} (h : other ≠ "=") : putSign sign (.op other) = .op other :=
  putSign_of_neg (by simpa [isOp] using h)

/-- A neutral sign is no bracket, comma or dot, so putting it in moves none of the tokens at which
an expression is cut. -/
theorem isOp_putSign (h : IsNeutral sign) {other : String} (hother : other ∈ ["(", ")", ",", "."])
    (token : Token) : (putSign sign token).isOp other = token.isOp other := by
  rw [putSign]
  split
  · next hassign =>
    have hsign : sign ≠ other := by
      rintro rfl
      exact h hother
    have hne : "=" ≠ other := by
      rintro rfl
      revert hother
      decide
    rw [eq_op_of_isOp hassign]
    simp [isOp, hsign, hne]
  · rfl

/-- A token that looks like a bracket, comma or dot behind the replacement was one before. -/
theorem eq_op_of_putSign_eq (h : IsNeutral sign) {other : String}
    (hother : other ∈ ["(", ")", ",", "."]) {token : Token} (heq : putSign sign token = .op other) :
    token = .op other := by
  apply eq_op_of_isOp
  rw [← isOp_putSign h hother, heq]
  exact beq_self_eq_true other

/-- Names are never the result of a replacement. -/
theorem eq_name_of_putSign_eq {token : Token} {word : String}
    (heq : putSign sign token = .name word) : token = .name word := by
  rw [putSign] at heq
  split at heq
  · cases heq
  · exact heq

@[simp] theorem isBlank_putSign (sign : String) (token : Token) :
    (putSign sign token).isBlank = token.isBlank := by
  rw [putSign]
  split
  · next h => rw [eq_op_of_isOp h]; rfl
  · rfl

/-! ## Cutting tokens where signs have been put -/

/-- Blanks in front hold no signs. -/
theorem signs_dropBlanks (tokens : List Token) :
    signs (tokens.dropWhile Token.isBlank) = signs tokens := by
  have hblank : signs (tokens.takeWhile Token.isBlank) = 0 :=
    signs_eq_zero fun _ h => isOp_of_isBlank (List.mem_takeWhile_imp h) _
  have hwhole := signs_append (tokens.takeWhile Token.isBlank) (tokens.dropWhile Token.isBlank)
  rw [List.takeWhile_append_dropWhile, hblank, Nat.zero_add] at hwhole
  exact hwhole.symm

@[simp] theorem signs_reverse (tokens : List Token) : signs tokens.reverse = signs tokens :=
  List.countP_reverse

/-- Trimming takes no sign away. -/
@[simp] theorem signs_trim (tokens : List Token) : signs (Token.trim tokens) = signs tokens := by
  rw [Token.trim, signs_reverse, signs_dropBlanks, signs_reverse, signs_dropBlanks]

theorem signs_dropBlank (tokens : List Token) : signs (dropBlank tokens) = signs tokens := by
  unfold dropBlank
  split
  · exact (signs_cons_of_neg rfl _).symm
  · rfl

/-- A chain of members has dots and names only, so all signs are behind it. -/
theorem signs_spanChain (tokens : List Token) : signs (spanChain tokens).2 = signs tokens := by
  have hchain : signs ((spanChain tokens).1.flatMap fun w => [.op ".", .name w]) = 0 := by
    refine signs_eq_zero fun token htoken => ?_
    obtain ⟨w, -, hw⟩ := List.mem_flatMap.mp htoken
    rcases List.mem_pair.mp hw with rfl | rfl <;> rfl
  conv_rhs => rw [spanChain_eq tokens, signs_append, hchain, Nat.zero_add]

/-- The arguments of a call share out the signs between its parentheses: commas are no signs. -/
theorem sum_signs_argumentsOf (inside : List Token) :
    ((argumentsOf inside).map signs).sum = signs inside := by
  rcases argumentsOf_cases inside with ⟨hnone, hblank⟩ | ⟨piece, pieces, heq, hinside⟩
  · rw [hnone, signs_eq_zero fun t ht => isOp_of_isBlank (hblank t ht) _]
    rfl
  · rw [heq, List.map_cons, List.sum_cons]
    have hpieces : signs (pieces.flatMap (.op "," :: ·)) = (pieces.map signs).sum :=
      List.countP_flatMap
    conv_rhs => rw [hinside, signs_append, hpieces]

/-- A closing parenthesis divides the signs into those before and those behind it. -/
theorem signs_splitAtClose (depth : Nat) (tokens : List Token) :
    signs (splitAtClose depth tokens).1 + signs ((splitAtClose depth tokens).2.getD []) =
      signs tokens := by
  obtain ⟨closing, htokens, hclosing⟩ := splitAtClose_eq depth tokens
  have hnone : signs closing = 0 :=
    signs_eq_zero fun token htoken => by rw [hclosing token htoken]; rfl
  conv_rhs => rw [htokens]
  simp [hnone]

/-- Dropping a blank and putting in a sign may be done in either order, since a sign is never put in
place of a blank and never is one. -/
theorem dropBlank_map_putSign (sign : String) (tokens : List Token) :
    dropBlank (tokens.map (putSign sign)) = (dropBlank tokens).map (putSign sign) := by
  rcases tokens with _ | ⟨token, tokens⟩
  · rfl
  · cases htoken : token.isBlank with
    | true =>
      cases token with
      | blank => rfl
      | _ => cases htoken
    | false =>
      have hkeep : ∀ {t : Token} (ts : List Token), t.isBlank = false →
          dropBlank (t :: ts) = t :: ts := by
        intro t ts ht
        cases t with
        | blank => cases ht
        | _ => rfl
      rw [hkeep _ htoken, List.map_cons, hkeep _ (by simpa using htoken)]

/-- Trimming and putting in a sign may be done in either order, since a sign is no blank. -/
theorem trim_map_putSign (sign : String) (tokens : List Token) :
    Token.trim (tokens.map (putSign sign)) = (Token.trim tokens).map (putSign sign) := by
  have hblank : Token.isBlank ∘ putSign sign = Token.isBlank := funext (isBlank_putSign sign)
  rw [Token.trim, Token.trim, List.dropWhile_map, hblank, ← List.map_reverse, List.dropWhile_map,
    hblank, List.map_reverse]

/-- The chain at the front stays the same when a neutral sign is put in, as it has no signs. -/
theorem spanChain_map_putSign (h : IsNeutral sign) (tokens : List Token) :
    spanChain (tokens.map (putSign sign)) =
      ((spanChain tokens).1, (spanChain tokens).2.map (putSign sign)) := by
  fun_induction spanChain tokens with
  | case1 word rest words after hafter ih =>
    rw [hafter] at ih
    rw [List.map_cons, List.map_cons, putSign_op (by decide), putSign_of_neg rfl, spanChain, ih]
  | case2 rest hrest =>
    unfold spanChain
    split
    · next word after hmap =>
      -- a sign that was put is no dot, and names are left as they are
      obtain ⟨dot, more, rfl, hdot, hmore⟩ := List.map_eq_cons_iff.mp hmap
      obtain ⟨name, behind, rfl, hname, -⟩ := List.map_eq_cons_iff.mp hmore
      obtain rfl := eq_op_of_putSign_eq h (by decide) hdot
      obtain rfl := eq_name_of_putSign_eq hname
      exact absurd rfl (hrest word behind)
    · rfl

/-- The closing parenthesis is found at the same place whichever neutral sign is put in. -/
theorem splitAtClose_map_putSign (h : IsNeutral sign) (depth : Nat) (tokens : List Token) :
    splitAtClose depth (tokens.map (putSign sign)) =
      ((splitAtClose depth tokens).1.map (putSign sign),
        (splitAtClose depth tokens).2.map (List.map (putSign sign))) := by
  induction tokens generalizing depth with
  | nil => rfl
  | cons token tokens ih =>
    rw [List.map_cons, splitAtClose, splitAtClose, isOp_putSign h (by decide),
      isOp_putSign h (by decide)]
    split
    · rfl
    · dsimp only
      rw [ih]
      rfl

/-- The commas outside parentheses are found at the same places whichever neutral sign is put in. -/
theorem splitAtCommas_map_putSign (h : IsNeutral sign) (depth : Int) (tokens : List Token) :
    splitAtCommas depth (tokens.map (putSign sign)) =
      (splitAtCommas depth tokens).map (List.map (putSign sign)) := by
  induction tokens generalizing depth with
  | nil => rfl
  | cons token tokens ih =>
    rw [List.map_cons, splitAtCommas, splitAtCommas, isOp_putSign h (by decide),
      isOp_putSign h (by decide), isOp_putSign h (by decide)]
    split
    · rw [ih]
      rfl
    · dsimp only
      rw [ih]
      cases splitAtCommas _ tokens <;> rfl

/-- So a call keeps its arguments, with the sign put into each of them. -/
theorem argumentsOf_map_putSign (h : IsNeutral sign) (inside : List Token) :
    argumentsOf (inside.map (putSign sign)) =
      (argumentsOf inside).map (List.map (putSign sign)) := by
  rw [argumentsOf, argumentsOf, trim_map_putSign, List.isEmpty_map, splitAtCommas_map_putSign h]
  split <;> rfl

/-! ## Steps of an expression -/

section

variable {ctx : Context} {test : Bool} {fuel : Nat} {word : String} {more : List String}
  {rest after inner : List Token}

/-- The step for a connective: the word of the target, and the rest of the tokens. -/
theorem exprFrom_and (h : word.toUpper = "AND") :
    exprFrom ctx test (fuel + 1) (.name word :: rest) =
      (idiom ctx.target).andWord ++ exprFrom ctx test fuel rest := by
  simp [exprFrom, h]

theorem exprFrom_or (h : word.toUpper = "OR") :
    exprFrom ctx test (fuel + 1) (.name word :: rest) =
      (idiom ctx.target).orWord ++ exprFrom ctx test fuel rest := by
  simp [exprFrom, h]

/-- The step for a negation. Where blocks have braces the word is a sign, and the blank behind it is
dropped. -/
theorem exprFrom_not (h : word.toUpper = "NOT") :
    exprFrom ctx test (fuel + 1) (.name word :: rest) =
      if (idiom ctx.target).braces then
        (idiom ctx.target).notWord ++ exprFrom ctx test fuel (dropBlank rest)
      else "not" ++ exprFrom ctx test fuel rest := by
  simp [exprFrom, h]

/-- The step for a chain of members that no parenthesis follows. -/
theorem exprFrom_reference (hand : word.toUpper ≠ "AND") (hor : word.toUpper ≠ "OR")
    (hnot : word.toUpper ≠ "NOT") (hchain : spanChain rest = (more, after))
    (hafter : ∀ inner, after ≠ .op "(" :: inner) :
    exprFrom ctx test (fuel + 1) (.name word :: rest) =
      referenceText ctx (word :: more) ++ exprFrom ctx test fuel after := by
  rw [exprFrom]
  dsimp only
  split
  · contradiction
  · contradiction
  · contradiction
  · rw [hchain]
    dsimp only
    split
    · exact absurd rfl (hafter _)
    · rfl

/-- The step for a call. Its arguments are expressions of their own, read with the same fuel as what
stands behind the closing parenthesis. -/
theorem exprFrom_call (hand : word.toUpper ≠ "AND") (hor : word.toUpper ≠ "OR")
    (hnot : word.toUpper ≠ "NOT") (hchain : spanChain rest = (more, .op "(" :: inner)) :
    exprFrom ctx test (fuel + 1) (.name word :: rest) =
      callText ctx (word :: more)
          ((argumentsOf (splitAtClose 0 inner).1).map fun arg =>
            exprFrom ctx test fuel (Token.trim arg))
          (splitAtClose 0 inner).2.isSome ++
        exprFrom ctx test fuel ((splitAtClose 0 inner).2.getD []) := by
  rw [exprFrom]
  dsimp only
  split
  · contradiction
  · contradiction
  · contradiction
  · rw [hchain]
    rfl

/-- The step for any other token, which stands for itself. -/
theorem exprFrom_cons {token : Token} (h : ∀ word, token ≠ .name word) :
    exprFrom ctx test (fuel + 1) (token :: rest) =
      tokenText ctx.target test token ++ exprFrom ctx test fuel rest := by
  rw [exprFrom]
  exact h

end

/-- Only the equals sign is written differently in tests. -/
theorem tokenText_of_neg {target : Target} {token : Token} (h : token.isOp "=" = false)
    (test : Bool) : tokenText target test token = tokenText target false token := by
  cases token with
  | op other =>
    have hother : other ≠ "=" := by simpa [isOp] using h
    show operatorText target test other = operatorText target false other
    unfold operatorText
    split <;> first | rfl | exact absurd rfl hother
  | _ => rfl

/-! ## Expressions -/

/-- What an expression is spelled as, whatever the single equals signs in it have become: a
template with the operator in its places. Unless a call that closes the form has such signs among
its arguments, every one of them has its place. -/
structure Spells (ctx : Context) (fuel : Nat) (tokens : List Token) (t : Template) : Prop where
  fill : ∀ (test : Bool) (sign : String), IsNeutral sign →
    exprFrom ctx test fuel (tokens.map (putSign sign)) = t.fill (operatorText ctx.target test sign)
  places : tokens.length ≤ fuel → releasesWithout (isOp "=") tokens = true → t.places = signs tokens

section

variable {ctx : Context} {fuel : Nat} {word : String} {more : List String}
  {token : Token} {rest after inner : List Token} {t : Template} {template : List Token → Template}

/-- Text in front of an expression takes up a token without a sign, and perhaps some more. -/
theorem Spells.behind (h : Spells ctx fuel after t) (text : String)
    (hsigns : signs (token :: rest) = signs after) (hafter : after <:+ rest)
    (hstep : ∀ test sign, IsNeutral sign →
      exprFrom ctx test (fuel + 1) ((token :: rest).map (putSign sign)) =
        text ++ exprFrom ctx test fuel (after.map (putSign sign))) :
    Spells ctx (fuel + 1) (token :: rest) (some text :: t) where
  fill test sign hsign := by
    rw [hstep test sign hsign, h.fill test sign hsign]
    rfl
  places hlength hrelease := by
    have hsuffix := hafter.trans (List.suffix_cons token rest)
    rw [places_some, hsigns]
    exact h.places (hafter.length_le.trans (Nat.le_of_succ_le_succ hlength))
      (releasesWithout_of_isInfix hrelease hsuffix.isInfix)

/-- A sign in front of an expression has a place of its own. -/
theorem Spells.cons_sign (h : Spells ctx fuel rest t) (hassign : token.isOp "=" = true) :
    Spells ctx (fuel + 1) (token :: rest) (none :: t) where
  fill test sign hsign := by
    have hop : ∀ word, Token.op sign ≠ .name word := nofun
    rw [List.map_cons, putSign, if_pos hassign, exprFrom_cons hop, h.fill test sign hsign]
    rfl
  places hlength hrelease := by
    rw [places_none, signs_cons_of_pos hassign]
    exact congrArg (· + 1) (h.places (Nat.le_of_succ_le_succ hlength)
      (releasesWithout_of_isInfix hrelease (List.suffix_cons token rest).isInfix))

/-- The arguments of a call are spelled by templates when shorter expressions are. This is the
induction hypothesis in the form in which a call needs it. -/
theorem exprFrom_map_trim (ih : ∀ tokens, Spells ctx fuel tokens (template tokens)) (test : Bool)
    (hsign : IsNeutral sign) (args : List (List Token)) :
    (args.map (List.map (putSign sign))).map (fun arg => exprFrom ctx test fuel (Token.trim arg)) =
      (args.map fun arg => template (Token.trim arg)).map
        (Template.fill (operatorText ctx.target test sign)) := by
  rw [List.map_map, List.map_map]
  refine List.map_congr_left fun arg _ => ?_
  show exprFrom ctx test fuel (Token.trim (arg.map (putSign sign))) = _
  rw [trim_map_putSign, (ih _).fill test sign hsign]
  rfl

/-- The templates of the arguments of a call stand in the places of the template of the call. Each
argument is translated on its own, with fuel left, so that the induction hypothesis gives its
template. -/
theorem exists_spells_call (ih : ∀ tokens, Spells ctx fuel tokens (template tokens))
    (hand : word.toUpper ≠ "AND") (hor : word.toUpper ≠ "OR") (hnot : word.toUpper ≠ "NOT")
    (hchain : spanChain rest = (more, .op "(" :: inner)) :
    ∃ t, Spells ctx (fuel + 1) (.name word :: rest) t := by
  have hrest : rest = (more.flatMap fun w => [.op ".", .name w]) ++ .op "(" :: inner := by
    simpa [hchain] using spanChain_eq rest
  obtain ⟨call, hplaces, hcall⟩ := exists_template_callText ctx (word :: more)
    (splitAtClose 0 inner).2.isSome (argumentsOf (splitAtClose 0 inner).1).length
  refine ⟨call.plug ((argumentsOf (splitAtClose 0 inner).1).map fun arg =>
    template (Token.trim arg)) ++ template ((splitAtClose 0 inner).2.getD []), ?_, ?_⟩
  · intro test sign hsign
    have hmapped := spanChain_map_putSign hsign rest
    rw [hchain, List.map_cons, putSign_op (by decide)] at hmapped
    have hbehind : ((splitAtClose 0 inner).2.map (List.map (putSign sign))).getD [] =
        ((splitAtClose 0 inner).2.getD []).map (putSign sign) := by
      cases (splitAtClose 0 inner).2 <;> rfl
    rw [List.map_cons, putSign_of_neg rfl, exprFrom_call hand hor hnot hmapped,
      splitAtClose_map_putSign hsign, argumentsOf_map_putSign hsign, Option.isSome_map, hbehind,
      exprFrom_map_trim ih test hsign, hcall _ (by simp), fill_append, fill_plug,
      (ih _).fill test sign hsign]
  · intro hlength hwithout
    have hsuffix : inner <:+ rest := ⟨_, by rw [hrest, List.append_cons]⟩
    -- every part of the expression behind its first token has places for its signs
    have hpart : ∀ part, part <:+: inner → (template part).places = signs part := by
      intro part hpart
      have hwhole := hpart.trans hsuffix.isInfix
      exact (ih part).places (hwhole.length_le.trans (Nat.le_of_succ_le_succ hlength))
        (releasesWithout_of_isInfix hwithout (hwhole.trans (List.suffix_cons _ rest).isInfix))
    have hargs : (((argumentsOf (splitAtClose 0 inner).1).map fun arg =>
          template (Token.trim arg)).map Template.places).sum =
        signs (splitAtClose 0 inner).1 := by
      rw [← sum_signs_argumentsOf, List.map_map]
      refine congrArg List.sum (List.map_congr_left fun arg harg => ?_)
      have hinfix := (isInfix_trim arg).trans
        ((isInfix_of_mem_argumentsOf harg).trans (isPrefix_splitAtClose 0 inner).isInfix)
      exact (hpart _ hinfix).trans (signs_trim arg)
    have hsigns : signs (.name word :: rest) = signs inner := by
      rw [signs_cons_of_neg rfl, ← signs_spanChain, hchain]
      exact signs_cons_of_neg rfl inner
    rw [places_append, hplaces _ (by simp), hpart _ (isSuffix_splitAtClose 0 inner).isInfix, hargs,
      hsigns, ← signs_splitAtClose 0 inner]
    split
    · next hrelease =>
      have hnone : signs (splitAtClose 0 inner).1 = 0 :=
        signs_eq_zero fun token => eq_false_of_isRelease (hrest ▸ hwithout) hrelease
      rw [hnone]
    · rfl

/-- A word is a connective, the head of a call, or a reference. The cases are those of the
translation, and only a call has other expressions inside. -/
theorem exists_spells_name (ih : ∀ tokens, Spells ctx fuel tokens (template tokens))
    (word : String) (rest : List Token) : ∃ t, Spells ctx (fuel + 1) (.name word :: rest) t := by
  have hsigns : signs (.name word :: rest) = signs rest := signs_cons_of_neg rfl rest
  have hput : ∀ sign, (Token.name word :: rest).map (putSign sign) =
      .name word :: rest.map (putSign sign) := fun sign => rfl
  by_cases hand : word.toUpper = "AND"
  · refine ⟨_, (ih rest).behind (idiom ctx.target).andWord hsigns (List.suffix_refl rest)
      fun test sign _ => ?_⟩
    rw [hput, exprFrom_and hand]
  by_cases hor : word.toUpper = "OR"
  · refine ⟨_, (ih rest).behind (idiom ctx.target).orWord hsigns (List.suffix_refl rest)
      fun test sign _ => ?_⟩
    rw [hput, exprFrom_or hor]
  by_cases hnot : word.toUpper = "NOT"
  · cases hbraces : (idiom ctx.target).braces with
    | true =>
      refine ⟨_, (ih (dropBlank rest)).behind (idiom ctx.target).notWord
        (hsigns.trans (signs_dropBlank rest).symm) (dropBlank_suffix rest) fun test sign _ => ?_⟩
      rw [hput, exprFrom_not hnot, if_pos hbraces, dropBlank_map_putSign]
    | false =>
      refine ⟨_, (ih rest).behind "not" hsigns (List.suffix_refl rest) fun test sign _ => ?_⟩
      rw [hput, exprFrom_not hnot, if_neg (by simp [hbraces])]
  rcases hchain : spanChain rest with ⟨more, after⟩
  by_cases hcall : ∃ inner, after = .op "(" :: inner
  · obtain ⟨inner, rfl⟩ := hcall
    exact exists_spells_call ih hand hor hnot hchain
  · push Not at hcall
    have hafter : after <:+ rest := ⟨_, by simpa [hchain] using (spanChain_eq rest).symm⟩
    refine ⟨_, (ih after).behind (referenceText ctx (word :: more)) (hsigns.trans ?_) hafter
      fun test sign hsign => ?_⟩
    · rw [← signs_spanChain, hchain]
    · have hmapped := spanChain_map_putSign hsign rest
      rw [hchain] at hmapped
      rw [hput, exprFrom_reference hand hor hnot hmapped]
      intro inner hinner
      obtain ⟨parenthesis, behind, rfl, hparenthesis, -⟩ := List.map_eq_cons_iff.mp hinner
      exact hcall behind (by rw [eq_op_of_putSign_eq hsign (by decide) hparenthesis])

/-- Every list of tokens is spelled by a template, by induction on the fuel with one case for each
kind of token in front. -/
theorem exists_spells (ctx : Context) (fuel : Nat) (tokens : List Token) :
    ∃ t, Spells ctx fuel tokens t := by
  -- the arguments of a call are expressions of their own, so the induction is on the steps
  induction fuel generalizing tokens with
  | zero =>
    refine ⟨[], fun _ _ _ => rfl, fun hlength _ => ?_⟩
    rw [List.length_eq_zero_iff.mp (Nat.le_zero.mp hlength)]
    rfl
  | succ fuel ih =>
    choose template htemplate using ih
    rcases tokens with _ | ⟨token, rest⟩
    · exact ⟨[], fun _ _ _ => rfl, fun _ _ => rfl⟩
    by_cases hname : ∃ word, token = .name word
    · obtain ⟨word, rfl⟩ := hname
      exact exists_spells_name htemplate word rest
    push Not at hname
    by_cases hassign : token.isOp "=" = true
    · exact ⟨_, (htemplate rest).cons_sign hassign⟩
    · rw [Bool.not_eq_true] at hassign
      refine ⟨_, (htemplate rest).behind (tokenText ctx.target false token)
        (signs_cons_of_neg hassign rest) (List.suffix_refl rest) fun test sign _ => ?_⟩
      rw [List.map_cons, putSign_of_neg hassign, exprFrom_cons hname, tokenText_of_neg hassign]

end

end ScreenForms.Code
