import ScreenForms.Proofs.EqualitySigns
import ScreenForms.Proofs.Lexing
import ScreenForms.Proofs.Structured

/-!
# References to members of controls

A reference to a member of a control of the form is read as three names with dots between them,
whatever the names are (`lex_memberText`). A property with a spelling of its own is spelled on the
control, and its spelling tells controls apart (`getProperty_injective`). Every other member is
taken for an object of the window itself, and the name of the control is lost
(`reference_member`). So two controls are told apart in references, assignments and calls exactly
when the member is such a property, or the method that sets the focus (`controls_apart_iff`).
-/

namespace ScreenForms.Code

open Text Token

/-- Without ampersands there is no remark. -/
theorem dropRemark_of_not_mem {cs : List Char} (h : '&' ∉ cs) : dropRemark cs = cs := by
  have hgo : ∀ (cs : List Char) (q : Option Char), '&' ∉ cs → dropRemark.go q cs = cs := by
    intro cs
    induction cs with
    | nil =>
      intro q _
      cases q <;> rfl
    | cons c cs ih =>
      intro q hmem
      have hcs : '&' ∉ cs := List.not_mem_of_not_mem_cons hmem
      cases q with
      | some q => exact congrArg (c :: ·) (ih _ hcs)
      | none =>
        unfold dropRemark.go
        split
        · contradiction
        · contradiction
        · next heq => exact absurd (heq ▸ List.mem_cons_self) hmem
        · next heq =>
          obtain ⟨rfl, rfl⟩ := List.cons.inj heq
          exact congrArg (_ :: ·) (ih _ hcs)
  exact hgo cs none h

variable {ctx : Context} {target : Target} {control member value : String}

/-! ## Members as they are written -/

/-- A reference to a member of a control of the form. -/
def memberText (control member : String) : String := "THISFORM." ++ control ++ "." ++ member

/-- A call of a method of a control of the form. -/
def methodText (control method : String) : String := memberText control method ++ "()"

/-- A line that assigns a name to a member of a control of the form. -/
def assignmentText (control member value : String) : String :=
  memberText control member ++ " = " ++ value

/-- The tokens of a reference to a member. -/
def memberTokens (control member : String) : List Token :=
  [.name "THISFORM", .op ".", .name control, .op ".", .name member]

/-- A member is read as its names with dots between them. Whatever follows is read as it stands
behind a name, as long as it does not go on with one. -/
theorem lexBehind_memberText (hcontrol : isName control = true) (hmember : isName member = true)
    {rest : List Char} (hrest : ∀ c, rest.head? = some c → isNamePart c = false) :
    lexBehind none ((memberText control member).toList ++ rest) =
      memberTokens control member ++ lexBehind (some (.name member)) rest := by
  have hdot : ∀ (cs : List Char) c, ('.' :: cs).head? = some c → isNamePart c = false :=
    head?_cons_eq_false (by decide)
  have htext : (memberText control member).toList ++ rest =
      "THISFORM".toList ++ '.' :: (control.toList ++ '.' :: (member.toList ++ rest)) := by
    simp [memberText]
  rw [htext, lexBehind_name (by decide +kernel) _ (hdot _), lexBehind_dot rfl,
    lexBehind_name hcontrol _ (hdot _), lexBehind_dot rfl, lexBehind_name hmember _ hrest]
  rfl

/-- A member that stands alone. -/
theorem lex_memberText (hcontrol : isName control = true) (hmember : isName member = true) :
    lex (memberText control member).toList = memberTokens control member := by
  have hlex : lexBehind none ((memberText control member).toList ++ []) =
      memberTokens control member ++ [] := lexBehind_memberText hcontrol hmember nofun
  rwa [List.append_nil, List.append_nil] at hlex

/-- A member with a pair of parentheses behind it. -/
theorem lex_methodText (hcontrol : isName control = true) (hmember : isName member = true) :
    lex (methodText control member).toList =
      memberTokens control member ++ [.op "(", .op ")"] := by
  rw [methodText, String.toList_append, lex_eq, lexBehind_memberText hcontrol hmember]
  · rfl
  · exact head?_cons_eq_false (by decide) [')']

/-- A member with an equals sign and a name behind it, where the blanks around the sign are tokens
of their own. -/
theorem lex_assignmentText (hcontrol : isName control = true) (hmember : isName member = true)
    (hvalue : isName value = true) :
    lex (assignmentText control member value).toList =
      memberTokens control member ++ [.blank " ", .op "=", .blank " ", .name value] := by
  obtain ⟨c, cs, hc, hstart, -⟩ := isName_iff.mp hvalue
  have hsolid : ∀ d, value.toList.head? = some d → Text.isBlank d = false := by
    rw [hc, String.toList_ofList]
    exact head?_cons_eq_false (not_isBlank_of_isNamePart (isNamePart_of_isNameStart hstart)) cs
  have hname : lexBehind (some (.blank " ")) (value.toList ++ []) = [.name value] :=
    lexBehind_name hvalue _ nofun
  rw [List.append_nil] at hname
  have htext : (assignmentText control member value).toList =
      (memberText control member).toList ++ ' ' :: '=' :: ' ' :: value.toList := by
    simp [assignmentText]
  have hspace : ∀ (cs : List Char) d, (' ' :: cs).head? = some d → isNamePart d = false :=
    head?_cons_eq_false (by decide)
  have hassign : ∀ (cs : List Char) d, ('=' :: cs).head? = some d → Text.isBlank d = false :=
    head?_cons_eq_false rfl
  have hpair : ∀ (cs : List Char) d ds, ' ' :: cs = d :: ds →
      String.ofList ['=', d] ∉ pairOperators := by
    rintro cs d ds ⟨⟩
    decide
  rw [htext, lex_eq, lexBehind_memberText hcontrol hmember (hspace _), lexBehind_space (hassign _),
    lexBehind_sign (by decide +kernel) (hpair _), lexBehind_space hsolid, hname]

/-! ## Objects in the spelling of properties -/

/-- Texts are equal where each stands twice in equal texts: they have the same length, and so the
first places fall together. -/
theorem eq_of_twice {s t mid tail : String}
    (h : s ++ mid ++ s ++ tail = t ++ mid ++ t ++ tail) : s = t := by
  have hlist := congrArg String.toList (String.append_left_inj tail |>.mp h)
  simp only [String.toList_append, List.append_assoc] at hlist
  have hlength : s.toList.length = t.toList.length := by
    have hlengths := congrArg List.length hlist
    simp only [List.length_append] at hlengths
    omega
  exact String.toList_injective (List.append_inj_left hlist hlength)

/-- Texts between the same texts are equal. -/
theorem eq_of_between {lead s t tail : String} (h : lead ++ s ++ tail = lead ++ t ++ tail) :
    s = t := by
  simpa using h

/-- The spelling of a property tells objects apart. The object stands at the front or between fixed
texts, and for colors in Qt it does so twice. -/
theorem getProperty_injective {property : PropertyName} {object object' : String}
    (h : getProperty target property object false = getProperty target property object' false) :
    object = object' := by
  have hfront : ∀ {tail : String}, object ++ tail = object' ++ tail → object = object' :=
    fun h => String.append_left_inj _ |>.mp h
  cases target with
  | tkinter =>
    cases property with
    | value => exact eq_of_between h
    | enabled => exact eq_of_between h
    | visible => exact eq_of_between h
    | _ => exact hfront h
  | qt =>
    cases property with
    | value => exact eq_of_between h
    | foreColor => exact eq_of_twice h
    | backColor => exact eq_of_twice h
    | _ => exact hfront h
  | winforms => cases property <;> exact hfront h
  | html =>
    cases property with
    | enabled => exact eq_of_between h
    | visible => exact eq_of_between h
    | _ => exact hfront h

/-- Where blocks have braces, a property is set by a text that begins with the object. -/
theorem setProperty_of_braces (hbraces : (idiom target).braces = true) (property : PropertyName)
    (object value : String) : setProperty target property object value false =
      object ++ setProperty target property "" value false := by
  have hopen : ∀ mid : String, object ++ mid ++ value = object ++ ("" ++ mid ++ value) := by
    simp [String.append_assoc]
  have hclosed : ∀ mid close : String,
      object ++ mid ++ value ++ close = object ++ ("" ++ mid ++ value ++ close) := by
    simp [String.append_assoc]
  cases target with
  | tkinter => cases hbraces
  | qt => cases hbraces
  | winforms =>
    cases property with
    | value => exact hclosed _ _
    | _ => exact hopen _
  | html =>
    cases property with
    | enabled => exact hclosed _ _
    | visible => exact hclosed _ _
    | _ => exact hopen _

/-- A semicolon is put behind a text as behind its last part. -/
theorem terminated_append (s : String) {t : String} (ht : t ≠ "") :
    Output.terminated target (s ++ t) = s ++ Output.terminated target t := by
  have hlast : Output.lastChar? (s ++ t) = Output.lastChar? t := by
    have hne : t.toList ≠ [] := fun hnil => ht (String.toList_injective hnil)
    rw [Output.lastChar?, Output.lastChar?, String.toList_append, List.getLast?_append_of_ne_nil _ hne]
  unfold Output.terminated
  rw [hlast]
  split
  · rfl
  · split <;> simp [String.append_assoc]

/-- The statement that sets a property tells objects apart. With braces the object stands in front,
and without them it has the same texts around it, whatever it is. -/
theorem terminated_setProperty_injective {property : PropertyName} {object object' : String}
    (h : Output.terminated target (setProperty target property object value false) =
      Output.terminated target (setProperty target property object' value false)) :
    object = object' := by
  cases hbraces : (idiom target).braces with
  | true =>
    have htail : setProperty target property "" value false ≠ "" := by
      intro hempty
      obtain ⟨c, hc, -⟩ := solid_setProperty target property "" value false
      rw [hempty] at hc
      cases hc
    rw [setProperty_of_braces hbraces, setProperty_of_braces hbraces _ object',
      terminated_append _ htail, terminated_append _ htail] at h
    simpa using h
  | false =>
    have hsame : ∀ text, Output.terminated target text = text :=
      fun text => by simp [Output.terminated, hbraces]
    rw [hsame, hsame] at h
    have hfront : ∀ {mid close : String}, object ++ mid ++ value ++ close =
        object' ++ mid ++ value ++ close → object = object' := by
      intro mid close h
      simpa using h
    have hinside : ∀ {lead mid close : String}, lead ++ object ++ mid ++ value ++ close =
        lead ++ object' ++ mid ++ value ++ close → object = object' := by
      intro lead mid close h
      simpa using h
    cases target with
    | tkinter =>
      cases property with
      | value => exact hinside h
      | visible => exact hinside h
      | _ => exact hfront h
    | qt =>
      cases property with
      | value => exact hinside h
      | foreColor => exact hinside h
      | backColor => exact hinside h
      | _ => exact hfront h
    | winforms => cases hbraces
    | html => cases hbraces

/-- The method that sets the focus is spelled behind its object. -/
theorem exists_methodReference?_eq {method : String} (h : method.toLower = "setfocus")
    (target : Target) :
    ∃ tail, ∀ object, methodReference? target object method = some (object ++ tail) := by
  simp only [methodReference?, h, if_true]
  cases target <;> exact ⟨_, fun _ => rfl⟩

/-! ## What members are translated to -/

/-- The object that a control is in the generated window. -/
def controlObject (target : Target) (control : String) : String :=
  (idiom target).selfLead ++ memberName target control

/-- The object of a control tells controls apart as their member names do, since the prefix is the
same for all. -/
theorem controlObject_inj {other : String} :
    controlObject target control = controlObject target other ↔
      memberName target control = memberName target other := by
  simp [controlObject]

theorem thisform_toUpper : "THISFORM".toUpper = "THISFORM" := by decide +kernel

/-- A chain that begins with the form is resolved by the names behind. -/
theorem reference_window (segments : List String) :
    reference ctx ("THISFORM" :: segments) = windowReference ctx.target segments none := by
  rw [reference, if_pos thisform_toUpper]

/-- A property with a spelling of its own is a property of the control. -/
theorem reference_property {property : PropertyName}
    (h : PropertyName.ofName? member = some property) :
    reference ctx ["THISFORM", control, member] =
      { text := getProperty ctx.target property (controlObject ctx.target control) false
        property := some (controlObject ctx.target control, property, false) } := by
  simp [reference_window, windowReference, h, objectOf, controlObject]

/-- Any other member is taken for an object of the window, whatever the control is. -/
theorem reference_member (h : PropertyName.ofName? member = none) :
    reference ctx ["THISFORM", control, member] = { text := controlObject ctx.target member } := by
  simp [reference_window, windowReference, h, objectOf, controlObject]

/-- A chain that ends at a control refers to the control itself, unless its name is that of a
property. -/
theorem reference_control (h : PropertyName.ofName? control = none) :
    reference ctx ["THISFORM", control] = { text := controlObject ctx.target control } := by
  simp [reference_window, windowReference, h, objectOf, controlObject]

/-- Control and member are the chain behind the form. -/
theorem spanChain_members {rest : List Token} (hrest : ∀ more, rest ≠ .op "." :: more) :
    spanChain (.op "." :: .name control :: .op "." :: .name member :: rest) =
      ([control, member], rest) := by
  have hend : spanChain rest = ([], rest) := by
    unfold spanChain
    split
    · exact absurd rfl (hrest _)
    · rfl
  simp [spanChain, hend]

/-- So a member stands in an expression as what its chain refers to. -/
theorem exprText_memberText (hcontrol : isName control = true) (hmember : isName member = true)
    (test : Bool) : exprText ctx test (memberText control member).toList =
      (reference ctx ["THISFORM", control, member]).text := by
  have hexpr : exprText ctx test (memberText control member).toList =
      referenceText ctx ["THISFORM", control, member] ++ exprFrom ctx test 4 [] := by
    rw [exprText, lex_memberText hcontrol hmember]
    exact exprFrom_reference (by rw [thisform_toUpper]; decide) (by rw [thisform_toUpper]; decide)
      (by rw [thisform_toUpper]; decide) (spanChain_members nofun) nofun
  rw [hexpr, exprFrom, String.append_empty]
  cases h : PropertyName.ofName? member with
  | some property => simp [referenceText, isRelease, reference_property h]
  | none => simp [referenceText, isRelease, reference_member h]

/-- A call of a method of a control that is no property itself. -/
theorem exprText_methodText (hcontrol : isName control = true) (hmember : isName member = true)
    (hplain : PropertyName.ofName? control = none) (test : Bool) :
    exprText ctx test (methodText control member).toList =
      ((methodReference? ctx.target (controlObject ctx.target control) member).getD
        (reference ctx ["THISFORM", control, member]).text) ++ "()" := by
  have hexpr : exprText ctx test (methodText control member).toList =
      callText ctx ["THISFORM", control, member] [] true ++ exprFrom ctx test 6 [] := by
    rw [exprText, lex_methodText hcontrol hmember]
    exact exprFrom_call (by rw [thisform_toUpper]; decide) (by rw [thisform_toUpper]; decide)
      (by rw [thisform_toUpper]; decide) (spanChain_members (by simp))
  have hspecial : specialCall? ctx ["THISFORM", control, member] [] =
      (methodReference? ctx.target (controlObject ctx.target control) member).map (· ++ "()") := by
    simp [specialCall?, isRelease, reference_control hplain, Text.join, String.append_assoc]
  rw [hexpr, exprFrom, String.append_empty]
  simp only [callText, Option.orElse_none, hspecial]
  cases methodReference? ctx.target (controlObject ctx.target control) member with
  | some m => rfl
  | none => simp [Text.join, String.append_assoc]

/-- The statement of a line that assigns to a member. -/
theorem statement_assignmentText (hcontrol : isName control = true) (hmember : isName member = true)
    (hvalue : isName value = true) :
    statement ctx (lex (assignmentText control member value).toList) =
      assignment ctx (memberTokens control member) (expr ctx true [.name value]) := by
  rw [lex_assignmentText hcontrol hmember hvalue]
  simp [statement, dropLeadingAssign, Token.trim, Token.isBlank, splitAtAssign?, Token.isOp,
    memberTokens]
  rfl

/-- An assignment to a member sets the property that its chain refers to. Where there is none, the
text of the chain is assigned to. -/
theorem assignment_memberTokens (control member text : String) :
    assignment ctx (memberTokens control member) text =
      match (reference ctx ["THISFORM", control, member]).property with
      | some (object, property, onForm) => setProperty ctx.target property object text onForm
      | none => (reference ctx ["THISFORM", control, member]).text ++ " = " ++ text :=
  rfl

/-! ## Lines that assign to members -/

section lines

variable {cs rest : List Char}

theorem isWordPart_of_mem_thisform : ∀ c ∈ "THISFORM".toList, isWordPart c = true :=
  List.all_eq_true.mp (by decide)

/-- The line begins with the name of the window, and with no other word. -/
theorem wordThen?_thisform (hcs : cs = "THISFORM".toList ++ '.' :: rest) {word : String}
    (hword : word ≠ "thisform") : wordThen? word cs = none := by
  rw [hcs, wordThen?_append isWordPart_of_mem_thisform (head?_cons_eq_false (by decide) rest)]
  refine if_neg fun h => hword (String.toList_injective (h.symm.trans ?_))
  decide

/-- No keyword but the first word itself begins a line that begins with the form. -/
theorem startsWithOneOf_thisform (hcs : cs = "THISFORM".toList ++ '.' :: rest) {words : List String}
    (hwords : "thisform" ∉ words) : startsWithOneOf words cs = false := by
  rw [hcs, startsWithOneOf_append isWordPart_of_mem_thisform (head?_cons_eq_false (by decide) rest)]
  exact decide_eq_false hwords

/-- And such a line is no keyword as a whole. -/
theorem lower_ne_thisform (hcs : cs = "THISFORM".toList ++ '.' :: rest) {whole : String}
    (hwhole : whole.toList.head? ≠ some 't') : String.ofList (lower cs) ≠ whole := by
  rintro rfl
  rw [String.toList_ofList, hcs] at hwhole
  exact hwhole rfl

/-- So it neither opens a block nor continues or closes one. -/
theorem blockLine?_thisform (hcs : cs = "THISFORM".toList ++ '.' :: rest) :
    blockLine? cs = none := by
  have hword : ∀ {word}, word ≠ "thisform" → wordThen? word cs = none := wordThen?_thisform hcs
  have hwords : ∀ {words}, "thisform" ∉ words → startsWithOneOf words cs = false :=
    startsWithOneOf_thisform hcs
  have helse : String.ofList (lower cs) ≠ "else" := lower_ne_thisform hcs (by decide)
  have hotherwise : String.ofList (lower cs) ∉
      ["othe", "other", "otherw", "otherwi", "otherwis", "otherwise"] := by
    intro hmem
    have hheads : ∀ w ∈ ["othe", "other", "otherw", "otherwi", "otherwis", "otherwise"],
        w.toList.head? ≠ some 't' := by decide
    exact lower_ne_thisform hcs (hheads _ hmem) rfl
  simp [blockLine?, conditionOf?, tailOf?, forEachParts?, forParts?, wordAndBlanks?, hword, hwords,
    helse, hotherwise]

/-- What a lead is cut from may end before the lead does. -/
theorem exists_of_dropLeadNoCase? {lead xs ys : List Char} {d : Char}
    (hd : d.toLower ∉ lower lead) (h : dropLeadNoCase? lead (xs ++ d :: ys) = some rest) :
    ∃ more, more <:+ xs ∧ rest = more ++ d :: ys := by
  induction lead generalizing xs with
  | nil => exact ⟨xs, List.suffix_refl xs, (Option.some.inj h).symm⟩
  | cons p lead ih =>
    obtain ⟨hp, hlead⟩ : d.toLower ≠ p.toLower ∧ d.toLower ∉ lower lead := by
      simpa [lower] using hd
    cases xs with
    | nil =>
      rw [List.nil_append, dropLeadNoCase?, if_neg (Ne.symm hp)] at h
      cases h
    | cons x xs =>
      rw [List.cons_append, dropLeadNoCase?] at h
      split at h
      · obtain ⟨more, hmore, hrest⟩ := ih hlead h
        exact ⟨more, hmore.trans (List.suffix_cons x xs), hrest⟩
      · cases h

/-- A line that names a member of a control does not close the form. -/
theorem isReleaseLine_thisform (hcontrol : isName control = true)
    (hcs : cs = "THISFORM".toList ++ '.' :: (control.toList ++ '.' :: rest)) :
    isReleaseLine cs = false := by
  have hrelease : wordAndBlanks? "release" cs = none := by
    rw [wordAndBlanks?, wordThen?_thisform hcs (by decide)]
    rfl
  have hlead : ∀ ys, dropLeadNoCase? "thisform.release".toList ("THISFORM".toList ++ '.' :: ys) =
      dropLeadNoCase? "release".toList ys := fun _ => rfl
  rw [isReleaseLine, hrelease, hcs, hlead]
  rcases hdrop : dropLeadNoCase? "release".toList (control.toList ++ '.' :: rest) with _ | behind
  · rfl
  · obtain ⟨more, hmore, rfl⟩ := exists_of_dropLeadNoCase? (by decide) hdrop
    obtain ⟨c, ys, hbehind, hblank, hopen⟩ : ∃ c ys, more ++ '.' :: rest = c :: ys ∧
        isAsciiBlank c = false ∧ c ≠ '(' := by
      cases more with
      | nil => exact ⟨'.', rest, rfl, by decide, by decide⟩
      | cons c more =>
        have hpart := isNamePart_of_mem hcontrol (hmore.subset List.mem_cons_self)
        refine ⟨c, more ++ '.' :: rest, rfl,
          not_isAsciiBlank_of_not_isBlank (not_isBlank_of_isNamePart hpart), ?_⟩
        rintro rfl
        exact absurd hpart (by decide)
    rw [hbehind]
    simp [hblank, hopen]

/-- It is none of the simple lines either. The call that closes the form would be one, but the
control behind the first dot rules it out. -/
theorem simpleLine?_thisform (hcontrol : isName control = true)
    (hcs : cs = "THISFORM".toList ++ '.' :: (control.toList ++ '.' :: rest)) :
    simpleLine? cs = none := by
  have hword : ∀ {word}, word ≠ "thisform" → wordThen? word cs = none := wordThen?_thisform hcs
  have hrelease := isReleaseLine_thisform hcontrol hcs
  have hsign : ∀ value : List Char, cs ≠ '?' :: value := by
    rintro value rfl
    cases hcs
  simp [simpleLine?, argumentOf?, tailOf?, storeParts?, callParts?, wordAndBlanks?, hword,
    hrelease]
  split
  · next value => exact absurd rfl (hsign _)
  · next value => exact absurd rfl (hsign _)
  · rfl

/-- A character of a line that assigns a name to a member. -/
def isLineChar (c : Char) : Bool := isNamePart c || c == '.' || c == ' ' || c == '='

/-- All characters of the assignment are such that nothing ends the line or begins a remark. -/
theorem isLineChar_of_mem (hcontrol : isName control = true) (hmember : isName member = true)
    (hvalue : isName value = true) :
    ∀ c ∈ (assignmentText control member value).toList, isLineChar c = true := by
  have hname : ∀ {name : String}, isName name = true → ∀ c ∈ name.toList, isLineChar c = true := by
    intro name h c hc
    simp [isLineChar, isNamePart_of_mem h hc]
  simp only [assignmentText, memberText, String.toList_append, List.forall_mem_append]
  exact ⟨⟨⟨⟨⟨List.all_eq_true.mp (by decide), hname hcontrol⟩, List.all_eq_true.mp (by decide)⟩,
    hname hmember⟩, List.all_eq_true.mp (by decide)⟩, hname hvalue⟩

/-- The characters of the assignment, part by part. -/
theorem toList_assignmentText (control member value : String) :
    (assignmentText control member value).toList =
      "THISFORM".toList ++ '.' :: (control.toList ++ '.' :: (member.toList ++
        ' ' :: '=' :: ' ' :: value.toList)) := by
  simp [assignmentText, memberText]

/-- The line neither begins nor ends with a blank, and does not end with a semicolon. -/
theorem exists_getLast?_assignmentText (hvalue : isName value = true) (control member : String) :
    ∃ d, (assignmentText control member value).toList.getLast? = some d ∧ isNamePart d = true := by
  obtain ⟨c, cs, hname, -⟩ := isName_iff.mp hvalue
  have hne : value.toList ≠ [] := by
    rw [hname, String.toList_ofList]
    exact List.cons_ne_nil c cs
  refine ⟨value.toList.getLast hne, ?_, isNamePart_of_mem hvalue (List.getLast_mem hne)⟩
  rw [assignmentText, String.toList_append, List.getLast?_append_of_ne_nil _ hne,
    List.getLast?_eq_some_getLast hne]

/-- It has no blanks at its ends: it begins with a letter and ends with the last character of a
name. -/
theorem trim_assignmentText (hvalue : isName value = true) (control member : String) :
    trim (assignmentText control member value).toList =
      (assignmentText control member value).toList := by
  obtain ⟨d, hlast, hpart⟩ := exists_getLast?_assignmentText hvalue control member
  refine trim_of_ends ?_ (show isBlank 'T' = false by decide) hlast
    (not_isBlank_of_isNamePart hpart)
  rw [toList_assignmentText]
  rfl

/-- So it is a line of code on its own. -/
theorem isCodeLine_assignmentText (hcontrol : isName control = true)
    (hmember : isName member = true) (hvalue : isName value = true) :
    IsCodeLine (assignmentText control member value).toList := by
  have hchars := isLineChar_of_mem hcontrol hmember hvalue
  obtain ⟨d, hlast, hpart⟩ := exists_getLast?_assignmentText hvalue control member
  refine EndsLine.isCodeLine ⟨⟨?_, trim_assignmentText hvalue control member⟩, ?_, ?_, ?_⟩ ?_
  · rw [toList_assignmentText]
    exact List.cons_ne_nil _ _
  · exact fun hmem => absurd (hchars _ hmem) (by decide)
  · rw [hlast]
    rintro ⟨⟩
    exact absurd hpart (by decide)
  · exact dropRemark_of_not_mem fun hmem => absurd (hchars _ hmem) (by decide)
  · rw [toList_assignmentText]
    rfl

/-- And it is read as a statement, not as one of the lines with keywords. -/
theorem read_assignmentText (hcontrol : isName control = true) (hvalue : isName value = true)
    (member : String) : Line.read (trim (assignmentText control member value).toList) =
      .statement (assignmentText control member value).toList := by
  have htext := toList_assignmentText control member value
  have htrim := trim_assignmentText hvalue control member
  rw [Line.read, htrim, htrim, blockLine?_thisform htext, simpleLine?_thisform hcontrol htext]
  have hhead : ∀ c cs, (assignmentText control member value).toList = c :: cs → c = 'T' := by
    intro c cs h
    rw [htext] at h
    exact (List.cons.inj h).1.symm
  split
  · next h =>
    rw [htext] at h
    cases h
  · next h => exact absurd (hhead _ _ h) (by decide)
  · rfl

end lines

/-- A body of one line that is a plain statement becomes one statement. -/
theorem translate_statement {raw text : List Char} (hcode : IsCodeLine raw)
    (hread : Line.read (trim raw) = .statement text) (hsolid : Solid (statement ctx (lex text))) :
    translate ctx (bodyText [raw]) = Output.terminated ctx.target (statement ctx (lex text)) := by
  have hrun : (logicalLines (bodyText [raw])).foldl (translateLine ctx) {} =
      Output.writeStatement ctx.target (statement ctx (lex text)) {} := by
    rw [logicalLines_bodyText (List.forall_mem_singleton.mpr hcode.toIsSourceLine),
      List.map_singleton, List.foldl_cons, List.foldl_nil, hcode.translateLine_eq, hread]
    rfl
  have hlines : translatedLines ctx (bodyText [raw]) =
      [Output.terminated ctx.target (statement ctx (lex text))] := by
    rw [translatedLines, hrun]
    show dropBlankEnd ([Output.terminated ctx.target (statement ctx (lex text))].map (indented 0)) = _
    rw [map_indented_zero]
    exact dropBlankEnd_of_forall (List.forall_mem_singleton.mpr (solid_terminated ctx.target hsolid))
  rw [translate, hlines]
  rfl

/-- Its translation is the assignment in the spelling of the target, with the value as an
expression. -/
theorem translate_assignmentText (hcontrol : isName control = true)
    (hmember : isName member = true) (hvalue : isName value = true) :
    translate ctx (assignmentText control member value) = Output.terminated ctx.target
      (assignment ctx (memberTokens control member) (expr ctx true [.name value])) := by
  have hbody : bodyText [(assignmentText control member value).toList] =
      assignmentText control member value := String.ofList_toList
  have hstatement : statement ctx (lex (assignmentText control member value).toList) =
      assignment ctx (memberTokens control member) (expr ctx true [.name value]) :=
    statement_assignmentText hcontrol hmember hvalue
  have hsolid := solid_assignment ctx (memberTokens control member) (expr ctx true [.name value])
  rw [← hstatement] at hsolid ⊢
  conv_lhs => rw [← hbody]
  exact translate_statement (isCodeLine_assignmentText hcontrol hmember hvalue)
    (read_assignmentText hcontrol hvalue member) hsolid

/-! ## Controls apart -/

/-- References to a member of two controls, and lines that assign to it, are translated to different
texts exactly when the member is a property with a spelling of its own; calls of it also when it
is the method that sets the focus. The controls have different names in the generated window. -/
theorem controls_apart_iff (ctx : Context) {a b : String} (ha : isName a = true)
    (hb : isName b = true) (hmembers : memberName ctx.target a ≠ memberName ctx.target b)
    (hmember : isName member = true) :
    (∀ test, exprText ctx test (memberText a member).toList ≠
        exprText ctx test (memberText b member).toList ↔
      (PropertyName.ofName? member).isSome) ∧
    (∀ value, isName value = true → (translate ctx (assignmentText a member value) ≠
        translate ctx (assignmentText b member value) ↔
      (PropertyName.ofName? member).isSome)) ∧
    (PropertyName.ofName? a = none → PropertyName.ofName? b = none →
      ∀ test, exprText ctx test (methodText a member).toList ≠
          exprText ctx test (methodText b member).toList ↔
        (PropertyName.ofName? member).isSome ∨ member.toLower = "setfocus") := by
  have hobjects : controlObject ctx.target a ≠ controlObject ctx.target b :=
    fun h => hmembers (controlObject_inj.mp h)
  refine ⟨fun test => ?_, fun value hvalue => ?_, fun hplain hplain' test => ?_⟩
  · rw [exprText_memberText ha hmember, exprText_memberText hb hmember]
    cases h : PropertyName.ofName? member with
    | none => simp [reference_member h]
    | some property =>
      simp only [reference_property h, Option.isSome_some, iff_true]
      exact fun heq => hobjects (getProperty_injective heq)
  · rw [translate_assignmentText ha hmember hvalue, translate_assignmentText hb hmember hvalue,
      assignment_memberTokens, assignment_memberTokens]
    cases h : PropertyName.ofName? member with
    | none => simp [reference_member h]
    | some property =>
      simp only [reference_property h, Option.isSome_some, iff_true]
      exact fun heq => hobjects (terminated_setProperty_injective heq)
  · rw [exprText_methodText ha hmember hplain, exprText_methodText hb hmember hplain']
    by_cases hfocus : member.toLower = "setfocus"
    · obtain ⟨tail, htail⟩ := exists_methodReference?_eq hfocus ctx.target
      simpa [htail, hfocus] using hobjects
    · have hplain : ∀ object, methodReference? ctx.target object member = none :=
        fun _ => if_neg hfocus
      simp only [hplain, Option.getD_none, hfocus, or_false]
      cases h : PropertyName.ofName? member with
      | none => simp [reference_member h]
      | some property =>
        simp only [reference_property h, Option.isSome_some, iff_true]
        exact fun heq => hobjects (getProperty_injective (by simpa using heq))

theorem controls_apart_value :
    exprText { target := .qt } true (memberText "txtA" "ForeColor").toList ≠
      exprText { target := .qt } true (memberText "txtB" "ForeColor").toList ∧
    translate { target := .html } (assignmentText "txtA" "Value" "n") ≠
      translate { target := .html } (assignmentText "txtB" "Value" "n") ∧
    exprText { target := .tkinter } false (methodText "txtA" "SetFocus").toList ≠
      exprText { target := .tkinter } false (methodText "txtB" "SetFocus").toList := by
  have ha : isName "txtA" = true := by decide +kernel
  have hb : isName "txtB" = true := by decide +kernel
  refine ⟨?_, ?_, ?_⟩
  · exact ((controls_apart_iff { target := .qt } ha hb (by decide +kernel) (by decide +kernel)).1
      true).mpr (by decide +kernel)
  · exact ((controls_apart_iff { target := .html } ha hb (by decide +kernel) (by decide +kernel)).2.1
      "n" (by decide +kernel)).mpr (by decide +kernel)
  · exact ((controls_apart_iff { target := .tkinter } ha hb (by decide +kernel)
      (by decide +kernel)).2.2 (by decide +kernel) (by decide +kernel) false).mpr (by decide +kernel)

/-- Both text boxes are named, but moving one is written like moving the other. -/
theorem controls_lost_left :
    memberName .tkinter "txtA" ≠ memberName .tkinter "txtB" ∧
    (∀ name ∈ ["txtA", "txtB"], PropertyName.ofName? name = none ∧ name.toLower ≠ "setfocus") ∧
    exprText { target := .tkinter } false (memberText "txtA" "Left").toList =
      exprText { target := .tkinter } false (memberText "txtB" "Left").toList ∧
    translate { target := .tkinter } "THISFORM.txtA.Left = n" = "self.Left = n" ∧
    translate { target := .tkinter } "THISFORM.txtB.Left = n" = "self.Left = n" := by
  decide +kernel

end ScreenForms.Code
