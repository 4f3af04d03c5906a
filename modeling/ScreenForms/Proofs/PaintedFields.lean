import ScreenForms.Proofs.ExprParses
import ScreenForms.Proofs.FieldLists
import ScreenForms.Proofs.WholeFloats

/-!
# The field of a painted control

A field is painted with the name of its variable between the keyword and the next clause. A name
that is a keyword itself begins a clause of its own, so the control is not bound to it. All other
names are kept (`keepsField_iff`), as long as the position has a value and no further clause makes
something else of the textbox.
-/

namespace ScreenForms

namespace Screen

namespace Expr

open Decimal

variable {screen : ScreenSize}

/-! ## Whole numbers as positions -/

theorem isSome_eval?_of_factor? {cs : List Char} {x : Float}
    (h : ∀ fuel depth, factor? screen (fuel + 2) (depth + 2) cs = some (x, []))
    (hx : x.isFinite = true) : (eval? screen cs).isSome := by
  have hend : ∀ allowed, GoesOn allowed [] := goesOn_of_blank (by simp)
  have hproduct : product? screen (4 * cs.length + 4) 64 cs = some (x, []) := by
    rw [product?, h (4 * cs.length + 1) 62]
    exact productFrom?_of_goesOn (hend _) x
  have hsum : sum? screen (4 * cs.length + 5) maxDepth cs = some (x, []) := by
    rw [sum?, maxDepth, hproduct]
    exact sumFrom?_of_goesOn (hend _) x
  rw [eval?, hsum]
  simp [hx, Text.trimStart]

theorem factor?_decimalText (n fuel depth : Nat) :
    factor? screen (fuel + 1) (depth + 1) (decimalText n) = some (nearestFloat n 0, []) := by
  obtain ⟨c, cs, hcs⟩ := List.exists_cons_of_ne_nil (decimalText_ne_nil n)
  have hdigit : ∀ d ∈ c :: cs, isNumberChar d = true := fun d hd => by
    simp [isNumberChar, isDigit_of_mem_decimalText (hcs ▸ hd : d ∈ decimalText n)]
  obtain ⟨hc, hrest⟩ := List.forall_mem_cons.mp hdigit
  have hread := read?_decimalText n
  rw [hcs] at hread ⊢
  have hstart : Text.trimStart (c :: cs) = (⟨c, cs, hc, hrest⟩ : Numeral).text ++ [] := by
    rw [List.append_nil]
    exact List.dropWhile_cons_of_neg (by simp [not_isBlank_of_isNumberChar hc])
  exact factor?_number hstart (goesOn_of_blank (by simp) _) hread

/-- A whole number of less than 53 bits has a value. -/
theorem isSome_eval?_intText {n : Int} (hn : n.natAbs < 2 ^ 53) :
    (eval? screen (intText n).toList).isSome := by
  cases n with
  | ofNat n =>
    rw [show (intText (Int.ofNat n)).toList = decimalText n from toList_intText_ofNat n]
    refine isSome_eval?_of_factor? (fun fuel depth => factor?_decimalText n _ _) ?_
    rcases Nat.eq_zero_or_pos n with rfl | hpos
    · decide +kernel
    · rw [nearestFloat_of_lt hpos hn]
      exact (isNormal_natCast hpos hn).isFinite_float _
  | negSucc n =>
    have htext : (intText (Int.negSucc n)).toList = '-' :: decimalText (n + 1) := by
      rw [intText, String.toList_ofList]
    rw [htext]
    refine isSome_eval?_of_factor? (fun fuel depth => factor?_negative
      (eat?_eq_some_iff.mpr rfl) (factor?_decimalText (n + 1) _ _)) ?_
    rw [nearestFloat_of_lt (Nat.succ_pos n) hn, IsNormal.neg_float]
    exact (isNormal_natCast (Nat.succ_pos n) hn).isFinite_float _

end Expr

open Text (IsGap IsSolid IsLevel)

/-! ## The clauses of a command -/

section clauses

variable {keywords : List String} {ws : List (List Char)}

/-- What was read before the latest clause has no influence on what follows it. So the clauses of a
field can be read without the position and the words in front. -/
theorem foldl_addNext_append (head head' : List Char) (front : List Clause) (last : Clause)
    (list : List Clause) :
    ws.foldl (Clauses.addNext keywords none) ⟨head, front ++ (list ++ [last])⟩ =
      ⟨head, front ++ (ws.foldl (Clauses.addNext keywords none) ⟨head', list ++ [last]⟩).list⟩ := by
  induction ws generalizing list last with
  | nil => rfl
  | cons w ws ih =>
    rcases hfind : keywords.find? (isKeyword w) with _ | keyword
    · have hnext : ∀ head list, Clauses.addNext keywords none ⟨head, list ++ [last]⟩ w =
          ⟨head, list ++ [⟨last.keyword, addWord last.argument w⟩]⟩ := fun head list => by
        simp [Clauses.addNext, Clauses.expectsItem, hfind]
      rw [List.foldl_cons, List.foldl_cons, ← List.append_assoc, hnext, hnext, List.append_assoc,
        ih]
    · have hnext : ∀ head list, Clauses.addNext keywords none ⟨head, list⟩ w =
          ⟨head, list ++ [⟨keyword, []⟩]⟩ := fun head list => addNext_keyword rfl hfind
      rw [List.foldl_cons, List.foldl_cons, hnext, hnext, List.append_assoc, ih]

/-- Clauses begin with words that spell their keywords. -/
theorem exists_word_of_mem_foldl {c : Clauses} {clause : Clause}
    (h : clause ∈ (ws.foldl (Clauses.addNext keywords none) c).list) :
    clause.keyword ∈ c.list.map Clause.keyword ∨
      ∃ w ∈ ws, isKeyword w clause.keyword = true := by
  induction ws generalizing c with
  | nil => exact .inl (List.mem_map_of_mem h)
  | cons w ws ih =>
    rcases ih h with hnext | ⟨v, hv, hspells⟩
    · rcases hfind : keywords.find? (isKeyword w) with _ | keyword
      · refine .inl ?_
        rcases List.eq_nil_or_concat' c.list with hnil | ⟨front, last, hlist⟩
        · simp [Clauses.addNext, Clauses.expectsItem, hfind, hnil] at hnext
        · simpa [Clauses.addNext, Clauses.expectsItem, hfind, hlist] using hnext
      · rw [addNext_keyword rfl hfind, List.map_append, List.mem_append] at hnext
        refine hnext.imp_right fun hlast => ⟨w, List.mem_cons_self, ?_⟩
        rw [List.mem_singleton.mp hlast]
        exact List.find?_some hfind
    · exact .inr ⟨v, List.mem_cons_of_mem w hv, hspells⟩

end clauses

/-! ## The command -/

/-- Clauses behind a field, for its size, its value, its validation and its entry. -/
inductive FieldClauses : List Char → Prop
  | nil : FieldClauses []
  | cons {keyword : String} {gap word behind argument rest : List Char}
    (hkeyword : keyword ∈ ["SIZE", "DEFAULT", "VALID", "WHEN"])
    (hword : isKeyword word keyword = true) (hgap : IsGap gap) (hbehind : IsGap behind)
    (hargument : Text.trim argument ≠ []) (hrest : FieldClauses rest) :
    FieldClauses (gap ++ (word ++ (behind ++ (argument ++ rest))))

/-- The command that paints a field at a position. -/
def fieldCommand (row column : Int) (field behind : List Char) : List Char :=
  "@ ".toList ++ ((Decimal.intText row).toList ++ ',' :: ((Decimal.intText column).toList ++
    (" GET ".toList ++ (field ++ behind))))

/-- The picture of a field. -/
def pictureOf (clauses : Clauses) : Picture :=
  Picture.read (clauses.get? "PICTURE") (clauses.get? "FUNCTION")

/-- Whether the clauses behind a field leave it a textbox. -/
def AsksForTextbox (behind : List Char) : Prop :=
  let clauses := Clauses.parse paintKeywords behind
  fieldKind (pictureOf clauses) clauses = .textbox

/-- Whether a command adds one control, a textbox for the field. -/
def KeepsField (field : List Char) (before after : Canvas) : Prop :=
  ∃ t, after.controls = before.controls ++ [t] ∧ t.kind = .textbox ∧
    t.props.extra.get? ExtraKey.controlSource = some (.text (String.ofList field))

theorem capitals_paintKeywords : Capitals paintKeywords := by
  simp [Capitals, paintKeywords]

variable {row column : Int} {field behind : List Char}

/-- Row and column with a comma between them. -/
def position (row column : Int) : List Char :=
  (Decimal.intText row).toList ++ ',' :: (Decimal.intText column).toList

theorem isSolid_intText (n : Int) : IsSolid (Decimal.intText n).toList := by
  intro c hc
  rcases Decimal.of_mem_intText hc with hdigit | rfl
  · exact isSolid_of_isWordChar (by simp [Record.isWordChar, Char.isAlphanum, hdigit])
  · rfl

theorem isSolid_position (row column : Int) : IsSolid (position row column) :=
  List.forall_mem_append.mpr ⟨isSolid_intText row,
    List.forall_mem_cons.mpr ⟨rfl, isSolid_intText column⟩⟩

theorem words_field_append (hfield : IsIdentifier field) (hbehind : FieldClauses behind) :
    Text.words (field ++ behind) = field :: Text.words behind := by
  cases hbehind with
  | nil =>
    rw [List.append_nil, Text.words_solid hfield.isSolid hfield.ne_nil]
    rfl
  | cons _ _ hgap _ _ _ =>
    rw [Text.words_append_blanks hfield.isSolid.isLevel hgap.1 hgap.2,
      Text.words_solid hfield.isSolid hfield.ne_nil, Text.words_blanks_append hgap.2]
    rfl

/-- The first word behind a field begins a clause. -/
theorem FieldClauses.words_eq (h : FieldClauses behind) : Text.words behind = [] ∨
    ∃ w ws keyword, Text.words behind = w :: ws ∧
      paintKeywords.find? (isKeyword w) = some keyword := by
  cases h with
  | nil => exact .inl rfl
  | @cons keyword gap word behind argument rest hkeyword hword hgap hbehind _ _ =>
    have hmem : keyword ∈ paintKeywords := by
      revert keyword
      simp [paintKeywords]
    obtain ⟨hne, hletters⟩ := capitals_paintKeywords keyword hmem
    have hsolid := isSolid_of_isKeyword hletters hword
    obtain ⟨found, hfound⟩ := Option.isSome_iff_exists.mp
      (List.find?_isSome.mpr ⟨keyword, hmem, hword⟩)
    have hwords : Text.words (gap ++ (word ++ (behind ++ (argument ++ rest)))) =
        word :: Text.words (argument ++ rest) := by
      rw [Text.words_blanks_append hgap.2,
        Text.words_append_blanks hsolid.isLevel hbehind.1 hbehind.2,
        Text.words_solid hsolid (ne_nil_of_isKeyword hne hword)]
      rfl
    exact .inr ⟨word, _, found, hwords, hfound⟩

/-- A field that is no keyword is the argument of the command, and the clauses behind it are read
as they are without it. -/
theorem foldl_addNext_field (hbehind : FieldClauses behind)
    (hfind : paintKeywords.find? (isKeyword field) = none) (head : List Char) :
    (field :: Text.words behind).foldl (Clauses.addNext paintKeywords none) ⟨head, [⟨"GET", []⟩]⟩ =
      ⟨head, ⟨"GET", field⟩ :: (Clauses.parse paintKeywords behind).list⟩ := by
  have hfield : Clauses.addNext paintKeywords none ⟨head, [⟨"GET", []⟩]⟩ field =
      ⟨head, [⟨"GET", field⟩]⟩ := by
    simp [Clauses.addNext, Clauses.expectsItem, hfind, addWord]
  rw [List.foldl_cons, hfield, Clauses.parse, Clauses.parseWithList]
  rcases hbehind.words_eq with hwords | ⟨w, ws, keyword, hwords, hkeyword⟩
  · rw [hwords]
    rfl
  · rw [hwords, List.foldl_cons, List.foldl_cons, addNext_keyword rfl hkeyword,
      addNext_keyword rfl hkeyword]
    exact foldl_addNext_append head [] [⟨"GET", field⟩] ⟨keyword, []⟩ []

/-- A field that is a keyword begins a clause, so the command has no argument. -/
theorem foldl_addNext_keyword {keyword : String}
    (hfind : paintKeywords.find? (isKeyword field) = some keyword) (head : List Char) :
    ∃ list, (field :: Text.words behind).foldl (Clauses.addNext paintKeywords none)
      ⟨head, [⟨"GET", []⟩]⟩ = ⟨head, ⟨"GET", []⟩ :: list⟩ := by
  rw [List.foldl_cons, addNext_keyword rfl hfind]
  exact ⟨_, foldl_addNext_append head [] [⟨"GET", []⟩] ⟨keyword, []⟩ []⟩

/-- What is painted begins with the position, and the first clause is the field. The field itself is
still to be read there, together with what stands behind it. -/
theorem exists_paint_fieldCommand (hfield : IsIdentifier field) (hbehind : FieldClauses behind) :
    ∃ rest, Command.ofText? (fieldCommand row column field behind) = some (.paint rest) ∧
      Clauses.parse paintKeywords rest = (field :: Text.words behind).foldl
        (Clauses.addNext paintKeywords none) ⟨position row column, [⟨"GET", []⟩]⟩ := by
  have hblank : Text.isBlank ' ' = true := rfl
  have hgap : ∀ c ∈ [' '], Text.isBlank c = true := List.forall_mem_singleton.mpr hblank
  have hsplit : fieldCommand row column field behind = ['@'] ++ ' ' :: (position row column ++
      ([' '] ++ ("GET".toList ++ ([' '] ++ (field ++ behind))))) := by
    simp [fieldCommand, position]
  have hpart : Text.words (' ' :: (position row column ++
      ([' '] ++ ("GET".toList ++ ([' '] ++ (field ++ behind)))))) =
        position row column :: "GET".toList :: field :: Text.words behind := by
    have hkeyword : isKeyword "GET".toList "GET" = true := by decide +kernel
    have hget := isSolid_of_isKeyword (by simp) hkeyword
    rw [← List.singleton_append, Text.words_blanks_append hgap,
      Text.words_append_blanks (isSolid_position row column).isLevel (by simp) hgap,
      Text.words_append_blanks hget.isLevel (by simp) hgap, words_field_append hfield hbehind,
      Text.words_solid (isSolid_position row column) (by simp [position]),
      Text.words_solid hget (by simp)]
    rfl
  have hat : IsSolid ['@'] := List.forall_mem_singleton.mpr rfl
  have hwords : ∃ ws, Text.words (fieldCommand row column field behind) = ['@'] :: ws := by
    rw [hsplit, Text.words_append_blank hat.isLevel hblank, Text.words_solid hat (by simp)]
    exact ⟨_, rfl⟩
  obtain ⟨ws, hwords⟩ := hwords
  refine ⟨' ' :: (position row column ++ ([' '] ++ ("GET".toList ++ ([' '] ++ (field ++ behind))))),
    ?_, ?_⟩
  · rw [Command.ofText?, hwords, hsplit]
    rfl
  · have hnone : paintKeywords.find? (isKeyword (position row column)) = none :=
      find?_isKeyword_eq_none capitals_paintKeywords (by decide)
        (List.mem_append_right _ List.mem_cons_self)
    have hfind : paintKeywords.find? (isKeyword "GET".toList) = some "GET" := by decide +kernel
    have hhead : Clauses.addNext paintKeywords none {} (position row column) =
        ⟨position row column, []⟩ := by
      simp [Clauses.addNext, Clauses.expectsItem, hnone, addWord]
    rw [Clauses.parse, Clauses.parseWithList, hpart, List.foldl_cons, List.foldl_cons, hhead,
      addNext_keyword rfl hfind]
    rfl

theorem isSome_pair?_position (env : Surroundings) (row column : Int) :
    (env.pair? (position row column)).isSome ↔
      (env.eval? (Decimal.intText row).toList).isSome ∧
        (env.eval? (Decimal.intText column).toList).isSome := by
  have hcomma : ∀ n, ∀ c ∈ (Decimal.intText n).toList, (c == ',') = false := fun n c hc => by
    refine beq_false_of_ne ?_
    rintro rfl
    rcases Decimal.of_mem_intText hc with hdigit | hdash
    · cases hdigit
    · cases hdash
  have hsplit : Text.splitTopLevel ',' (position row column) =
      [(Decimal.intText row).toList, (Decimal.intText column).toList] := by
    rw [position, Text.splitTopLevel_append (isSolid_intText row).isLevel (by decide),
      Text.splitTopLevel, Text.splitTopLevel, Text.splitFrom_of_forall (hcomma row),
      Text.splitFrom_of_forall (hcomma column)]
    rfl
  rw [Surroundings.pair?, hsplit]
  rcases hrow : env.eval? (Decimal.intText row).toList with _ | x <;>
    rcases hcolumn : env.eval? (Decimal.intText column).toList with _ | y <;>
    simp [hrow, hcolumn]

/-! ## What is painted -/

section paint

variable {env : Surroundings} {clauses : Clauses} {c : Canvas} {x y : Float}

theorem kind_of_mem_paintGroup {kind : ControlKind} {horizontal : Bool}
    {size : Option (Float × Float)} {step : Int} {captions : List (List Char)} {d : Control}
    (h : d ∈ (paintGroup env kind horizontal size x y field step captions c).1) :
    d.kind = kind := by
  induction captions generalizing step c with
  | nil => cases h
  | cons raw captions ih =>
    rcases List.mem_cons.mp h with rfl | h
    · refine (finishes_applyCaption (Caption.read raw) _).kind.trans ?_
      cases horizontal <;> cases field <;> rfl
    · exact ih h

/-- The kind of the controls of a field. -/
def FieldKind.controlKind : FieldKind → ControlKind
  | .textbox => .textbox
  | .spinner => .spinner
  | .combobox => .combobox
  | .checkbox => .checkbox
  | .buttons => .button
  | .radios => .radio

theorem FieldKind.eq_textbox {kind : FieldKind} (h : kind.controlKind = .textbox) :
    kind = .textbox := by
  cases kind with
  | textbox => rfl
  | spinner | combobox | checkbox | buttons | radios => cases h

theorem kind_of_mem_paintField {picture : Picture} {kind : FieldKind} {d : Control}
    (h : d ∈ (paintField env clauses picture kind field x y c).1) : d.kind = kind.controlKind := by
  cases kind with
  | buttons => exact kind_of_mem_paintGroup h
  | radios => exact kind_of_mem_paintGroup h
  | checkbox =>
    obtain rfl := List.mem_singleton.mp h
    exact (finishes_applyCaption (Caption.read picture.payload) _).kind
  | combobox =>
    obtain rfl := List.mem_singleton.mp h
    cases clauses.get? "FROM" <;> rfl
  | spinner =>
    obtain rfl := List.mem_singleton.mp h
    exact (finishes_withBounds env clauses _).kind
  | textbox =>
    unfold paintField at h
    dsimp only at h
    split at h <;> obtain rfl := List.mem_singleton.mp h <;> rfl

theorem exists_paintField_textbox (env : Surroundings) (clauses : Clauses) (picture : Picture)
    (field : List Char) (x y : Float) (c : Canvas) : ∃ d,
    (paintField env clauses picture .textbox field x y c).1 = [d] ∧
      d.props.extra.get? ExtraKey.controlSource = none := by
  unfold paintField
  dsimp only
  split
  · exact ⟨_, rfl, SortedMap.get?_insert_of_ne _ _ (by decide)⟩
  · exact ⟨_, rfl, rfl⟩

/-- The control source of a control is its field, unless that is empty. -/
theorem get?_controlSource_finishField (d : Control) :
    (finishField env clauses field d).props.extra.get? ExtraKey.controlSource =
      if field.isEmpty then d.props.extra.get? ExtraKey.controlSource
      else some (.text (String.ofList field)) := by
  have hvalue : ∀ (value : List Char) (d : Control),
      (withExtra ExtraKey.value (Value.sniff (String.ofList value)) d).props.extra.get?
        ExtraKey.controlSource = d.props.extra.get? ExtraKey.controlSource :=
    fun value d => SortedMap.get?_insert_of_ne _ _ (by decide)
  have hsource : (withExtraText ExtraKey.controlSource field d).props.extra.get?
      ExtraKey.controlSource = some (.text (String.ofList field)) :=
    SortedMap.get?_insert_self _ _ _
  unfold finishField
  rcases hfield : field.isEmpty with _ | _ <;> rcases clauses.get? "DEFAULT" with _ | value
  · exact hsource
  · exact (hvalue value _).trans hsource
  · rfl
  · exact hvalue value d

theorem controls_paintGet : (paintGet env clauses x y c).controls = c.controls ++
    ((paintField env clauses (pictureOf clauses) (fieldKind (pictureOf clauses) clauses)
      (argumentOf clauses "GET") x y (Canvas.noteGuards env clauses c)).1.map
        (finishField env clauses (argumentOf clauses "GET"))) :=
  congrArg (· ++ _) ((Canvas.Quiet.foldl Canvas.quiet_bind _ _).keeps.controls.trans
    ((drawn_paintField env clauses x y _ _ _ _).controls_eq.trans Canvas.controls_noteGuards))

/-- A field is kept where it is the argument of the command and a textbox is asked for. -/
theorem keepsField_paintGet_iff (hfield : field ≠ []) :
    KeepsField field c (paintGet env clauses x y c) ↔
      fieldKind (pictureOf clauses) clauses = .textbox ∧ argumentOf clauses "GET" = field := by
  obtain ⟨d, hone, hnone⟩ := exists_paintField_textbox env clauses (pictureOf clauses)
    (argumentOf clauses "GET") x y (Canvas.noteGuards env clauses c)
  rw [KeepsField, controls_paintGet]
  constructor
  · rintro ⟨t, hcontrols, hkind, hsource⟩
    have hmade := List.append_cancel_left hcontrols
    have htextbox : fieldKind (pictureOf clauses) clauses = .textbox := by
      obtain ⟨e, he, rfl⟩ := List.mem_map.mp (hmade ▸ List.mem_singleton_self t)
      have hfinished := (finishes_finishField env clauses (argumentOf clauses "GET") e).kind
      exact FieldKind.eq_textbox
        ((kind_of_mem_paintField he).symm.trans (hfinished.symm.trans hkind))
    rw [htextbox, hone] at hmade
    obtain rfl := List.singleton_inj.mp hmade
    rw [get?_controlSource_finishField, hnone] at hsource
    refine ⟨htextbox, ?_⟩
    split at hsource
    · cases hsource
    · exact String.ofList_injective (Value.text.inj (Option.some.inj hsource))
  · rintro ⟨htextbox, hargument⟩
    rw [htextbox, hone]
    refine ⟨_, rfl, ?_, ?_⟩
    · rw [(finishes_finishField env clauses _ d).kind]
      exact kind_of_mem_paintField (hone ▸ List.mem_singleton_self d)
    · rw [get?_controlSource_finishField, hargument, if_neg (by simpa using hfield)]

end paint

/-! ## The field of a command -/

variable {env : Surroundings} {c : Canvas} {line : Nat}

/-- The clause in front has no part in what is asked for. -/
theorem fieldKind_cons_get (head argument : List Char) (list : List Clause) :
    fieldKind (pictureOf ⟨head, ⟨"GET", argument⟩ :: list⟩) ⟨head, ⟨"GET", argument⟩ :: list⟩ =
      fieldKind (pictureOf ⟨[], list⟩) ⟨[], list⟩ := by
  simp [fieldKind, pictureOf, Clauses.get?, Clauses.has]

theorem keepsField_paint_iff {rest : List Char} {argument : List Char} {list : List Clause}
    (hfield : field ≠ []) (hparse : Clauses.parse paintKeywords rest =
      ⟨position row column, ⟨"GET", argument⟩ :: list⟩) :
    KeepsField field c (paint env line rest c) ↔
      (env.pair? (position row column)).isSome ∧
        fieldKind (pictureOf ⟨[], list⟩) ⟨[], list⟩ = .textbox ∧ Text.trim argument = field := by
  rw [paint, hparse]
  dsimp only
  rcases env.pair? (position row column) with _ | ⟨x, y⟩
  · simp [KeepsField, Canvas.warn]
  · have hargument : argumentOf ⟨position row column, ⟨"GET", argument⟩ :: list⟩ "GET" =
        Text.trim argument := by
      simp [argumentOf, Clauses.get?]
    have hget := @keepsField_paintGet_iff field env
      ⟨position row column, ⟨"GET", argument⟩ :: list⟩ c x y hfield
    rw [fieldKind_cons_get, hargument] at hget
    simpa using hget

/-- A command keeps the field that it paints exactly where its position has a value, the field is
no keyword and nothing but a textbox is asked for. -/
theorem keepsField_carryOut_iff (hfield : IsIdentifier field) (hbehind : FieldClauses behind) :
    KeepsField field c (carryOut env c ⟨line, fieldCommand row column field behind⟩) ↔
      ((env.eval? (Decimal.intText row).toList).isSome ∧
        (env.eval? (Decimal.intText column).toList).isSome) ∧
      (∀ keyword ∈ paintKeywords, isKeyword field keyword = false) ∧ AsksForTextbox behind := by
  obtain ⟨rest, hcommand, hclauses⟩ := exists_paint_fieldCommand hfield hbehind
  have hpaint : carryOut env c ⟨line, fieldCommand row column field behind⟩ =
      paint env line rest c := by
    rw [carryOut, hcommand]
  have hkeywords : (∀ keyword ∈ paintKeywords, isKeyword field keyword = false) ↔
      paintKeywords.find? (isKeyword field) = none := by
    simp [List.find?_eq_none]
  rw [hpaint, hkeywords, ← isSome_pair?_position]
  rcases hfind : paintKeywords.find? (isKeyword field) with _ | keyword
  · rw [foldl_addNext_field hbehind hfind] at hclauses
    rw [keepsField_paint_iff hfield.ne_nil hclauses, Text.trim_of_forall hfield.isSolid.not_isBlank]
    simp only [and_true, true_and]
    rfl
  · obtain ⟨list, hlist⟩ := foldl_addNext_keyword hfind (position row column)
    rw [hlist] at hclauses
    rw [keepsField_paint_iff hfield.ne_nil hclauses, Text.trim_nil]
    simp [hfield.ne_nil.symm]

/-- Where no word behind the field asks for something else, a textbox is asked for. -/
theorem asksForTextbox_of_words (h : ∀ word ∈ Text.words behind,
    ∀ keyword ∈ ["SPINNER", "FROM", "PICTURE", "FUNCTION"], isKeyword word keyword = false) :
    AsksForTextbox behind := by
  have hother : ∀ clause ∈ (Clauses.parse paintKeywords behind).list,
      clause.keyword ∉ ["SPINNER", "FROM", "PICTURE", "FUNCTION"] := by
    intro clause hclause hkeyword
    rcases exists_word_of_mem_foldl hclause with hnil | ⟨word, hword, hspells⟩
    · cases hnil
    · rw [h word hword _ hkeyword] at hspells
      cases hspells
  have hget : ∀ keyword ∈ ["SPINNER", "FROM", "PICTURE", "FUNCTION"],
      (Clauses.parse paintKeywords behind).get? keyword = none ∧
        (Clauses.parse paintKeywords behind).has keyword = false := by
    intro keyword hkeyword
    have hne : ∀ clause ∈ (Clauses.parse paintKeywords behind).list, clause.keyword ≠ keyword :=
      fun clause hclause heq => hother clause hclause (heq ▸ hkeyword)
    refine ⟨?_, ?_⟩
    · rw [Clauses.get?, List.find?_eq_none.mpr (by simpa using hne)]
      rfl
    · rw [Clauses.has, List.any_eq_false]
      simpa using hne
  simp [AsksForTextbox, fieldKind, pictureOf, Picture.read, hget]

/-- A painted field is kept by all names but the keywords. -/
theorem keepsField_iff (hfield : IsIdentifier field) (hbehind : FieldClauses behind)
    (env : Surroundings) (c : Canvas) (line : Nat) (row column : Int) :
    (KeepsField field c (carryOut env c ⟨line, fieldCommand row column field behind⟩) ↔
      ((env.eval? (Decimal.intText row).toList).isSome ∧
        (env.eval? (Decimal.intText column).toList).isSome) ∧
      (∀ keyword ∈ paintKeywords, isKeyword field keyword = false) ∧ AsksForTextbox behind) ∧
    (∀ n : Int, n.natAbs < 2 ^ 53 → (env.eval? (Decimal.intText n).toList).isSome) ∧
    ((∀ word ∈ Text.words behind, ∀ keyword ∈ ["SPINNER", "FROM", "PICTURE", "FUNCTION"],
      isKeyword word keyword = false) → AsksForTextbox behind) :=
  ⟨keepsField_carryOut_iff hfield hbehind, fun _ hn => Expr.isSome_eval?_intText hn,
    asksForTextbox_of_words⟩

/-- A field with clauses for its size, its value and its validation. -/
theorem keepsField_amount :
    IsIdentifier "amount".toList ∧ FieldClauses " SIZE 1,10 DEFAULT 'a b' VALID f(1, 2)".toList ∧
      KeepsField "amount".toList (emptyCanvas {} "") (carryOut (surroundings {} "")
        (emptyCanvas {} "") ⟨1, fieldCommand 2 (-3) "amount".toList
          " SIZE 1,10 DEFAULT 'a b' VALID f(1, 2)".toList⟩) := by
  have hfield : IsIdentifier "amount".toList := by
    simp [IsIdentifier, Record.isNameStart, Record.isWordChar]
  have hbehind : FieldClauses " SIZE 1,10 DEFAULT 'a b' VALID f(1, 2)".toList := by
    have hspelled : ∀ keyword ∈ ["SIZE", "DEFAULT", "VALID"],
        isKeyword keyword.toList keyword = true := by decide +kernel
    have hgap : IsGap [' '] := ⟨by simp, List.forall_mem_singleton.mpr rfl⟩
    have hargument : ∀ argument ∈ ["1,10", "'a b'", "f(1, 2)"],
        Text.trim argument.toList ≠ [] := by decide +kernel
    simpa using .cons (by simp) (hspelled "SIZE" (by simp)) hgap hgap (hargument "1,10" (by simp))
      (.cons (by simp) (hspelled "DEFAULT" (by simp)) hgap hgap (hargument "'a b'" (by simp))
        (.cons (by simp) (hspelled "VALID" (by simp)) hgap hgap (hargument "f(1, 2)" (by simp))
          .nil))
  refine ⟨hfield, hbehind, ?_⟩
  obtain ⟨hkeeps, hnumber, htextbox⟩ :=
    keepsField_iff hfield hbehind (surroundings {} "") (emptyCanvas {} "") 1 2 (-3)
  exact hkeeps.mpr ⟨⟨hnumber 2 (by decide), hnumber (-3) (by decide)⟩, by decide +kernel,
    htextbox (by decide +kernel)⟩

/-- A field whose name is a keyword is lost. -/
theorem not_keepsField_size : IsIdentifier "size".toList ∧
    fieldCommand 1 1 "size".toList [] = "@ 1,1 GET size".toList ∧
      ¬∃ t, (build {} "@ 1,1 GET size").document.controls = [t] ∧ t.kind = .textbox ∧
        t.props.extra.get? ExtraKey.controlSource = some (.text "size") := by
  have hlost : (build {} "@ 1,1 GET size").document.controls.map (fun t =>
      t.props.extra.get? ExtraKey.controlSource) = [none] := by decide +kernel
  refine ⟨by simp [IsIdentifier, Record.isNameStart, Record.isWordChar], by decide +kernel, ?_⟩
  rintro ⟨t, hcontrols, -, hsource⟩
  rw [hcontrols, List.map_singleton, hsource] at hlost
  cases hlost

end Screen

end ScreenForms
