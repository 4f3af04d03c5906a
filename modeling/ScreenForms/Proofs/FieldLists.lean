import ScreenForms.Proofs.BoundCode
import ScreenForms.Proofs.ScreenWords
import ScreenForms.Proofs.Splitting

/-!
# Lists of browse fields

A browse command lists fields with commas between them. Blanks around the commas only decide how
the list falls into words: every word of it begins the list, follows a word that ends in a comma, or
begins with a comma itself (`IsLinked`). That is what tells items from keywords, so any names may
be listed. What is left of the list is a list of the same names, and its pieces between the commas
become the columns.
-/

namespace ScreenForms

namespace Text

variable {cs w : List Char} {ws : List (List Char)}

/-- One blank or more. -/
def IsGap (gap : List Char) : Prop := gap ≠ [] ∧ ∀ c ∈ gap, isBlank c = true

/-- What stands in front of the first word stands in front of all. -/
theorem unwords_append_cons (cs w : List Char) (ws : List (List Char)) :
    unwords ((cs ++ w) :: ws) = cs ++ unwords (w :: ws) := by
  cases ws <;> simp [unwords, joinWith]

theorem unwords_concat (hne : ws ≠ []) (w : List Char) :
    unwords (ws ++ [w]) = unwords ws ++ ' ' :: w := by
  induction ws with
  | nil => exact absurd rfl hne
  | cons v ws ih =>
    cases ws with
    | nil => exact unwords_cons_cons v w []
    | cons u ws =>
      rw [List.cons_append, List.cons_append, unwords_cons_cons, ← List.cons_append,
        ih (List.cons_ne_nil u ws), unwords_cons_cons, List.append_assoc, List.cons_append]

theorem getLast?_unwords_concat (ws : List (List Char)) (hne : w ≠ []) :
    (unwords (ws ++ [w])).getLast? = w.getLast? := by
  obtain ⟨front, hfront⟩ := exists_joinWith_concat [' '] ws w
  obtain ⟨v, c, rfl⟩ := (List.eq_nil_or_concat' w).resolve_left hne
  rw [unwords, hfront, ← List.append_assoc, List.getLast?_concat, List.getLast?_concat]

end Text

namespace Screen

open Record (isWordChar)
open Text (IsGap IsSolid)

variable {keywords : List String} {keyword : String} {ws : List (List Char)}

/-! ## Items of a list clause -/

/-- Words that are linked by a comma at the end of the first or the beginning of the second. -/
def IsLinked (v w : List Char) : Prop := v.getLast? = some ',' ∨ w.head? = some ','

theorem addNext_item {argument word : List Char} (head : List Char)
    (h : argument = [] ∨ argument.getLast? = some ',' ∨ keywords.find? (isKeyword word) = none) :
    Clauses.addNext keywords (some keyword) ⟨head, [⟨keyword, argument⟩]⟩ word =
      ⟨head, [⟨keyword, addWord argument word⟩]⟩ := by
  rcases h with h | h | h <;> simp [Clauses.addNext, Clauses.expectsItem, h]

theorem addNext_keyword {listKeyword : Option String} {c : Clauses} {word : List Char}
    {keyword : String} (hitem : c.expectsItem listKeyword = false)
    (hfind : keywords.find? (isKeyword word) = some keyword) :
    c.addNext keywords listKeyword word = { c with list := c.list ++ [⟨keyword, []⟩] } := by
  simp [Clauses.addNext, hitem, hfind]

/-- Linked words are all items of the list clause, whatever they spell. Of two linked words one has
a comma between them, and a word behind a comma is expected to be an item. -/
theorem foldl_addNext_items (hcapitals : Capitals keywords) (head : List Char)
    (hne : ∀ w ∈ ws, w ≠ []) (hlinked : ws.IsChain IsLinked) :
    ws.foldl (Clauses.addNext keywords (some keyword)) ⟨head, [⟨keyword, []⟩]⟩ =
      ⟨head, [⟨keyword, Text.unwords ws⟩]⟩ := by
  induction ws using List.reverseRecOn with
  | nil => rfl
  | append_singleton ws w ih =>
    obtain ⟨hws, -⟩ := List.forall_mem_append.mp hne
    obtain ⟨hchain, -, hlink⟩ := List.isChain_append.mp hlinked
    rw [List.foldl_append, ih hws hchain, List.foldl_cons, List.foldl_nil]
    rcases List.eq_nil_or_concat' ws with rfl | ⟨front, v, rfl⟩
    · exact addNext_item head (.inl rfl)
    · have hv : v ≠ [] := hws v (by simp)
      have hjoined : Text.unwords (front ++ [v]) ≠ [] := fun hnil => by
        have hlast := Text.getLast?_unwords_concat front hv
        rw [hnil] at hlast
        exact hv (List.getLast?_eq_none_iff.mp hlast.symm)
      have hadded : addWord (Text.unwords (front ++ [v])) w =
          Text.unwords (front ++ [v] ++ [w]) := by
        have hne' : front ++ [v] ≠ [] := by simp
        rw [addWord, if_neg (by simpa using hjoined), Text.unwords_concat hne']
      rw [← hadded]
      refine addNext_item head ?_
      rcases hlink v (by simp) w (by simp) with hcomma | hcomma
      · exact .inr (.inl ((Text.getLast?_unwords_concat front hv).trans hcomma))
      · exact .inr (.inr (find?_isKeyword_eq_none hcapitals (by decide)
          (List.mem_of_mem_head? hcomma)))

/-! ## Field lists -/

/-- Names with commas between them, and with blanks around the commas. -/
inductive IsFieldList : List (List Char) → List Char → Prop
  | one {name : List Char} (hname : IsIdentifier name) : IsFieldList [name] name
  | cons {name before behind text : List Char} {names : List (List Char)}
    (hname : IsIdentifier name) (hbefore : ∀ c ∈ before, Text.isBlank c = true)
    (hbehind : ∀ c ∈ behind, Text.isBlank c = true) (rest : IsFieldList names text) :
    IsFieldList (name :: names) (name ++ (before ++ ',' :: (behind ++ text)))

variable {names : List (List Char)} {text : List Char}

theorem IsFieldList.not_isMark (h : IsFieldList names text) :
    ∀ c ∈ text, Text.isMark c = false := by
  induction h with
  | one hname => exact hname.isSolid.not_isMark
  | cons hname hbefore hbehind _ ih =>
    simp only [List.forall_mem_append, List.forall_mem_cons]
    exact ⟨hname.isSolid.not_isMark, Text.not_isMark_of_blanks hbefore, by decide,
      Text.not_isMark_of_blanks hbehind, ih⟩

/-- A field list begins with a name. -/
theorem IsFieldList.exists_cons (h : IsFieldList names text) :
    ∃ c cs, text = c :: cs ∧ Text.isBlank c = false := by
  have hname : ∀ {name : List Char}, IsIdentifier name → ∀ rest : List Char,
      ∃ c cs, name ++ rest = c :: cs ∧ Text.isBlank c = false := by
    intro name hname rest
    obtain ⟨c, cs, rfl⟩ := List.exists_cons_of_ne_nil hname.ne_nil
    exact ⟨c, cs ++ rest, rfl, hname.isSolid.not_isBlank c List.mem_cons_self⟩
  cases h with
  | one h => simpa using hname h []
  | cons h _ _ _ => exact hname h _

/-- A field list ends with a name. -/
theorem IsFieldList.getLast?_ne (h : IsFieldList names text) : text.getLast? ≠ some ',' := by
  induction h with
  | one hname =>
    intro hlast
    have := hname.isWordChar _ (List.mem_of_getLast? hlast)
    revert this
    decide
  | @cons name before behind text names hname hbefore hbehind rest ih =>
    obtain ⟨c, cs, rfl, -⟩ := rest.exists_cons
    have hsplit : name ++ (before ++ ',' :: (behind ++ c :: cs)) =
      (name ++ (before ++ ',' :: behind)) ++ c :: cs := by simp
    rw [hsplit, List.getLast?_append_of_ne_nil _ (List.cons_ne_nil c cs)]
    exact ih

/-! ## The words of a field list -/

/-- The words of a solid text, of blanks and of what follows them: with blanks the text is a word of
its own, without blanks it belongs to the first word of what follows. -/
theorem exists_words_append {cs gap : List Char} (hcs : IsSolid cs) (hne : cs ≠ [])
    (hgap : ∀ c ∈ gap, Text.isBlank c = true) {c : Char} {ds : List Char}
    (hc : Text.isBlank c = false) {w : List Char} (hw : w ≠ [])
    (hwords : Text.words (c :: ds) = w :: ws) (hchain : (w :: ws).IsChain IsLinked)
    (hlink : IsLinked cs w) :
    ∃ v vs blanks, Text.words (cs ++ (gap ++ c :: ds)) = v :: vs ∧ v.head? = cs.head? ∧
      Text.unwords (v :: vs) = cs ++ (blanks ++ Text.unwords (w :: ws)) ∧
      (∀ b ∈ blanks, Text.isBlank b = true) ∧ (v :: vs).IsChain IsLinked := by
  rcases List.eq_nil_or_concat' gap with rfl | ⟨_, _, rfl⟩
  · refine ⟨cs ++ w, ws, [], Text.words_solid_append hcs hc hwords, ?_,
      Text.unwords_append_cons cs w ws, by simp, ?_⟩
    · rw [List.head?_append_of_ne_nil _ hne]
    · rw [List.isChain_cons] at hchain ⊢
      refine ⟨fun v hv => ?_, hchain.2⟩
      rw [IsLinked, List.getLast?_append_of_ne_nil _ hw]
      exact hchain.1 v hv
  · refine ⟨cs, w :: ws, [' '], ?_, rfl, Text.unwords_cons_cons cs w ws,
      List.forall_mem_singleton.mpr rfl, ?_⟩
    · rw [Text.words_append_blanks hcs.isLevel (by simp) hgap, Text.words_solid hcs hne, hwords]
      rfl
    · exact List.isChain_cons_cons.mpr ⟨hlink, hchain⟩

theorem IsFieldList.exists_words (h : IsFieldList names text) :
    ∃ w ws, Text.words text = w :: ws ∧ IsFieldList names (Text.unwords (w :: ws)) ∧
      (w :: ws).IsChain IsLinked := by
  induction h with
  | @one name hname =>
    exact ⟨name, [], Text.words_solid hname.isSolid hname.ne_nil, .one hname, .singleton name⟩
  | @cons name before behind text names hname hbefore hbehind rest ih =>
    obtain ⟨w, ws, hwords, hlist, hchain⟩ := ih
    obtain ⟨c, cs, rfl, hc⟩ := rest.exists_cons
    have hw : w ≠ [] := (Text.isSolid_of_mem_words rest.not_isMark (by simp [hwords])).2
    have hsolid : IsSolid [','] := List.forall_mem_singleton.mpr rfl
    obtain ⟨v, vs, blanks, hcomma, hhead, hjoined, hblanks, hchain'⟩ :=
      exists_words_append hsolid (List.cons_ne_nil _ _) hbehind hc hw hwords hchain (.inl rfl)
    have hv : v ≠ [] := by
      rintro rfl
      cases hhead
    obtain ⟨u, us, blanks', hname', -, hjoined', hblanks', hchain''⟩ :=
      exists_words_append hname.isSolid hname.ne_nil hbefore (by decide) hv hcomma hchain'
        (.inr hhead)
    refine ⟨u, us, hname', ?_, hchain''⟩
    rw [hjoined', hjoined, List.singleton_append]
    exact .cons hname hblanks' hblanks hlist

/-! ## Columns -/

/-- The column of a field that is listed by its name alone. -/
def nameColumn (readOnly : Bool) (name : List Char) : GridColumn :=
  ⟨String.ofList name, String.ofList name, none, readOnly⟩

theorem browseColumn?_of_trim (cells : CellMetrics) (readOnly : Bool) {spec name : List Char}
    (hname : IsIdentifier name) (hspec : Text.trim spec = name) :
    browseColumn? cells readOnly spec = some (nameColumn readOnly name) := by
  have hcolon : ∀ c ∈ name, (c == ':') = false := fun c hc =>
    beq_false_of_ne (ne_of_isWordChar (hname.isWordChar c hc) (by decide))
  unfold browseColumn?
  rw [hspec, Text.splitTopLevel, Text.splitFrom_of_forall hcolon]
  simp [Text.blankWords_of_forall hname.ne_nil hname.isSolid.not_isBlank, nameColumn]

/-- The pieces of a field list become the columns. The induction is on the list, with the blanks
behind the last comma in `lead`. -/
theorem IsFieldList.columns (h : IsFieldList names text) (cells : CellMetrics) (readOnly : Bool)
    {lead : List Char} (hlead : ∀ c ∈ lead, Text.isBlank c = true) :
    (Text.splitTopLevel ',' (lead ++ text)).filterMap (browseColumn? cells readOnly) =
      names.map (nameColumn readOnly) := by
  have hcomma : ∀ {name : List Char}, IsIdentifier name → ∀ c ∈ name, (c == ',') = false :=
    fun hname c hc => beq_false_of_ne (ne_of_isWordChar (hname.isWordChar c hc) (by decide))
  have hblank : ∀ {cs : List Char}, (∀ c ∈ cs, Text.isBlank c = true) → ∀ c ∈ cs,
      (c == ',') = false := fun hcs c hc => by
    refine beq_false_of_ne ?_
    rintro rfl
    cases hcs _ hc
  induction h generalizing lead with
  | @one name hname =>
    have hpiece : Text.splitTopLevel ',' (lead ++ name) = [lead ++ name] :=
      Text.splitFrom_of_forall
        (List.forall_mem_append.mpr ⟨hblank hlead, hcomma hname⟩)
    have hcolumn := browseColumn?_of_trim cells readOnly hname
      ((Text.trim_blanks_append hlead name).trans (Text.trim_of_forall hname.isSolid.not_isBlank))
    rw [hpiece, List.filterMap_cons_some hcolumn]
    rfl
  | @cons name before behind text names hname hbefore hbehind rest ih =>
    have hpiece : Text.splitTopLevel ',' (lead ++ (name ++ before)) = [lead ++ (name ++ before)] :=
      Text.splitFrom_of_forall (List.forall_mem_append.mpr
        ⟨hblank hlead, List.forall_mem_append.mpr ⟨hcomma hname, hblank hbefore⟩⟩)
    have hlevel : Text.IsLevel (lead ++ (name ++ before)) := Text.isLevel_of_not_isMark
      (List.forall_mem_append.mpr ⟨Text.not_isMark_of_blanks hlead, List.forall_mem_append.mpr
        ⟨hname.isSolid.not_isMark, Text.not_isMark_of_blanks hbefore⟩⟩)
    have hcolumn := browseColumn?_of_trim cells readOnly hname
      ((Text.trim_blanks_append hlead _).trans
        ((Text.trim_append_blanks name hbefore).trans
          (Text.trim_of_forall hname.isSolid.not_isBlank)))
    have hsplit : lead ++ (name ++ (before ++ ',' :: (behind ++ text))) =
        (lead ++ (name ++ before)) ++ ',' :: (behind ++ text) := by simp
    rw [hsplit, Text.splitTopLevel_append hlevel (by decide), hpiece, List.filterMap_append,
      List.filterMap_cons_some hcolumn, ih hbehind]
    rfl

/-! ## Browse commands -/

/-- A browse command that lists fields by their names, and whether it forbids to change them. -/
inductive BrowsesFields (names : List (List Char)) : Bool → List Char → Prop
  | edit {browse fields list gap behind : List Char} (hbrowse : isKeyword browse "BROWSE" = true)
    (hfields : isKeyword fields "FIELDS" = true) (hgap : IsGap gap) (hbehind : IsGap behind)
    (hlist : IsFieldList names list) :
    BrowsesFields names false (browse ++ (gap ++ (fields ++ (behind ++ list))))
  | noEdit {text gap noEdit : List Char} (h : BrowsesFields names false text) (hgap : IsGap gap)
    (hnoEdit : isKeyword noEdit "NOEDIT" = true) :
    BrowsesFields names true (text ++ (gap ++ noEdit))

theorem capitals_browseKeywords : Capitals browseKeywords := by
  simp [Capitals, browseKeywords]

variable {noEdit : Bool}

/-- A browse command consists of the word itself and the clauses. The list of fields is one clause
even where a field has the name of a keyword. -/
theorem BrowsesFields.exists_clauses (h : BrowsesFields names noEdit text) :
    (∀ c ∈ text, Text.isMark c = false) ∧ ∃ browse rest, Text.words text = browse :: rest ∧
      isKeyword browse "BROWSE" = true ∧ ∃ list, IsFieldList names list ∧
        rest.foldl (Clauses.addNext browseKeywords (some "FIELDS")) {} =
          ⟨[], ⟨"FIELDS", list⟩ :: if noEdit then [⟨"NOEDIT", []⟩] else []⟩ := by
  induction h with
  | @edit browse fields list gap behind hbrowse hfields hgap hbehind hlist =>
    have hsolid := isSolid_of_isKeyword (by simp) hbrowse
    have hsolid' := isSolid_of_isKeyword (by simp) hfields
    obtain ⟨w, ws, hwords, hjoined, hchain⟩ := hlist.exists_words
    have hne : ∀ v ∈ w :: ws, v ≠ [] := fun v hv =>
      (Text.isSolid_of_mem_words hlist.not_isMark (hwords ▸ hv)).2
    refine ⟨?_, browse, fields :: w :: ws, ?_, hbrowse, Text.unwords (w :: ws), hjoined, ?_⟩
    · simp only [List.forall_mem_append]
      exact ⟨hsolid.not_isMark, Text.not_isMark_of_blanks hgap.2, hsolid'.not_isMark,
        Text.not_isMark_of_blanks hbehind.2, hlist.not_isMark⟩
    · rw [Text.words_append_blanks hsolid.isLevel hgap.1 hgap.2,
        Text.words_append_blanks hsolid'.isLevel hbehind.1 hbehind.2, hwords,
        Text.words_solid hsolid (ne_nil_of_isKeyword (by simp) hbrowse),
        Text.words_solid hsolid' (ne_nil_of_isKeyword (by simp) hfields)]
      rfl
    · have hfind : browseKeywords.find? (isKeyword fields) = some "FIELDS" :=
        List.find?_cons_of_pos hfields
      rw [List.foldl_cons, addNext_keyword rfl hfind]
      exact foldl_addNext_items capitals_browseKeywords [] hne hchain
  | @noEdit text gap noEdit h hgap hnoEdit ih =>
    obtain ⟨hmarks, browse, rest, hwords, hbrowse, list, hlist, hclauses⟩ := ih
    have hsolid := isSolid_of_isKeyword (by simp) hnoEdit
    refine ⟨?_, browse, rest ++ [noEdit], ?_, hbrowse, list, hlist, ?_⟩
    · simp only [List.forall_mem_append]
      exact ⟨hmarks, Text.not_isMark_of_blanks hgap.2, hsolid.not_isMark⟩
    · rw [Text.words_append_blanks (Text.isLevel_of_not_isMark hmarks) hgap.1 hgap.2, hwords,
        Text.words_solid hsolid (ne_nil_of_isKeyword (by simp) hnoEdit)]
      rfl
    · -- the list is complete, so the word behind it is a keyword again
      have hitem : (⟨[], [⟨"FIELDS", list⟩]⟩ : Clauses).expectsItem (some "FIELDS") = false := by
        obtain ⟨c, cs, rfl, -⟩ := hlist.exists_cons
        simp [Clauses.expectsItem, hlist.getLast?_ne]
      have hfields : isKeyword noEdit "FIELDS" = false :=
        isKeyword_eq_false_of_disjoint (by decide +kernel) hnoEdit
      have hfind : browseKeywords.find? (isKeyword noEdit) = some "NOEDIT" := by
        rw [browseKeywords, List.find?_cons_of_neg (by simp [hfields]),
          List.find?_cons_of_pos hnoEdit]
      rw [List.foldl_append, hclauses, List.foldl_cons, List.foldl_nil]
      exact addNext_keyword hitem hfind

/-- The word that browses begins no other command. -/
theorem ofText?_browse {browse : List Char} {rest : List (List Char)}
    (hwords : Text.words text = browse :: rest) (hbrowse : isKeyword browse "BROWSE" = true) :
    Command.ofText? text = some (.browse (Text.unwords rest)) := by
  have hdefine : isKeyword browse "DEFINE" = false :=
    isKeyword_eq_false_of_disjoint (by decide +kernel) hbrowse
  have hactivate : isKeyword browse "ACTIVATE" = false :=
    isKeyword_eq_false_of_disjoint (by decide +kernel) hbrowse
  have hat : browse.head? ≠ some '@' := fun hhead => by
    have hletter := isAlpha_of_isKeyword (by simp) hbrowse '@' (List.mem_of_mem_head? hhead)
    revert hletter
    decide
  simp [Command.ofText?, hwords, hdefine, hactivate, hbrowse, hat]

/-- A browse command adds one grid with the columns of its clauses. -/
theorem exists_grid_browse (env : Surroundings) (rest : List Char) (c : Canvas) :
    ∃ grid : Control, (browse env rest c).controls = c.controls ++ [grid] ∧ grid.kind = .grid ∧
      grid.props.columns = browseColumns env.cells
        (Clauses.parseWithList browseKeywords (some "FIELDS") rest) := by
  unfold browse
  dsimp only
  split <;> exact ⟨_, rfl, rfl, rfl⟩

theorem BrowsesFields.exists_grid (h : BrowsesFields names noEdit text) (env : Surroundings)
    (c : Canvas) (line : Nat) : carryOut env c ⟨line, text⟩ = carryOutNested env c ⟨line, text⟩ ∧
      ∃ grid : Control, (carryOut env c ⟨line, text⟩).controls = c.controls ++ [grid] ∧
        grid.kind = .grid ∧ grid.props.columns = names.map (nameColumn noEdit) := by
  obtain ⟨hmarks, browse, rest, hwords, hbrowse, list, hlist, hclauses⟩ := h.exists_clauses
  have hcommand := ofText?_browse hwords hbrowse
  have hnested : carryOut env c ⟨line, text⟩ = carryOutNested env c ⟨line, text⟩ := by
    simp [carryOut, hcommand]
  have hread : Text.words (Text.unwords rest) = rest := Text.words_unwords fun w hw =>
    Text.isSolid_of_mem_words hmarks (hwords ▸ List.mem_cons_of_mem browse hw)
  obtain ⟨grid, hcontrols, hkind, hcolumns⟩ := exists_grid_browse env (Text.unwords rest) c
  refine ⟨hnested, grid, ?_, hkind, ?_⟩
  · rw [hnested, carryOutNested, hcommand]
    exact hcontrols
  · have hreadOnly : Clauses.has ⟨[], ⟨"FIELDS", list⟩ :: if noEdit then [⟨"NOEDIT", []⟩] else []⟩
        "NOEDIT" = noEdit := by
      cases noEdit <;> simp [Clauses.has]
    rw [hcolumns, Clauses.parseWithList, hread, hclauses, browseColumns, hreadOnly]
    exact hlist.columns env.cells noEdit (by simp : ∀ c ∈ [], Text.isBlank c = true)

/-- What the first statements of the main body add is still there at the end. -/
theorem controls_foldl_carryOut_subset {config : Config} {source : String}
    {front behind : List Statement}
    (hbody : statements (Program.read source).body = front ++ behind) :
    (front.foldl (carryOut (surroundings config source))
      (emptyCanvas config.cells source)).controls ⊆ (build config source).document.controls := by
  rw [controls_build, painted, hbody, List.foldl_append]
  have hsteps := Canvas.Steps.foldl (steps_carryOut (surroundings config source)) behind
    (front.foldl (carryOut (surroundings config source)) (emptyCanvas config.cells source))
  exact List.IsPrefix.subset hsteps.controls_prefix

/-- Every run of a browse command that lists fields adds one grid, with these fields as its columns
in order. They may not be changed exactly where the command forbids it. -/
theorem columns_browseFields (h : BrowsesFields names noEdit text) :
    (∀ env c line, carryOut env c ⟨line, text⟩ = carryOutNested env c ⟨line, text⟩ ∧
      ∃ grid, (carryOut env c ⟨line, text⟩).controls = c.controls ++ [grid] ∧
        grid.kind = .grid ∧ grid.props.columns = names.map fun name =>
          ⟨String.ofList name, String.ofList name, none, noEdit⟩) ∧
    ∀ config source, text ∈ (statements (Program.read source).body).map Statement.text →
      ∃ grid ∈ (build config source).document.controls, grid.kind = .grid ∧
        grid.props.columns = names.map fun name =>
          ⟨String.ofList name, String.ofList name, none, noEdit⟩ := by
  refine ⟨h.exists_grid, fun config source hmem => ?_⟩
  obtain ⟨s, hs, rfl⟩ := List.mem_map.mp hmem
  obtain ⟨before, behind, hbody⟩ := List.append_of_mem hs
  obtain ⟨-, grid, hcontrols, hkind, hcolumns⟩ := h.exists_grid (surroundings config source)
    (before.foldl (carryOut (surroundings config source)) (emptyCanvas config.cells source)) s.line
  have hbody' : statements (Program.read source).body = (before ++ [s]) ++ behind := by simp [hbody]
  refine ⟨grid, controls_foldl_carryOut_subset hbody' ?_, hkind, hcolumns⟩
  rw [List.foldl_append, List.foldl_cons, List.foldl_nil, hcontrols]
  exact List.mem_append_right _ List.mem_cons_self

/-- Fields whose names are keywords of the command. -/
theorem columns_browseFields_keywords :
    BrowsesFields ["FORM".toList, "key".toList, "WIDTH".toList, "noedit".toList] true
        "BROWSE FIELDS FORM , key,WIDTH ,noedit NOEDIT".toList ∧
      ∃ grid ∈ (build {} "BROWSE FIELDS FORM , key,WIDTH ,noedit NOEDIT").document.controls,
        grid.kind = .grid ∧ grid.props.columns =
          ["FORM", "key", "WIDTH", "noedit"].map fun name => ⟨name, name, none, true⟩ := by
  have hname : ∀ name ∈ ["FORM", "key", "WIDTH", "noedit"], IsIdentifier name.toList := by
    simp [IsIdentifier, Record.isNameStart, isWordChar]
  have hblank : ∀ c ∈ [' '], Text.isBlank c = true := by simp [Text.isBlank]
  have hnone : ∀ c ∈ ([] : List Char), Text.isBlank c = true := by simp
  have hgap : IsGap [' '] := ⟨by simp, hblank⟩
  have hlist : IsFieldList ["FORM".toList, "key".toList, "WIDTH".toList, "noedit".toList]
      "FORM , key,WIDTH ,noedit".toList := by
    simpa using .cons (hname "FORM" (by simp)) hblank hblank (.cons (hname "key" (by simp)) hnone
      hnone (.cons (hname "WIDTH" (by simp)) hblank hnone (.one (hname "noedit" (by simp)))))
  have hbrowses : BrowsesFields ["FORM".toList, "key".toList, "WIDTH".toList, "noedit".toList] true
      "BROWSE FIELDS FORM , key,WIDTH ,noedit NOEDIT".toList := by
    have hbrowse : isKeyword "BROWSE".toList "BROWSE" = true := by decide +kernel
    have hfields : isKeyword "FIELDS".toList "FIELDS" = true := by decide +kernel
    have hnoEdit : isKeyword "NOEDIT".toList "NOEDIT" = true := by decide +kernel
    simpa using BrowsesFields.noEdit (.edit hbrowse hfields hgap hgap hlist) hgap hnoEdit
  refine ⟨hbrowses, ?_⟩
  obtain ⟨grid, hgrid, hkind, hcolumns⟩ := (columns_browseFields hbrowses).2 {}
    "BROWSE FIELDS FORM , key,WIDTH ,noedit NOEDIT" (by decide +kernel)
  exact ⟨grid, hgrid, hkind, by simpa using hcolumns⟩

end Screen

end ScreenForms
