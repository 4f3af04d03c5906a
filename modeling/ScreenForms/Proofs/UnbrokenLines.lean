import ScreenForms.Proofs.LineBreaks
import ScreenForms.Screen.Program

/-!
# Lines and statements of screen programs

A screen program is cut into lines first, and whatever is read later is read from these lines. So
there are no line feeds in the names and sources of its procedures, in its statements, even where
several lines make one statement, or in the arguments of their clauses.
-/

namespace ScreenForms

namespace Text

variable {c : Char} {cs : List Char}

/-! ## Characters of the parts of a text -/

theorem mem_of_mem_dropRemark (h : c ∈ dropRemark cs) : c ∈ cs :=
  (dropRemark_isPrefix cs).subset h

theorem mem_of_mem_splitFrom {p : Char → Bool} {d : Depth} {piece : List Char}
    (hpiece : piece ∈ splitFrom p d cs) (h : c ∈ piece) : c ∈ cs := by
  induction cs generalizing d piece with
  | nil =>
    obtain rfl := List.mem_singleton.mp hpiece
    exact h
  | cons e cs ih =>
    rw [splitFrom] at hpiece
    split at hpiece
    · rcases List.mem_cons.mp hpiece with rfl | hpiece
      · cases h
      · exact List.mem_cons_of_mem _ (ih hpiece h)
    · split at hpiece
      · next hnil => exact absurd hnil (splitFrom_ne_nil p _ cs)
      · next first rest hsplit =>
        rcases List.mem_cons.mp hpiece with rfl | hpiece
        · rcases List.mem_cons.mp h with rfl | h
          · exact List.mem_cons_self
          · exact List.mem_cons_of_mem _ (ih (hsplit ▸ List.mem_cons_self) h)
        · exact List.mem_cons_of_mem _ (ih (hsplit ▸ List.mem_cons_of_mem _ hpiece) h)

theorem mem_of_mem_words {word : List Char} (hword : word ∈ words cs) (h : c ∈ word) : c ∈ cs :=
  mem_of_mem_splitFrom (List.mem_of_mem_filter hword) h

theorem newline_not_mem_unwords {ws : List (List Char)} (h : ∀ w ∈ ws, '\n' ∉ w) :
    '\n' ∉ unwords ws :=
  not_mem_joinWith (by decide) h

end Text

namespace Screen

/-! ## Statements -/

/-- No line of a list has a line feed. -/
def Unbroken (lines : List Record.NumberedLine) : Prop := ∀ l ∈ lines, '\n' ∉ l.1

theorem newline_not_mem_bareLine {line : List Char} (h : '\n' ∉ line) : '\n' ∉ bareLine line :=
  fun hmem => h (Text.mem_of_mem_dropRemark (Text.mem_of_mem_trim hmem))

theorem newline_not_mem_continuation {bare : List Char} (h : '\n' ∉ bare) :
    '\n' ∉ (continuation bare).1 := by
  unfold continuation
  split
  · next head hhead =>
    obtain ⟨rest, hrest, rfl⟩ := Option.map_eq_some_iff.mp hhead
    have hbare := Text.eq_append_of_dropLead? hrest
    intro hmem
    have hrev := List.mem_reverse.mp ((List.rdropWhile_prefix Text.isBlank _).subset hmem)
    exact h (List.mem_reverse.mp (hbare ▸ List.mem_append_right _ hrev))
  · exact h

theorem newline_not_mem_emit {s t : Statement} (h : '\n' ∉ s.text) (ht : t ∈ emit s) :
    '\n' ∉ t.text := by
  unfold emit at ht
  split at ht
  · cases ht
  · obtain rfl := List.mem_singleton.mp ht
    exact h

/-- Statements are made of lines without line feeds, with blanks between them. A continued line is
joined to the next one by a single space. -/
theorem newline_not_mem_of_mem_statements {lines : List Record.NumberedLine}
    (h : Unbroken lines) {s : Statement} (hs : s ∈ statements lines) : '\n' ∉ s.text := by
  have hfrom : ∀ (lines : List Record.NumberedLine) (open? : Option Statement), Unbroken lines →
      (∀ o ∈ open?, '\n' ∉ o.text) → ∀ s ∈ statementsFrom open? lines, '\n' ∉ s.text := by
    -- the statement that is open changes from line to line
    intro lines
    induction lines with
    | nil =>
      intro open? _ hopen s hs
      cases open? with
      | none => cases hs
      | some o => exact newline_not_mem_emit (hopen o rfl) hs
    | cons line rest ih =>
      intro open? hlines hopen s hs
      obtain ⟨hline, hrest⟩ := List.forall_mem_cons.mp hlines
      have hpart := newline_not_mem_continuation (newline_not_mem_bareLine hline)
      cases open? with
      | none =>
        simp only [statementsFrom] at hs
        split at hs
        · exact ih none hrest nofun s hs
        · split at hs
          · refine ih _ hrest ?_ s hs
            rintro o ⟨⟩
            exact hpart
          · rcases List.mem_append.mp hs with hs | hs
            · exact newline_not_mem_emit hpart hs
            · exact ih none hrest nofun s hs
      | some o =>
        have hjoined : '\n' ∉ o.text ++ ' ' :: (continuation (bareLine line.1)).1 := by
          rw [List.mem_append, not_or]
          exact ⟨hopen o rfl, List.not_mem_cons_of_ne_of_not_mem (by decide) hpart⟩
        simp only [statementsFrom] at hs
        split at hs
        · refine ih _ hrest ?_ s hs
          rintro o ⟨⟩
          exact hjoined
        · rcases List.mem_append.mp hs with hs | hs
          · exact newline_not_mem_emit hjoined hs
          · exact ih none hrest nofun s hs
  exact hfrom lines none h nofun s hs

/-! ## Procedures -/

/-- Neither the name nor the source of a procedure has a line feed. -/
structure Procedure.IsUnbroken (p : Procedure) : Prop where
  name : '\n' ∉ p.name.toList
  source : Unbroken p.source

theorem unbroken_programLines (text : String) : Unbroken (programLines text) := by
  intro l hl hmem
  obtain ⟨line, hline, rfl⟩ := List.mem_map.mp hl
  have hcut : line.1 ∈ Text.lines text.toList := (List.mem_zipIdx hline).2.2 ▸ List.getElem_mem _
  exact Text.newline_not_mem_of_mem_lines hcut ((List.rdropWhile_prefix _ _).subset hmem)

theorem isWordChar_of_readHeader? {line name : List Char} (h : readHeader? line = some name) :
    ∀ c ∈ name, Record.isWordChar c = true := by
  unfold readHeader? at h
  dsimp only at h
  split at h
  · cases h
  · split at h
    · next hstart =>
      obtain rfl := Option.some.inj h
      refine List.forall_mem_cons.mpr ⟨?_, fun c hc => List.mem_takeWhile_imp hc⟩
      simp only [Bool.and_eq_true, Record.isNameStart, Bool.or_eq_true] at hstart
      simp only [Record.isWordChar, Char.isAlphanum, Bool.or_eq_true]
      tauto
    · cases h

theorem readHeader?_of_lineKind {line name : List Char} (h : lineKind line = .header name) :
    readHeader? line = some name := by
  unfold lineKind at h
  split at h
  · next hname =>
    obtain rfl := LineKind.header.inj h
    exact hname
  · split at h <;> cases h

/-- The names of procedures are made of letters, digits and underscores. -/
theorem isWordChar_of_mem_divide {lines : List Record.NumberedLine} {p : Procedure}
    (hp : p ∈ (divide lines).2.procedures) : ∀ c ∈ p.name.toList, Record.isWordChar c = true := by
  induction lines with
  | nil => exact absurd hp List.not_mem_nil
  | cons line rest ih =>
    simp only [divide] at hp
    split at hp
    · next name hkind =>
      rcases List.mem_cons.mp hp with rfl | hp
      · rw [String.toList_ofList]
        exact isWordChar_of_readHeader? (readHeader?_of_lineKind hkind)
      · exact ih hp
    · exact ih hp
    · exact ih hp

/-- Dividing a program into its parts breaks no line. -/
theorem unbroken_divide {lines : List Record.NumberedLine} (h : Unbroken lines) :
    Unbroken (divide lines).1 ∧ Unbroken (divide lines).2.body ∧
      ∀ p ∈ (divide lines).2.procedures, Unbroken p.source := by
  induction lines with
  | nil => exact ⟨List.forall_mem_nil _, List.forall_mem_nil _, List.forall_mem_nil _⟩
  | cons line rest ih =>
    obtain ⟨hline, hrest⟩ := List.forall_mem_cons.mp h
    obtain ⟨hown, hbody, hprocedures⟩ := ih hrest
    simp only [divide]
    split
    · exact ⟨List.forall_mem_nil _, hbody, List.forall_mem_cons.mpr ⟨hown, hprocedures⟩⟩
    · exact ⟨List.forall_mem_nil _, List.forall_mem_append.mpr ⟨hown, hbody⟩, hprocedures⟩
    · exact ⟨List.forall_mem_cons.mpr ⟨hline, hown⟩, hbody, hprocedures⟩

/-- The main body of a program has no line with a line feed. -/
theorem unbroken_body (text : String) : Unbroken (Program.read text).body := by
  obtain ⟨hown, hbody, -⟩ := unbroken_divide (unbroken_programLines text)
  exact List.forall_mem_append.mpr ⟨hown, hbody⟩

/-- No procedure of a program has a line feed in its name or in one of its lines. -/
theorem isUnbroken_of_mem_procedures {text : String} {p : Procedure}
    (h : p ∈ (Program.read text).procedures) : p.IsUnbroken where
  name hmem := absurd (isWordChar_of_mem_divide h '\n' hmem) (by decide)
  source := (unbroken_divide (unbroken_programLines text)).2.2 p h

/-! ## Clauses -/

/-- The words of a text without line feeds make clauses without line feeds. -/
theorem newline_not_mem_argument {keywords : List String} {text : List Char} (h : '\n' ∉ text)
    {keyword : String} {argument : List Char}
    (hget : (Clauses.parse keywords text).get? keyword = some argument) : '\n' ∉ argument := by
  have hword : ∀ {text word : List Char}, '\n' ∉ text → '\n' ∉ word → '\n' ∉ addWord text word := by
    intro text word htext hword
    unfold addWord
    split
    · exact hword
    · rw [List.mem_append, not_or]
      exact ⟨htext, List.not_mem_cons_of_ne_of_not_mem (by decide) hword⟩
  -- a word opens a clause, or goes to the argument of the last one
  have hnext : ∀ (clauses : Clauses) (word : List Char), '\n' ∉ word →
      (∀ clause ∈ clauses.list, '\n' ∉ clause.argument) →
      ∀ clause ∈ (clauses.addNext keywords none word).list, '\n' ∉ clause.argument := by
    intro clauses word hfree hlist
    unfold Clauses.addNext
    dsimp only
    split
    · exact List.forall_mem_append.mpr ⟨hlist, by simp⟩
    · split
      · next last hlast =>
        have hmem := List.mem_of_getLast? hlast
        refine List.forall_mem_append.mpr ⟨fun clause hclause => ?_, ?_⟩
        · exact hlist clause (List.dropLast_subset _ hclause)
        · exact List.forall_mem_singleton.mpr (hword (hlist last hmem) hfree)
      · exact hlist
  have hfold : ∀ (ws : List (List Char)) (clauses : Clauses), (∀ w ∈ ws, '\n' ∉ w) →
      (∀ clause ∈ clauses.list, '\n' ∉ clause.argument) →
      ∀ clause ∈ (ws.foldl (Clauses.addNext keywords none) clauses).list,
        '\n' ∉ clause.argument := by
    intro ws
    induction ws with
    | nil => exact fun _ _ hlist => hlist
    | cons w ws ih =>
      intro clauses hws hlist
      obtain ⟨hw, hws⟩ := List.forall_mem_cons.mp hws
      exact ih _ hws (hnext clauses w hw hlist)
  obtain ⟨clause, hclause, rfl⟩ := Option.map_eq_some_iff.mp hget
  exact hfold (Text.words text) {} (fun w hw hmem => h (Text.mem_of_mem_words hw hmem)) nofun
    clause (List.mem_of_find?_eq_some hclause)

end Screen

end ScreenForms
