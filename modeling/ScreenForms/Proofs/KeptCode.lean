import ScreenForms.Proofs.Commented
import ScreenForms.Proofs.UnbrokenLines

/-!
# Code that is kept and never runs

The procedures of a screen program are not run and not translated: bound to an event or free, they
become legacy comments. No command of a program stores other code than that
(`Canvas.AllCommented`), so the whole program does not. On export, code that is not translated is
put into comments of the target.
-/

namespace ScreenForms

/-- The code of all events and methods of a document. -/
def Document.codes (doc : Document) : List String :=
  doc.events.values.map EventBinding.code ++ doc.methods.map FormMethod.body

namespace Screen

open Code

/-! ## Comments in place of code -/

/-- Every line of the comment for a procedure begins with an asterisk: the procedure has no line
feeds that could begin another one. -/
theorem isCommented_placeholder {p : Procedure} (h : p.IsUnbroken) : IsCommented p.placeholder := by
  have hsource : ∀ l ∈ p.sourceLines, '\n' ∉ l := by
    intro l hl
    obtain ⟨line, hline, rfl⟩ := List.mem_map.mp ((List.rdropWhile_prefix _ _).subset hl)
    exact h.source line hline
  have hbreak : ∀ line : List Char, '\n' ∉ line → '\n' ∉ Procedure.commentLine line := by
    intro line hline
    unfold Procedure.commentLine
    dsimp only
    split
    · decide
    · refine List.not_mem_cons_of_ne_of_not_mem (by decide)
        (List.not_mem_cons_of_ne_of_not_mem (by decide) fun hmem => hline ?_)
      exact (List.rdropWhile_prefix Text.isBlank line).subset hmem
  have hmark : ∀ line : List Char, (Procedure.commentLine line).head? = some '*' := by
    intro line
    unfold Procedure.commentLine
    dsimp only
    split <;> rfl
  refine isCommented_joinWith (List.forall_mem_cons.mpr ⟨?_, ?_⟩) (List.forall_mem_cons.mpr ⟨?_, ?_⟩)
  · simp only [List.mem_append, not_or]
    exact ⟨⟨by decide, h.name⟩, by decide⟩
  · exact List.forall_mem_map.mpr fun l hl => hbreak l (hsource l hl)
  · rfl
  · exact List.forall_mem_map.mpr fun l _ => hmark l

/-- The procedures of a program have no line feeds. -/
def Surroundings.IsUnbroken (env : Surroundings) : Prop := ∀ p ∈ env.procedures, p.IsUnbroken

variable {env : Surroundings}

/-- This holds of every procedure that a clause finds by its name. -/
theorem Surroundings.IsUnbroken.procedure (h : env.IsUnbroken) {name : String} {p : Procedure}
    (hp : env.procedure? name = some p) : p.IsUnbroken :=
  h p (List.mem_reverse.mp (List.mem_of_find?_eq_some hp))

/-- A clause binds a comment, whether it calls a procedure or holds an expression. -/
theorem isCommented_boundCode (h : env.IsUnbroken) {keyword : String} {argument : List Char}
    (hkeyword : '\n' ∉ keyword.toList) (hargument : '\n' ∉ argument) :
    IsCommented (env.boundCode keyword argument) := by
  unfold Surroundings.boundCode
  split
  · next p hp =>
    obtain ⟨name, -, hname⟩ := Option.bind_eq_some_iff.mp hp
    exact isCommented_placeholder (h.procedure hname)
  · have hfree : '\n' ∉ ("* " ++ keyword ++ " " ++ String.ofList (Text.trim argument)).toList := by
      simp only [String.toList_append, String.toList_ofList, List.mem_append, not_or]
      exact ⟨⟨⟨by decide, hkeyword⟩, by decide⟩, fun hmem => hargument (Text.mem_of_mem_trim hmem)⟩
    rw [IsCommented, Text.lines_of_not_mem hfree]
    split
    · exact List.forall_mem_nil _
    · refine List.forall_mem_singleton.mpr ?_
      simp only [String.toList_append, List.append_assoc]
      rfl

/-- The methods that free procedures become are comments. -/
theorem isCommented_freeMethods (h : env.IsUnbroken) (bound : List String) :
    ∀ m ∈ freeMethods env bound, IsCommented m.body := by
  intro m hm
  obtain ⟨q, -, hq⟩ := List.mem_filterMap.mp hm
  obtain ⟨p, hp, rfl⟩ := Option.map_eq_some_iff.mp hq
  exact isCommented_placeholder (h.procedure hp)

/-! ## Commands that bind no code -/

variable {clauses : Clauses} {c : Canvas} {row column : Float}

namespace Canvas

/-- What a canvas knows of code: the bindings, and which procedures were bound. -/
def code (c : Canvas) : EventMap × List String := (c.events, c.bound)

/-- The code of a canvas includes its events. -/
theorem events_eq_of_code_eq {c' : Canvas} (h : c'.code = c.code) : c'.events = c.events :=
  congrArg Prod.fst h

/-- The code of a canvas includes the names that have been bound. -/
theorem bound_eq_of_code_eq {c' : Canvas} (h : c'.code = c.code) : c'.bound = c.bound :=
  congrArg Prod.snd h

@[simp] theorem code_warn (line : Nat) (name message : String) :
    (c.warn line name message).code = c.code := rfl

@[simp] theorem code_add (controls : List Control) : (c.add controls).code = c.code := rfl

@[simp] theorem code_aim (target : Option ControlId) : { c with target }.code = c.code := rfl

/-- A new control has no code. -/
@[simp] theorem code_newControl (cells : CellMetrics) (kind : ControlKind) :
    (c.newControl cells kind row column).2.code = c.code := rfl

/-- Noting that a procedure is bound binds nothing by itself. -/
theorem events_noteBound (argument : List Char) : (c.noteBound env argument).events = c.events := by
  unfold noteBound
  split <;> rfl

end Canvas

@[simp] theorem code_paintSay : (paintSay env clauses row column c).code = c.code := by
  unfold paintSay
  dsimp only
  split <;> rfl

/-- The controls of a group are new, and none of them has code. -/
@[simp] theorem code_paintGroup (kind : ControlKind) (horizontal : Bool)
    (size : Option (Float × Float)) (field : List Char) (step : Int)
    (captions : List (List Char)) :
    (paintGroup env kind horizontal size row column field step captions c).2.code = c.code := by
  induction captions generalizing step c with
  | nil => rfl
  | cons raw captions ih =>
    exact ih (c := (c.newControl env.cells kind row column).2) (step + 1)

/-- A field has no code of its own when it is painted. Its clauses are bound afterwards. -/
@[simp] theorem code_paintField (picture : Picture) (kind : FieldKind) (field : List Char) :
    (paintField env clauses picture kind field row column c).2.code = c.code := by
  cases kind with
  | buttons => exact code_paintGroup _ _ _ _ _ _
  | radios => exact code_paintGroup _ _ _ _ _ _
  | checkbox => rfl
  | combobox => rfl
  | spinner => rfl
  | textbox =>
    unfold paintField
    dsimp only
    split <;> rfl

@[simp] theorem code_paintEdit : (paintEdit env clauses row column c).code = c.code := rfl

@[simp] theorem code_paintBox (line : Nat) :
    (paintBox env line clauses row column c).code = c.code := by
  unfold paintBox
  split <;> rfl

/-- Opening a window binds nothing, whether it becomes the form or a container. -/
@[simp] theorem code_defineWindow (line : Nat) (rest : List Char) :
    (defineWindow env line rest c).code = c.code := by
  have hopen : ∀ (c : Canvas) (name : List Char) (clauses : Clauses) (box : Option CellBox),
      (if c.formWindow.isNone then defineForm env name clauses box c
        else defineContainer env name clauses box c).code = c.code := by
    intro c name clauses box
    split <;> rfl
  unfold defineWindow
  dsimp only
  split
  · rfl
  · rw [hopen]
    split <;> rfl

@[simp] theorem code_activateWindow (argument : List Char) :
    (activateWindow argument c).code = c.code := by
  unfold activateWindow
  dsimp only
  split
  · rfl
  · split <;> rfl

@[simp] theorem code_browse (rest : List Char) : (browse env rest c).code = c.code := rfl

/-- Commands about windows and grids bind no code. -/
@[simp] theorem code_carryOutNested (s : Statement) :
    (carryOutNested env c s).code = c.code := by
  unfold carryOutNested
  split <;> simp

/-- So nothing is bound by all commands that bind no code. -/
@[simp] theorem code_foldl_carryOutNested (ss : List Statement) :
    (ss.foldl (carryOutNested env) c).code = c.code := by
  induction ss generalizing c with
  | nil => rfl
  | cons s ss ih => exact ih.trans (code_carryOutNested s)

/-! ## Commands that bind comments -/

/-- The code of every binding on a canvas is a comment. -/
def Canvas.AllCommented (c : Canvas) : Prop := ∀ b ∈ c.events.values, IsCommented b.code

/-- Only events count. -/
theorem Canvas.AllCommented.of_events {c' : Canvas} (h : c.AllCommented)
    (hevents : c'.events = c.events) : c'.AllCommented := by
  rw [AllCommented, hevents]
  exact h

theorem Canvas.AllCommented.of_code {c' : Canvas} (h : c.AllCommented)
    (hcode : c'.code = c.code) : c'.AllCommented :=
  h.of_events (events_eq_of_code_eq hcode)

/-- Binding a comment keeps all code commented. -/
theorem Canvas.AllCommented.bind (h : c.AllCommented) {b : EventBinding}
    (hb : IsCommented b.code) : (c.bind b).AllCommented := by
  intro b' hb'
  obtain ⟨e, he, rfl⟩ := List.mem_map.mp hb'
  rcases mem_insertEntry he with rfl | he
  · exact hb
  · exact h e.2 (List.mem_map_of_mem he)

/-- What a step keeps, a run keeps. -/
theorem Canvas.AllCommented.foldl {α : Type} {step : Canvas → α → Canvas} {l : List α}
    (hstep : ∀ a ∈ l, ∀ c : Canvas, c.AllCommented → (step c a).AllCommented)
    (h : c.AllCommented) : (l.foldl step c).AllCommented := by
  induction l generalizing c with
  | nil => exact h
  | cons a l ih =>
    obtain ⟨ha, hl⟩ := List.forall_mem_cons.mp hstep
    exact ih hl (ha c h)

/-- The clauses of a field bind comments, as their arguments have no line feeds. -/
theorem isCommented_fieldBindings (henv : env.IsUnbroken) {rest : List Char} (hrest : '\n' ∉ rest)
    (kind : FieldKind) (id : ControlId) :
    ∀ b ∈ fieldBindings env (Clauses.parse paintKeywords rest) kind id, IsCommented b.code := by
  have hbound : ∀ {keyword : String} {argument : List Char}, '\n' ∉ keyword.toList →
      (Clauses.parse paintKeywords rest).get? keyword = some argument →
      IsCommented (env.boundCode keyword argument) :=
    fun hkeyword hget => isCommented_boundCode henv hkeyword (newline_not_mem_argument hrest hget)
  intro b hb
  rcases List.mem_append.mp hb with hb | hb
  · dsimp only at hb
    split at hb
    · next hget =>
      obtain rfl := List.mem_singleton.mp hb
      exact hbound (by decide) hget
    · cases hb
  · dsimp only at hb
    split at hb
    · next hget =>
      obtain rfl := List.mem_singleton.mp hb
      exact hbound (by decide) hget
    · cases hb

/-- A field keeps all code commented, together with its clauses. -/
theorem allCommented_paintGet (henv : env.IsUnbroken) {rest : List Char} (hrest : '\n' ∉ rest)
    (h : c.AllCommented) :
    (paintGet env (Clauses.parse paintKeywords rest) row column c).AllCommented := by
  unfold paintGet
  refine Canvas.AllCommented.of_events (Canvas.AllCommented.foldl ?_ ?_) rfl
  · intro b hb c hc
    obtain ⟨control, -, hb⟩ := List.mem_flatMap.mp hb
    exact hc.bind (isCommented_fieldBindings henv hrest _ _ b hb)
  · refine (Canvas.AllCommented.foldl (fun keyword _ c hc => ?_) h).of_code
      (code_paintField _ _ _)
    split
    · exact hc.of_events (Canvas.events_noteBound _)
    · exact hc

/-- So does every command that paints: only the one for fields binds code. -/
theorem allCommented_paint (henv : env.IsUnbroken) (line : Nat) {rest : List Char}
    (hrest : '\n' ∉ rest) (h : c.AllCommented) : (paint env line rest c).AllCommented := by
  unfold paint
  dsimp only
  split
  · exact h.of_events rfl
  · split
    · exact h.of_code code_paintSay
    · exact allCommented_paintGet henv hrest h
    · exact h.of_code code_paintEdit
    · exact h.of_code (code_paintBox line)
    · exact h

/-- The first clause that a command has is one of those that were asked for. -/
theorem mem_and_get?_of_firstClause? {keywords : List String} {keyword : String}
    {argument : List Char} (h : firstClause? clauses keywords = some (keyword, argument)) :
    keyword ∈ keywords ∧ clauses.get? keyword = some argument := by
  obtain ⟨other, hother, hclause⟩ := List.exists_of_findSome?_eq_some h
  obtain ⟨_, hget, heq⟩ := Option.map_eq_some_iff.mp hclause
  obtain ⟨rfl, rfl⟩ := Prod.mk.inj heq
  exact ⟨hother, hget⟩

/-- The clauses of a read command bind comments for the form, and the commands of the procedures
they call are carried out without binding anything. -/
theorem allCommented_read (henv : env.IsUnbroken) {rest : List Char} (hrest : '\n' ∉ rest)
    (h : c.AllCommented) : (read env rest c).AllCommented := by
  have hkeywords : ∀ entry ∈ readEvents, ∀ keyword ∈ entry.2, '\n' ∉ keyword.toList := by decide
  refine Canvas.AllCommented.foldl (fun entry hentry c hc => ?_) h
  unfold bindFormEvent
  split
  · exact hc
  · next keyword argument hfirst =>
    obtain ⟨hkeyword, hget⟩ := mem_and_get?_of_firstClause? hfirst
    split
    · exact hc
    · have hbound : ((c.noteBound env argument).bind
          ⟨formOwner, entry.1, env.boundCode keyword argument⟩).AllCommented :=
        (hc.of_events (Canvas.events_noteBound argument)).bind
          (isCommented_boundCode henv (hkeywords entry hentry keyword hkeyword)
            (newline_not_mem_argument hrest hget))
      dsimp only
      split
      · exact hbound
      · exact hbound.of_code (code_foldl_carryOutNested _)

/-- The commands that bind code are read from a statement without adding characters to it. -/
theorem newline_not_mem_of_ofText? {text : List Char} (h : '\n' ∉ text) {rest : List Char}
    (hcommand : Command.ofText? text = some (.paint rest) ∨
      Command.ofText? text = some (.read rest)) : '\n' ∉ rest := by
  unfold Command.ofText? at hcommand
  split at hcommand
  · rcases hcommand with hcommand | hcommand <;> cases hcommand
  · next first words hwords =>
    have hfree : ∀ w ∈ words, '\n' ∉ w := fun w hw hmem =>
      h (Text.mem_of_mem_words (hwords ▸ List.mem_cons_of_mem _ hw) hmem)
    dsimp only at hcommand
    rcases hcommand with hcommand | hcommand
    · split at hcommand
      · obtain rfl := Command.paint.inj (Option.some.inj hcommand)
        intro hmem
        exact h ((List.dropWhile_sublist _).subset ((List.dropWhile_sublist _).subset hmem))
      · repeat' (split at hcommand)
        all_goals cases hcommand
    · split at hcommand
      · cases hcommand
      · repeat' (split at hcommand)
        all_goals first | cases hcommand; done | skip
        obtain rfl := Command.read.inj (Option.some.inj hcommand)
        exact Text.newline_not_mem_unwords hfree

/-- One statement keeps all code commented, whichever command it is. -/
theorem allCommented_carryOut (henv : env.IsUnbroken) {s : Statement} (hs : '\n' ∉ s.text)
    (h : c.AllCommented) : (carryOut env c s).AllCommented := by
  unfold carryOut
  split
  · next rest hpaint =>
    exact allCommented_paint henv s.line (newline_not_mem_of_ofText? hs (.inl hpaint)) h
  · next rest hread =>
    exact allCommented_read henv (newline_not_mem_of_ofText? hs (.inr hread)) h
  · exact h.of_code (code_carryOutNested s)

/-! ## Whole programs -/

/-- The commands of a program find its procedures. -/
theorem mem_surroundings {config : Config} {source : String} {p : Procedure} :
    p ∈ (surroundings config source).procedures ↔ p ∈ (Program.read source).procedures := by
  rw [surroundings]

/-- No procedure that the commands of a program find has a line feed within a line. -/
theorem isUnbroken_surroundings (config : Config) (source : String) :
    (surroundings config source).IsUnbroken :=
  fun _ hp => isUnbroken_of_mem_procedures (mem_surroundings.mp hp)

/-- All events on the canvas of a program are comments, by induction on its statements. -/
theorem allCommented_painted (config : Config) (source : String) :
    (painted config source).AllCommented :=
  Canvas.AllCommented.foldl
    (fun _ hs _ hc => allCommented_carryOut (isUnbroken_surroundings config source)
      (newline_not_mem_of_mem_statements (unbroken_body source) hs) hc)
    nofun

/-- All code of the document of a program is kept in comments. -/
theorem isCommented_of_mem_codes (config : Config) (source : String) :
    ∀ code ∈ (build config source).document.codes, IsCommented code := by
  rw [Document.codes, build]
  refine List.forall_mem_append.mpr ⟨?_, ?_⟩
  · exact List.forall_mem_map.mpr (allCommented_painted config source)
  · exact List.forall_mem_map.mpr
      (isCommented_freeMethods (isUnbroken_surroundings config source) _)

end Screen

/-! ## No code where nothing is translated -/

/-- Code that is not translated never runs. The document of a screen program, whatever the program
does, holds nothing but legacy comments, and those translate to comments. On export, events and
methods that are not to be translated reach the generator as comments of the target. -/
theorem untranslated_hasNoCode (config : Config) (source : String) (doc : Document)
    (target : Target) :
    (∀ code ∈ (Screen.build config source).document.codes, Code.IsCommented code ∧
      ∀ owner, Code.hasCode target (Code.translate { target, owner } code) = false) ∧
    doc.exportTo config.output target = (doc.localize config.output target).generate target ∧
    (config.output.translateEvents = false →
      ∀ b ∈ (doc.localize config.output target).events.values, Code.hasCode target b.code = false) ∧
    (config.output.translateEvents = false ∨ config.output.translateMethods = false →
      ∀ m ∈ (doc.localize config.output target).methods, Code.hasCode target m.body = false) := by
  refine ⟨fun code hcode => ?_, rfl, fun hevents b hb => ?_, fun hmethods m hm => ?_⟩
  · have hcommented := Screen.isCommented_of_mem_codes config source code hcode
    exact ⟨hcommented, fun owner => hcommented.hasCode_translate { target, owner }⟩
  · obtain ⟨entry, hentry, rfl⟩ := List.mem_map.mp hb
    obtain ⟨e, -, rfl⟩ := List.mem_map.mp hentry
    simpa [hevents] using Code.hasCode_commentOut target e.2.code
  · obtain ⟨method, -, rfl⟩ := List.mem_map.mp hm
    rcases hmethods with hoff | hoff <;>
      simpa [hoff] using Code.hasCode_commentOut target method.body

/-- A program with a procedure that a clause binds and one that no clause binds. -/
def twoProcedures : String :=
  "@ 1,1 GET x VALID check()\nPROCEDURE check\nQUIT ;\nFUNCTION free\n? 'x'\n"

/-- The comment that the first of these procedures becomes. -/
def checkComment : String := "* Screen procedure check (original body kept as comment)\n* QUIT ;"

/-- A document with an event and a method. -/
def quitDocument : Document :=
  { events := EventMap.bind SortedMap.empty ⟨formOwner, "Unload", "QUIT"⟩
    methods := [⟨"leave", [], "QUIT"⟩] }

/-- A program with a procedure that is bound and another one that is not, for each of the two
switches. -/
theorem untranslated_hasNoCode_twoProcedures :
    checkComment ∈ (Screen.build {} twoProcedures).document.codes ∧
      Code.hasCode .qt (Code.translate { target := .qt, owner := some "x" } checkComment) = false ∧
      (∃ b ∈ (quitDocument.localize { translateEvents := false } .qt).events.values,
        Code.hasCode .qt b.code = false) ∧
      ∃ m ∈ (quitDocument.localize { translateEvents := false } .qt).methods,
        Code.hasCode .qt m.body = false := by
  have hlines : Record.numberedLines twoProcedures = _ :=
    Record.numberedLines_of_toList String.toList_ofList
  have hcode : checkComment ∈ (Screen.build {} twoProcedures).document.codes := by
    rw [Screen.build, Screen.painted, Screen.surroundings, Screen.Program.read,
      Screen.programLines, hlines]
    decide +kernel
  obtain ⟨hcheck, -, hevents, hmethods⟩ := untranslated_hasNoCode
    { output := { translateEvents := false } } twoProcedures quitDocument .qt
  exact ⟨hcode, (hcheck _ hcode).2 (some "x"),
    ⟨_, List.mem_cons_self, hevents rfl _ List.mem_cons_self⟩,
    _, List.mem_cons_self, hmethods (.inl rfl) _ List.mem_cons_self⟩

end ScreenForms
