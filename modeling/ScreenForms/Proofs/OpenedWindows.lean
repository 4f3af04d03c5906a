import ScreenForms.Proofs.LineOwners
import ScreenForms.Proofs.PaintedFields
import ScreenForms.Proofs.Scripts

/-!
# Windows and grids that are opened

A command that defines a window or browses opens one window or one grid whenever it is carried out;
no other act opens any (`Counts`). Statements of different parts of a program differ in their
lines, so the statements that open are carried out once each exactly where no procedure with such
a statement is called for two events of the form (`carriedOutOnce_iff`).
-/

namespace ScreenForms

namespace Screen

open Record (NumberedLine)

/-! ## The lines of statements -/

section lines

variable {lines : List NumberedLine}

/-- A statement has the line of its first piece, and there is one statement at most for each. -/
theorem map_line_emit (s : Statement) : ((emit s).map Statement.line).Sublist [s.line] := by
  unfold emit
  split
  · exact List.nil_sublist _
  · exact List.Sublist.refl _

/-- Statements begin on different lines, in order. -/
theorem map_line_statementsFrom (open? : Option Statement) (lines : List NumberedLine) :
    ((statementsFrom open? lines).map Statement.line).Sublist
      ((open?.map Statement.line).toList ++ lines.map Prod.snd) := by
  induction lines generalizing open? with
  | nil =>
    cases open? with
    | none => exact List.nil_sublist _
    | some s => exact map_line_emit s
  | cons line lines ih =>
    cases open? with
    | none =>
      rw [statementsFrom]
      dsimp only
      split
      · exact (ih none).cons _
      · split
        · exact ih (some _)
        · rw [List.map_append]
          exact (map_line_emit _).append (ih none)
    | some s =>
      rw [statementsFrom]
      dsimp only
      split
      · exact (ih (some _)).trans ((List.sublist_cons_self _ _).cons_cons _)
      · rw [List.map_append]
        exact (map_line_emit _).append ((ih none).cons _)

/-- The statements of some lines stand in their order, each at a line of its own. -/
theorem map_line_statements (lines : List NumberedLine) :
    ((statements lines).map Statement.line).Sublist (lines.map Prod.snd) :=
  map_line_statementsFrom none lines

/-- So no statement occurs twice where the lines have different numbers. -/
theorem nodup_statements (h : (lines.map Prod.snd).Nodup) : (statements lines).Nodup :=
  .of_map _ (h.sublist (map_line_statements lines))

/-- A statement belongs where its first line belongs. -/
theorem headerOver?_of_mem_statements {header : Option (List Char × Nat)} {s : Statement}
    (h : s ∈ statements (linesUnder lines header)) : headerOver? lines s.line = header := by
  obtain ⟨l, hl, hline⟩ := List.mem_map.mp
    ((map_line_statements _).subset (List.mem_map_of_mem h))
  rw [← hline]
  have hmem := (List.mem_filter.mp hl).2
  simp only [Bool.and_eq_true, beq_iff_eq] at hmem
  exact hmem.1

end lines

/-! ## Statements of different parts -/

section parts

variable {source : String} {s : Statement} {p q : Procedure}

/-- A program shares out its lines between its main part and its procedures. -/
theorem placesLines_programLines (source : String) :
    PlacesLines (programLines source) (Program.read source) :=
  placesLines_divide (increasing_programLines source)

/-- The lines under one header have different numbers. -/
theorem nodup_statements_linesUnder (source : String) (header : Option (List Char × Nat)) :
    (statements (linesUnder (programLines source) header)).Nodup := by
  have hnumbers : ((programLines source).map Prod.snd).Nodup :=
    List.pairwise_map.mpr ((increasing_programLines source).imp fun h => Nat.ne_of_lt h)
  exact nodup_statements (hnumbers.sublist (List.filter_sublist.map _))

/-- No statement of the main part occurs twice in it. -/
theorem nodup_statements_body (source : String) :
    (statements (Program.read source).body).Nodup := by
  rw [(placesLines_programLines source).body]
  exact nodup_statements_linesUnder source none

/-- No statement of a procedure occurs twice in it. -/
theorem nodup_statements_source (hp : p ∈ (Program.read source).procedures) :
    (statements p.source).Nodup := by
  rw [(placesLines_programLines source).source p hp]
  exact nodup_statements_linesUnder source _

/-- A statement of a procedure is below its header. -/
theorem headerOver?_of_mem_source (hp : p ∈ (Program.read source).procedures)
    (h : s ∈ statements p.source) :
    headerOver? (programLines source) s.line = some (p.name.toList, p.line) := by
  rw [(placesLines_programLines source).source p hp] at h
  exact headerOver?_of_mem_statements h

/-- A statement of the main part is in no procedure: it has another header over it, or none. -/
theorem not_mem_statements_source (h : s ∈ statements (Program.read source).body)
    (hp : p ∈ (Program.read source).procedures) : s ∉ statements p.source := by
  intro hs
  rw [(placesLines_programLines source).body] at h
  have hnone := headerOver?_of_mem_statements h
  rw [headerOver?_of_mem_source hp hs] at hnone
  cases hnone

/-- A statement is in one procedure only. -/
theorem eq_of_mem_statements (hp : p ∈ (Program.read source).procedures)
    (hq : q ∈ (Program.read source).procedures) (h : s ∈ statements p.source)
    (h' : s ∈ statements q.source) : p = q := by
  have hheader := (headerOver?_of_mem_source hp h).symm.trans (headerOver?_of_mem_source hq h')
  have hsource : p.source = q.source := by
    rw [(placesLines_programLines source).source p hp,
      (placesLines_programLines source).source q hq, hheader]
  obtain ⟨name, line, lines⟩ := p
  obtain ⟨name', line', lines'⟩ := q
  simp only [Option.some.injEq, Prod.mk.injEq, String.toList_inj] at hheader
  simp [hheader, show lines = lines' from hsource]

end parts

/-! ## What is opened -/

/-- The name in a command that defines a window. -/
def windowName (rest : List Char) : List Char :=
  Text.trim (rest.takeWhile fun c => !Text.isBlank c)

/-- Whether a statement is a command that defines a window. -/
def isDefineWindow (s : Statement) : Bool :=
  match Command.ofText? s.text with
  | some (.defineWindow _) => true
  | _ => false

/-- Whether a statement defines a window and names it. -/
def opensWindow (s : Statement) : Bool :=
  match Command.ofText? s.text with
  | some (.defineWindow rest) => !(windowName rest).isEmpty
  | _ => false

/-- Whether a statement is a browse command. -/
def isBrowse (s : Statement) : Bool :=
  match Command.ofText? s.text with
  | some (.browse _) => true
  | _ => false

/-- How many controls of a kind there are. -/
def countKind (kind : ControlKind) (controls : List Control) : Nat :=
  controls.countP fun d => d.kind == kind

/-- How many windows are open: the form, if it is defined, and the containers. -/
def windowCount (c : Canvas) : Nat :=
  (if c.formWindow.isSome then 1 else 0) + countKind .container c.controls

/-- How many grids there are. -/
def gridCount (c : Canvas) : Nat := countKind .grid c.controls

section steps

variable {env : Surroundings} {c c' : Canvas}

/-- A change that opens nothing. -/
structure OpensNothing (c c' : Canvas) : Prop where
  windows : windowCount c' = windowCount c
  grids : gridCount c' = gridCount c

/-- A canvas that gets no control opens nothing. -/
theorem opensNothing_of_eq (hform : c'.formWindow = c.formWindow)
    (hcontrols : c'.controls = c.controls) : OpensNothing c c' :=
  ⟨by rw [windowCount, windowCount, hform, hcontrols], by rw [gridCount, gridCount, hcontrols]⟩

/-- New controls count as opened only where they are windows or grids. -/
theorem opensNothing_of_append {made : List Control} (hform : c'.formWindow = c.formWindow)
    (hcontrols : c'.controls = c.controls ++ made)
    (hmade : ∀ d ∈ made, d.kind ≠ .container ∧ d.kind ≠ .grid) : OpensNothing c c' := by
  have hnone : countKind .container made = 0 ∧ countKind .grid made = 0 := by
    simp only [countKind, List.countP_eq_zero, beq_iff_eq]
    exact ⟨fun d hd => (hmade d hd).1, fun d hd => (hmade d hd).2⟩
  constructor
  · rw [windowCount, windowCount, hform, hcontrols, countKind, List.countP_append]
    exact congrArg _ (congrArg _ hnone.1)
  · rw [gridCount, gridCount, hcontrols, countKind, List.countP_append]
    exact congrArg _ hnone.2

/-- The same for one control. -/
theorem opensNothing_of_one {d : Control} (hform : c'.formWindow = c.formWindow)
    (hcontrols : c'.controls = c.controls ++ [d]) (hcontainer : d.kind ≠ .container)
    (hgrid : d.kind ≠ .grid) : OpensNothing c c' :=
  opensNothing_of_append hform hcontrols (List.forall_mem_singleton.mpr ⟨hcontainer, hgrid⟩)

/-- Quiet steps leave the window of the form alone. -/
theorem formWindow_of_quiet (h : c.Quiet c') : c'.formWindow = c.formWindow := by
  rw [h]

theorem opensNothing_of_quiet (h : c.Quiet c') : OpensNothing c c' :=
  opensNothing_of_eq (formWindow_of_quiet h) h.keeps.controls

/-- Drawing controls does not change which window the form is. -/
theorem formWindow_of_drawn {made : List Control} (h : c.Drawn made c') :
    c'.formWindow = c.formWindow := by
  induction h with
  | nil => rfl
  | quiet h _ ih => exact ih.trans (formWindow_of_quiet h)
  | cons _ _ _ _ _ _ ih => exact ih

variable {clauses : Clauses} {row column : Float}

theorem opensNothing_paintSay : OpensNothing c (paintSay env clauses row column c) := by
  unfold paintSay
  dsimp only
  split
  · exact opensNothing_of_one rfl rfl (by rintro ⟨⟩) (by rintro ⟨⟩)
  · exact opensNothing_of_one rfl rfl (by rintro ⟨⟩) (by rintro ⟨⟩)

/-- A field adds controls for input, and none of these is a window or a grid. -/
theorem opensNothing_paintGet : OpensNothing c (paintGet env clauses row column c) := by
  have hkind : ∀ kind : FieldKind, kind.controlKind ≠ .container ∧ kind.controlKind ≠ .grid := by
    intro kind
    cases kind <;> decide
  have hguards : c.Quiet (Canvas.noteGuards env clauses c) :=
    Canvas.Quiet.foldl (fun c keyword => by
      split
      · exact Canvas.quiet_noteBound c env _
      · exact .refl c) _ c
  refine opensNothing_of_append ?_ controls_paintGet fun d hd => ?_
  · exact (formWindow_of_quiet (Canvas.Quiet.foldl Canvas.quiet_bind _ _)).trans
      ((formWindow_of_drawn (drawn_paintField env clauses row column _ _ _ _)).trans
        (formWindow_of_quiet hguards))
  · obtain ⟨e, he, rfl⟩ := List.mem_map.mp hd
    rw [(finishes_finishField env clauses _ e).kind, kind_of_mem_paintField he]
    exact hkind _

theorem opensNothing_paintEdit : OpensNothing c (paintEdit env clauses row column c) := by
  unfold paintEdit
  dsimp only
  split
  · exact opensNothing_of_one rfl rfl (by rintro ⟨⟩) (by rintro ⟨⟩)
  · exact opensNothing_of_one rfl rfl (by rintro ⟨⟩) (by rintro ⟨⟩)

theorem opensNothing_paintBox (line : Nat) :
    OpensNothing c (paintBox env line clauses row column c) := by
  unfold paintBox
  split
  · exact opensNothing_of_eq rfl rfl
  · exact opensNothing_of_one rfl rfl (by rintro ⟨⟩) (by rintro ⟨⟩)

/-- Painting opens neither windows nor grids. -/
theorem opensNothing_paint (line : Nat) (rest : List Char) :
    OpensNothing c (paint env line rest c) := by
  unfold paint
  dsimp only
  split
  · exact opensNothing_of_eq rfl rfl
  · split
    · exact opensNothing_paintSay
    · exact opensNothing_paintGet
    · exact opensNothing_paintEdit
    · exact opensNothing_paintBox line
    · exact opensNothing_of_eq rfl rfl

theorem opensNothing_activateWindow (name : List Char) :
    OpensNothing c (activateWindow name c) := by
  unfold activateWindow
  dsimp only
  split
  · exact opensNothing_of_eq rfl rfl
  · split
    · exact opensNothing_of_eq rfl rfl
    · exact opensNothing_of_eq rfl rfl

/-- A window that is named is opened: the form, if there is none yet, or else a container. -/
theorem counts_defineWindow (line : Nat) (rest : List Char) :
    windowCount (defineWindow env line rest c) =
        windowCount c + (if (windowName rest).isEmpty then 0 else 1) ∧
      gridCount (defineWindow env line rest c) = gridCount c := by
  have hopen : ∀ (c : Canvas) (name : List Char) (clauses : Clauses) (box : Option CellBox),
      windowCount (if c.formWindow.isNone then defineForm env name clauses box c
        else defineContainer env name clauses box c) = windowCount c + 1 ∧
      gridCount (if c.formWindow.isNone then defineForm env name clauses box c
        else defineContainer env name clauses box c) = gridCount c := by
    intro c name clauses box
    rcases hform : c.formWindow with _ | window
    · simp [windowCount, gridCount, defineForm, hform, Nat.add_comm]
    · simp [windowCount, gridCount, defineContainer, hform, countKind, Canvas.add, Nat.add_assoc]
  unfold defineWindow
  dsimp only
  rw [← windowName]
  rcases hname : (windowName rest).isEmpty with _ | _
  · rw [if_neg Bool.false_ne_true, if_neg Bool.false_ne_true, (hopen _ _ _ _).1, (hopen _ _ _ _).2]
    split <;> exact ⟨rfl, rfl⟩
  · exact ⟨rfl, rfl⟩

/-- Browsing opens a grid. -/
theorem counts_browse (rest : List Char) :
    windowCount (browse env rest c) = windowCount c ∧
      gridCount (browse env rest c) = gridCount c + 1 := by
  obtain ⟨grid, hcontrols, hkind, -⟩ := exists_grid_browse env rest c
  have hform : (browse env rest c).formWindow = c.formWindow := by
    unfold browse
    dsimp only
    split <;> rfl
  simp [windowCount, gridCount, hform, hcontrols, countKind, hkind]

/-- A statement of a procedure opens a window or a grid where it is a command that does. -/
theorem counts_carryOutNested (s : Statement) :
    windowCount (carryOutNested env c s) = windowCount c + (if opensWindow s then 1 else 0) ∧
      gridCount (carryOutNested env c s) = gridCount c + (if isBrowse s then 1 else 0) := by
  unfold carryOutNested opensWindow isBrowse
  rcases hcommand : Command.ofText? s.text with _ | (rest | rest | name | _ | rest | rest)
  · exact ⟨rfl, rfl⟩
  · exact ⟨rfl, rfl⟩
  · have hcounts := @counts_defineWindow env c s.line rest
    refine ⟨hcounts.1.trans ?_, hcounts.2⟩
    cases hname : (windowName rest).isEmpty <;> simp [hname]
  · have hnothing := @opensNothing_activateWindow c name
    exact ⟨hnothing.windows, hnothing.grids⟩
  · exact ⟨rfl, rfl⟩
  · exact counts_browse rest
  · exact ⟨rfl, rfl⟩

end steps

/-! ## Gains -/

/-- A measure that every run of certain statements increases by one, and that nothing else
changes. -/
def Counts (measure : Canvas → Nat) (test : Statement → Bool) : Prop :=
  ∀ env c act, measure (Act.perform env c act) =
    measure c + (if act.statement?.any test then 1 else 0)

/-- Carrying out one command makes one window more where it opens one, and one grid more where it is
a browse command. Nothing else changes the two numbers. -/
theorem counts_perform (env : Surroundings) (c : Canvas) (act : Act) :
    windowCount (act.perform env c) =
        windowCount c + (if act.statement?.any opensWindow then 1 else 0) ∧
      gridCount (act.perform env c) =
        gridCount c + (if act.statement?.any isBrowse then 1 else 0) := by
  cases act with
  | main s =>
    simp only [Act.perform]
    split
    · next rest hcommand =>
      have hnothing := @opensNothing_paint env c s.line rest
      simp [Act.statement?, opensWindow, isBrowse, hcommand, hnothing.windows, hnothing.grids]
    · exact counts_carryOutNested s
  | bind event clause =>
    have hnothing := opensNothing_of_quiet ((Canvas.quiet_noteBound c env clause.argument).trans
      (Canvas.quiet_bind _ ⟨formOwner, event, env.boundCode clause.keyword clause.argument⟩))
    exact ⟨hnothing.windows, hnothing.grids⟩
  | nested s => exact counts_carryOutNested s

/-- The number of windows counts the commands that open one. -/
theorem counts_windowCount : Counts windowCount opensWindow := fun env c act =>
  (counts_perform env c act).1

/-- The number of grids counts the browse commands. -/
theorem counts_gridCount : Counts gridCount isBrowse := fun env c act =>
  (counts_perform env c act).2

/-- By how much all runs of a statement together increase a measure. -/
def gain (env : Surroundings) (measure : Canvas → Nat) (s : Statement) : Canvas → List Act → Nat
  | _, [] => 0
  | c, act :: acts =>
    (if act.statement? = some s then measure (act.perform env c) - measure c else 0) +
      gain env measure s (act.perform env c) acts

section gain

variable {measure : Canvas → Nat} {test : Statement → Bool}

/-- What a statement adds is as much as it is carried out. -/
theorem Counts.gain_eq (h : Counts measure test) (env : Surroundings) (s : Statement) (c : Canvas)
    (acts : List Act) :
    gain env measure s c acts = if test s then (performed acts).count s else 0 := by
  induction acts generalizing c with
  | nil => simp [gain, performed]
  | cons act acts ih =>
    rw [gain, ih, h env c act]
    rcases hstatement : act.statement? with _ | t
    · simp [performed, hstatement]
    · by_cases hts : t = s
      · subst hts
        cases htest : test t <;> simp [performed, hstatement, htest, Nat.add_comm]
      · simp [performed, hstatement, hts]

/-- Over a whole run the number grows with every command that is counted, by induction on the
commands. -/
theorem Counts.foldl_eq (h : Counts measure test) (env : Surroundings) (c : Canvas)
    (acts : List Act) :
    measure (acts.foldl (Act.perform env) c) = measure c + (performed acts).countP test := by
  induction acts generalizing c with
  | nil => simp [performed]
  | cons act acts ih =>
    rw [List.foldl_cons, ih, h env c act]
    rcases hstatement : act.statement? with _ | t
    · simp [performed, hstatement]
    · cases htest : test t <;>
        simp [performed, hstatement, htest, Nat.add_comm, Nat.add_left_comm]

end gain

/-! ## Carried out once -/

/-- The statements of the main body and of all procedures. -/
def programStatements (source : String) : List Statement :=
  statements (Program.read source).body ++
    (Program.read source).procedures.flatMap fun p => statements p.source

/-- Every statement that defines a window defines the form or adds a container, but not both and
not more than one, and every browse statement adds one grid at most. So there are no more containers
and grids than such statements. -/
structure CarriedOutOnce (config : Config) (source : String) : Prop where
  window : ∀ s, isDefineWindow s = true → gain (surroundings config source) windowCount s
    (emptyCanvas config.cells source) (programScript config source) ≤ 1
  browse : ∀ s, isBrowse s = true → gain (surroundings config source) gridCount s
    (emptyCanvas config.cells source) (programScript config source) ≤ 1
  total : countKind .container (build config source).document.controls +
      countKind .grid (build config source).document.controls ≤
    ((programStatements source).filter fun s => isDefineWindow s || isBrowse s).length

/-- Whether a statement opens a window or a grid. -/
def opens (s : Statement) : Bool := opensWindow s || isBrowse s

section once

variable {config : Config} {source : String}

/-- Only the commands that define windows open some. -/
theorem isDefineWindow_of_opensWindow {s : Statement} (h : opensWindow s = true) :
    isDefineWindow s = true := by
  unfold opensWindow at h
  unfold isDefineWindow
  split at h
  · rfl
  · cases h

/-- No command opens a window and a grid. -/
theorem isBrowse_eq_false_of_opensWindow {s : Statement} (h : opensWindow s = true) :
    isBrowse s = false := by
  unfold opensWindow at h
  unfold isBrowse
  split at h
  · next hcommand => rw [hcommand]
  · cases h

/-- So the commands that open something are those that open windows and the browse commands. -/
theorem countP_opens (ss : List Statement) :
    ss.countP opensWindow + ss.countP isBrowse = ss.countP opens := by
  induction ss with
  | nil => rfl
  | cons s ss ih =>
    rw [List.countP_cons, List.countP_cons, List.countP_cons, ← ih, opens]
    rcases Bool.eq_false_or_eq_true (opensWindow s) with hwindow | hwindow
    · simp [hwindow, isBrowse_eq_false_of_opensWindow hwindow, Nat.add_right_comm]
    · simp [hwindow, Nat.add_assoc]

/-- Called procedures are procedures of the program. -/
theorem mem_procedures_of_mem_formProcedures {body : List Statement} {p : Procedure}
    (h : p ∈ formProcedures (surroundings config source) body) :
    p ∈ (Program.read source).procedures := by
  obtain ⟨entry, -, hclause⟩ := List.mem_filterMap.mp h
  obtain ⟨clause, -, hcalled⟩ := Option.bind_eq_some_iff.mp hclause
  obtain ⟨name, -, hfound⟩ := Option.bind_eq_some_iff.mp hcalled
  exact List.mem_reverse.mp (List.mem_of_find?_eq_some hfound)

/-- Whatever is carried out stands somewhere in the program. -/
theorem mem_programStatements_of_mem_performed {s : Statement}
    (h : s ∈ performed (programScript config source)) : s ∈ programStatements source := by
  rcases List.mem_append.mp ((performed_programScript_perm config source).subset h) with h | h
  · exact List.mem_append_left _ (List.mem_of_mem_filter h)
  · obtain ⟨p, hp, hs⟩ := List.mem_flatMap.mp h
    exact List.mem_append_right _
      (List.mem_flatMap.mpr ⟨p, mem_procedures_of_mem_formProcedures hp, hs⟩)

/-- A program carries its statements out once each where those that open are carried out once. Each
of them adds one window or one grid each time, so that counting what was added counts the runs. -/
theorem carriedOutOnce_iff_nodup : CarriedOutOnce config source ↔
    ((performed (programScript config source)).filter opens).Nodup := by
  constructor
  · intro h
    refine List.nodup_iff_count_le_one.mpr fun s => ?_
    rcases hopens : opens s with _ | _
    · rw [List.count_eq_zero_of_not_mem fun hs => by simp [hopens] at hs]
      exact Nat.zero_le 1
    · rw [List.count_filter hopens]
      rcases Bool.or_eq_true_iff.mp hopens with hwindow | hbrowse
      · have hgain := h.window s (isDefineWindow_of_opensWindow hwindow)
        rwa [counts_windowCount.gain_eq, if_pos hwindow] at hgain
      · have hgain := h.browse s hbrowse
        rwa [counts_gridCount.gain_eq, if_pos hbrowse] at hgain
  · intro hnodup
    have hcount : ∀ s, opens s = true → (performed (programScript config source)).count s ≤ 1 :=
      fun s hs => List.count_filter hs ▸ List.nodup_iff_count_le_one.mp hnodup s
    refine ⟨fun s _ => ?_, fun s hbrowse => ?_, ?_⟩
    · rw [counts_windowCount.gain_eq]
      split
      · next hwindow => exact hcount s (Bool.or_eq_true_iff.mpr (.inl hwindow))
      · exact Nat.zero_le 1
    · rw [counts_gridCount.gain_eq, if_pos hbrowse]
      exact hcount s (Bool.or_eq_true_iff.mpr (.inr hbrowse))
    · have hsub : (performed (programScript config source)).filter opens ⊆
          (programStatements source).filter fun s => isDefineWindow s || isBrowse s := by
        intro s hs
        obtain ⟨hmem, hopens⟩ := List.mem_filter.mp hs
        refine List.mem_filter.mpr ⟨mem_programStatements_of_mem_performed hmem, ?_⟩
        rw [Bool.or_eq_true_iff]
        exact (Bool.or_eq_true_iff.mp hopens).imp_left isDefineWindow_of_opensWindow
      calc countKind .container (painted config source).controls +
            countKind .grid (painted config source).controls
          ≤ windowCount (painted config source) + gridCount (painted config source) :=
            Nat.add_le_add_right (Nat.le_add_left _ _) _
        _ = (performed (programScript config source)).countP opens := by
            rw [painted_eq_foldl, counts_windowCount.foldl_eq, counts_gridCount.foldl_eq,
              ← countP_opens]
            simp [windowCount, gridCount, emptyCanvas, countKind]
        _ = ((performed (programScript config source)).filter opens).length :=
            List.countP_eq_length_filter
        _ ≤ _ := (hnodup.subperm hsub).length_le

/-- The statements that open are carried out once each exactly where no procedure that has one is
called for two events. -/
theorem nodup_performed_iff : ((performed (programScript config source)).filter opens).Nodup ↔
    (formProcedures (surroundings config source) (statements (Program.read source).body)).Pairwise
      fun p q => p = q → ∀ s ∈ statements p.source, opens s = false := by
  have hmem := fun p hp => @mem_procedures_of_mem_formProcedures config source
    (statements (Program.read source).body) p hp
  rw [((performed_programScript_perm config source).filter opens).nodup_iff, List.filter_append,
    List.filter_flatMap, List.nodup_append, List.nodup_flatMap]
  have hbody : (((statements (Program.read source).body).filter fun s => !isRead s).filter
      opens).Nodup := ((nodup_statements_body source).filter _).filter _
  have hsources : ∀ p ∈ formProcedures (surroundings config source)
      (statements (Program.read source).body), ((statements p.source).filter opens).Nodup :=
    fun p hp => (nodup_statements_source (hmem p hp)).filter _
  have hdisjoint : ∀ s ∈ ((statements (Program.read source).body).filter fun s => !isRead s).filter
      opens, ∀ t ∈ (formProcedures (surroundings config source)
        (statements (Program.read source).body)).flatMap
          fun p => (statements p.source).filter opens, s ≠ t := by
    rintro s hs _ ht rfl
    obtain ⟨p, hp, hsource⟩ := List.mem_flatMap.mp ht
    exact not_mem_statements_source (List.mem_of_mem_filter (List.mem_of_mem_filter hs)) (hmem p hp)
      (List.mem_of_mem_filter hsource)
  have hpairs : (formProcedures (surroundings config source)
      (statements (Program.read source).body)).Pairwise (Function.onFun List.Disjoint fun p =>
        (statements p.source).filter opens) ↔
      (formProcedures (surroundings config source) (statements (Program.read source).body)).Pairwise
        fun p q => p = q → ∀ s ∈ statements p.source, opens s = false := by
    refine List.Pairwise.iff_of_mem fun {p q} hp hq => ⟨?_, ?_⟩
    · rintro h rfl s hs
      rw [Bool.eq_false_iff]
      intro hopens
      exact h (List.mem_filter.mpr ⟨hs, hopens⟩) (List.mem_filter.mpr ⟨hs, hopens⟩)
    · intro h s hs hs'
      obtain ⟨hs, hopens⟩ := List.mem_filter.mp hs
      have hsame := eq_of_mem_statements (hmem p hp) (hmem q hq) hs (List.mem_of_mem_filter hs')
      rw [h hsame s hs] at hopens
      cases hopens
  rw [hpairs]
  exact ⟨fun h => h.2.1.2, fun h => ⟨hbody, ⟨hsources, h⟩, hdisjoint⟩⟩

end once

/-- The acts of a program are what is carried out, and in them every command that opens a window or
a grid is carried out once at most, exactly where no procedure with such a command is called for
two events of the form. -/
theorem carriedOutOnce_iff (config : Config) (source : String) :
    painted config source = (programScript config source).foldl
        (Act.perform (surroundings config source)) (emptyCanvas config.cells source) ∧
      (CarriedOutOnce config source ↔
        (formProcedures (surroundings config source)
          (statements (Program.read source).body)).Pairwise
            fun p q => p = q → ∀ s ∈ statements p.source, opens s = false) :=
  ⟨painted_eq_foldl config source, carriedOutOnce_iff_nodup.trans nodup_performed_iff⟩

/-- A program that calls a procedure when it starts and when a window is activated. -/
def twiceCalledBrowse : String :=
  "READ WHEN s() ACTIVATE s()\nPROCEDURE s\nBROWSE\nENDPROC\n"

/-- A procedure that browses and is called for two events browses twice. -/
theorem not_carriedOutOnce : ¬CarriedOutOnce {} twiceCalledBrowse := fun h =>
  absurd h.total (by decide +kernel)

end Screen

end ScreenForms
