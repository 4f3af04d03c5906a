import ScreenForms.Proofs.BoundCode

/-!
# The acts of a program

A program is carried out as a list of acts that its text alone decides (`programScript`): the
statements of the main body in order, where a read command stands for the clauses that it binds,
each with the statements of the procedure that it calls. A clause is bound when no earlier read
command has one for its event. So the statements that are carried out are those of the main body,
and those of a procedure as often as it is called for an event of the form (`performed_perm`).
-/

namespace ScreenForms

namespace Screen

open Canvas (Accounts Orderly Steps)

/-! ## Acts -/

/-- What is done in one go. -/
inductive Act where
  /-- a statement of the main body; a read command by itself changes nothing -/
  | main (s : Statement)
  /-- a clause is bound to an event of the form -/
  | bind (event : String) (clause : Clause)
  /-- a statement of a procedure that a clause calls -/
  | nested (s : Statement)

namespace Act

/-- The statement that an act carries out. -/
def statement? : Act → Option Statement
  | .main s => some s
  | .bind _ _ => none
  | .nested s => some s

/-- The canvas behind an act. -/
def perform (env : Surroundings) (c : Canvas) : Act → Canvas
  | .main s =>
    match Command.ofText? s.text with
    | some (.paint rest) => paint env s.line rest c
    | _ => carryOutNested env c s
  | .bind event clause =>
    (c.noteBound env clause.argument).bind
      ⟨formOwner, event, env.boundCode clause.keyword clause.argument⟩
  | .nested s => carryOutNested env c s

end Act

/-- The statements that are carried out when a clause is bound. -/
def calledStatements (env : Surroundings) (clause? : Option Clause) : List Statement :=
  match clause?.bind fun clause => env.calledProcedure? clause.argument with
  | none => []
  | some p => statements p.source

/-- The acts of a clause for an event, if there is one. -/
def boundActs (env : Surroundings) (event : String) (clause? : Option Clause) : List Act :=
  match clause? with
  | none => []
  | some clause => .bind event clause :: (calledStatements env clause?).map .nested

/-- A clause counts when there is none for its event yet. -/
def newClause? (first : String → Option Clause) (event : String) (clause? : Option Clause) :
    Option Clause :=
  if (first event).isSome then none else clause?

/-- Whether a statement is a read command. -/
def isRead (s : Statement) : Bool :=
  match Command.ofText? s.text with
  | some (.read _) => true
  | _ => false

/-- The acts of a statement behind others with some clauses for the events of the form. -/
def statementActs (env : Surroundings) (first : String → Option Clause) (s : Statement) :
    List Act :=
  if isRead s then
    readEvents.flatMap fun entry =>
      boundActs env entry.1 (newClause? first entry.1 (readClause? entry.1 s))
  else [.main s]

/-- The acts of some statements. -/
def script (env : Surroundings) : (String → Option Clause) → List Statement → List Act
  | _, [] => []
  | first, s :: body =>
    statementActs env first s ++
      script env (fun event => (first event).or (readClause? event s)) body

/-- The acts of a program. -/
def programScript (config : Config) (source : String) : List Act :=
  script (surroundings config source) (fun _ => none) (statements (Program.read source).body)

/-! ## The script is what is carried out -/

section foldl

variable {env : Surroundings} {c : Canvas} {fields : List Clause}
  {first first' : String → Option Clause} {log : List (EventBinding × Clause)}
  {clauses : Clauses}

theorem foldl_nested (ss : List Statement) (c : Canvas) :
    (ss.map Act.nested).foldl (Act.perform env) c = ss.foldl (carryOutNested env) c := by
  rw [List.foldl_map]
  rfl

/-- An event of the form is bound by the acts of its clause, unless it has code already. -/
theorem bindFormEvent_eq (h : Accounts env fields first c log) (horderly : c.Orderly)
    (entry : String × List String) :
    bindFormEvent env clauses c entry =
      (boundActs env entry.1 (newClause? first entry.1
        (eventClause? clauses entry.1 entry))).foldl (Act.perform env) c := by
  have hcode : (c.events.code? formOwner entry.1).isSome ↔ (first entry.1).isSome :=
    (h.logs.isSome_code?_iff horderly entry.1).trans (h.form entry.1).symm
  rw [bindFormEvent, eventClause?, if_pos rfl]
  rcases firstClause? clauses entry.2 with _ | ⟨keyword, argument⟩
  · simp [newClause?, boundActs]
  · by_cases hfirst : (first entry.1).isSome
    · simp [newClause?, boundActs, hfirst, hcode.mpr hfirst]
    · have hnone : ¬(c.events.code? formOwner entry.1).isSome := mt hcode.mp hfirst
      rcases hcalled : env.calledProcedure? argument with _ | p
      · simp [newClause?, boundActs, hfirst, hnone, calledStatements, hcalled, Act.perform]
      · simp [newClause?, boundActs, hfirst, hnone, calledStatements, hcalled, Act.perform,
          foldl_nested]

theorem eventClause?_of_ne {event : String} {entry : String × List String}
    (hne : entry.1 ≠ event) : eventClause? clauses event entry = none :=
  if_neg hne

/-- The events of the form do not disturb each other. Each is bound at most once in a command, so
that what the others add does not change whether it is taken. -/
theorem foldl_bindFormEvent {entries : List (String × List String)}
    (hnodup : (entries.map Prod.fst).Nodup) (h : Accounts env fields first' c log)
    (horderly : c.Orderly) (hsame : ∀ e ∈ entries, (first' e.1).isSome = (first e.1).isSome) :
    entries.foldl (bindFormEvent env clauses) c =
      (entries.flatMap fun entry => boundActs env entry.1 (newClause? first entry.1
        (eventClause? clauses entry.1 entry))).foldl (Act.perform env) c := by
  induction entries generalizing c first' log with
  | nil => rfl
  | cons entry entries ih =>
    obtain ⟨hentry, hentries⟩ := List.forall_mem_cons.mp hsame
    obtain ⟨hnotMem, hrest⟩ := List.nodup_cons.mp hnodup
    obtain ⟨log', h'⟩ := h.bindFormEvent horderly clauses entry
    have hsame' : ∀ e ∈ entries,
        ((first' e.1).or (eventClause? clauses e.1 entry)).isSome = (first e.1).isSome := by
      intro e he
      have hne : entry.1 ≠ e.1 := fun heq => hnotMem (heq ▸ List.mem_map_of_mem he)
      rw [eventClause?_of_ne hne, Option.or_none]
      exact hentries e he
    have hnew : newClause? first entry.1 = newClause? first' entry.1 := by
      unfold newClause?
      rw [hentry]
    rw [List.foldl_cons, List.flatMap_cons, List.foldl_append, hnew,
      ← bindFormEvent_eq h horderly entry]
    exact ih hrest h' (horderly.steps (steps_bindFormEvent env clauses c entry)) hsame'

theorem findSome?_eventClause? {entries : List (String × List String)}
    (hnodup : (entries.map Prod.fst).Nodup) {entry : String × List String} (h : entry ∈ entries) :
    entries.findSome? (eventClause? clauses entry.1) = eventClause? clauses entry.1 entry := by
  induction entries with
  | nil => cases h
  | cons e entries ih =>
    obtain ⟨hnotMem, hrest⟩ := List.nodup_cons.mp hnodup
    rcases List.mem_cons.mp h with rfl | h
    · have hnone : entries.findSome? (eventClause? clauses entry.1) = none :=
        List.findSome?_eq_none_iff.mpr fun e he =>
          eventClause?_of_ne fun heq => hnotMem (heq ▸ List.mem_map_of_mem he)
      rw [List.findSome?_cons, hnone]
      cases eventClause? clauses entry.1 entry <;> rfl
    · have hne : e.1 ≠ entry.1 := fun heq => hnotMem (heq ▸ List.mem_map_of_mem h)
      rw [List.findSome?_cons, eventClause?_of_ne hne]
      exact ih hrest h

/-- A read command has the clause of an event in the entry of the event. -/
theorem readClause?_of_mem {s : Statement} {rest : List Char}
    (hread : Command.ofText? s.text = some (.read rest)) {entry : String × List String}
    (hentry : entry ∈ readEvents) :
    readClause? entry.1 s = eventClause? (Clauses.parse readKeywords rest) entry.1 entry := by
  rw [readClause?, hread]
  exact findSome?_eventClause? (by decide) hentry

theorem carryOut_eq_foldl (h : Accounts env fields first c log) (horderly : c.Orderly)
    (s : Statement) :
    carryOut env c s = (statementActs env first s).foldl (Act.perform env) c := by
  unfold statementActs isRead
  split
  · next rest hcommand =>
    have hacts : (readEvents.flatMap fun entry => boundActs env entry.1
        (newClause? first entry.1 (readClause? entry.1 s))) =
        readEvents.flatMap fun entry => boundActs env entry.1 (newClause? first entry.1
          (eventClause? (Clauses.parse readKeywords rest) entry.1 entry)) :=
      List.flatMap_congr fun entry hentry => by rw [readClause?_of_mem hcommand hentry]
    rw [if_pos rfl, hacts, ← foldl_bindFormEvent (by decide) h horderly fun _ _ => rfl, carryOut,
      hcommand]
    rfl
  · next hread =>
    rw [if_neg Bool.false_ne_true]
    show carryOut env c s = Act.perform env c (.main s)
    unfold carryOut
    split
    · next hpaint => simp only [Act.perform, hpaint]
    · next rest hcommand => exact absurd hcommand (hread rest)
    · simp only [Act.perform]

theorem foldl_carryOut_eq (h : Accounts env fields first c log) (horderly : c.Orderly)
    (body : List Statement) :
    body.foldl (carryOut env) c = (script env first body).foldl (Act.perform env) c := by
  induction body generalizing c fields first log with
  | nil => rfl
  | cons s body ih =>
    obtain ⟨log', h'⟩ := h.carryOut horderly s
    rw [List.foldl_cons, script, List.foldl_append, ← carryOut_eq_foldl h horderly s]
    exact ih h' (horderly.steps (steps_carryOut env c s))

end foldl

/-- The acts of a program are what is carried out. -/
theorem painted_eq_foldl (config : Config) (source : String) : painted config source =
    (programScript config source).foldl (Act.perform (surroundings config source))
      (emptyCanvas config.cells source) := by
  obtain ⟨log, h⟩ := @Canvas.accounts_foldl (surroundings config source) _
    (orderly_emptyCanvas config.cells source) (Canvas.logs_emptyCanvas config.cells source) []
  exact foldl_carryOut_eq h (orderly_emptyCanvas config.cells source) _

/-! ## What is carried out -/

/-- The procedures that are called for the events of the form. -/
def formProcedures (env : Surroundings) (body : List Statement) : List Procedure :=
  readEvents.filterMap fun entry =>
    (body.findSome? (readClause? entry.1)).bind fun clause => env.calledProcedure? clause.argument

section performed

variable {env : Surroundings}

/-- The statements that some acts carry out. -/
def performed (acts : List Act) : List Statement := acts.filterMap Act.statement?

theorem performed_append (acts acts' : List Act) :
    performed (acts ++ acts') = performed acts ++ performed acts' :=
  List.filterMap_append

theorem performed_flatMap {α : Type} (l : List α) (f : α → List Act) :
    performed (l.flatMap f) = l.flatMap fun a => performed (f a) :=
  List.filterMap_flatMap

theorem performed_boundActs (event : String) (clause? : Option Clause) :
    performed (boundActs env event clause?) = calledStatements env clause? := by
  cases clause? with
  | none => rfl
  | some clause =>
    rw [boundActs, performed, List.filterMap_cons_none rfl, List.filterMap_map]
    exact List.filterMap_some

theorem readClause?_of_not_isRead {s : Statement} (h : isRead s = false) (event : String) :
    readClause? event s = none := by
  unfold isRead at h
  unfold readClause?
  split
  · next hcommand => simp [hcommand] at h
  · rfl

theorem performed_statementActs (first : String → Option Clause) (s : Statement) :
    performed (statementActs env first s) = [s].filter (fun s => !isRead s) ++
      readEvents.flatMap fun entry =>
        calledStatements env (newClause? first entry.1 (readClause? entry.1 s)) := by
  unfold statementActs
  rcases hread : isRead s with _ | _
  · simp [hread, readClause?_of_not_isRead hread, newClause?, calledStatements, performed,
      Act.statement?]
  · simp [hread, performed_flatMap, performed_boundActs]

/-- A clause for an event is in the first statement or in those behind it. -/
theorem calledStatements_cons (first : String → Option Clause) (event : String) (s : Statement)
    (body : List Statement) :
    calledStatements env (newClause? first event ((s :: body).findSome? (readClause? event))) =
      calledStatements env (newClause? first event (readClause? event s)) ++
        calledStatements env (newClause? (fun event => (first event).or (readClause? event s)) event
          (body.findSome? (readClause? event))) := by
  rw [List.findSome?_cons]
  rcases hfirst : first event with _ | _ <;> rcases hs : readClause? event s with _ | _ <;>
    simp [newClause?, hfirst, hs, calledStatements]

/-- The statements of the main body are carried out once each, and those of a procedure once for
each event for which it is called. -/
theorem performed_script_perm (first : String → Option Clause) (body : List Statement) :
    (performed (script env first body)).Perm (body.filter (fun s => !isRead s) ++
      readEvents.flatMap fun entry => calledStatements env
        (newClause? first entry.1 (body.findSome? (readClause? entry.1)))) := by
  induction body generalizing first with
  | nil => simp [script, performed, newClause?, calledStatements]
  | cons s body ih =>
    have hfilter : (s :: body).filter (fun s => !isRead s) =
        [s].filter (fun s => !isRead s) ++ body.filter (fun s => !isRead s) :=
      List.filter_append [s] body
    rw [script, performed_append, performed_statementActs, hfilter]
    simp only [calledStatements_cons]
    refine ((ih _).append_left _).trans ?_
    rw [List.append_assoc, List.append_assoc]
    refine List.Perm.append_left _ ((List.perm_append_comm_assoc _ _ _).trans ?_)
    exact (List.flatMap_append_perm _ _ _).append_left _

/-- The statements that a program carries out. -/
theorem performed_programScript_perm (config : Config) (source : String) :
    (performed (programScript config source)).Perm
      ((statements (Program.read source).body).filter (fun s => !isRead s) ++
        (formProcedures (surroundings config source)
          (statements (Program.read source).body)).flatMap fun p => statements p.source) := by
  have hcalled : ∀ clause? : Option Clause, calledStatements (surroundings config source) clause? =
      (clause?.bind fun clause => (surroundings config source).calledProcedure?
        clause.argument).toList.flatMap fun p => statements p.source := by
    intro clause?
    unfold calledStatements
    split <;> simp [*]
  refine (performed_script_perm _ _).trans (.of_eq (congrArg _ ?_))
  simp only [newClause?, Option.isSome_none, Bool.false_eq_true, if_false, hcalled, formProcedures]
  rw [List.filterMap_eq_flatMap_toList, List.flatMap_assoc]

end performed

end Screen

end ScreenForms
