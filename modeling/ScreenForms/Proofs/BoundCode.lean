import ScreenForms.Proofs.CanvasNames
import ScreenForms.Proofs.Commands
import ScreenForms.Proofs.EventRuns
import ScreenForms.Proofs.KeptCode

/-!
# What clauses bind

Code is bound by the clauses of fields and by those of read commands, and for every event of the
form only the first read command counts that has a clause for it (`bindingClauses`). What a canvas
holds of code is told by a log of its bindings, each with its clause (`Canvas.Logs`). A field adds
to the log what its clauses say for each of its controls, a read command adds to it what the form
has no code for yet, and no other command adds anything. So where ids are distinct the code of all
events is what the binding clauses bind, and the procedures that count as bound are the ones that
the clauses call.
-/

namespace ScreenForms

namespace Screen

open NameRegistry

/-! ## Binding clauses -/

/-- The clauses that validate a field and run when it is entered. -/
def guardClauses (clauses : Clauses) : List Clause :=
  ["VALID", "WHEN"].filterMap fun keyword => (clauses.get? keyword).map (Clause.mk keyword)

/-- The clauses that a statement binds to a field that it paints. -/
def fieldClauses (env : Surroundings) (s : Statement) : List Clause :=
  match Command.ofText? s.text with
  | some (.paint rest) =>
    let clauses := Clauses.parse paintKeywords rest
    if (env.pair? clauses.head).isSome ∧ clauses.list.head?.map Clause.keyword = some "GET" then
      guardClauses clauses
    else []
  | _ => []

/-- The clause of some clauses that binds an event of the form. -/
def eventClause? (clauses : Clauses) (event : String) (entry : String × List String) :
    Option Clause :=
  if entry.1 = event then
    (firstClause? clauses entry.2).map fun found => ⟨found.1, found.2⟩
  else none

/-- The clause of a read command for an event of the form. -/
def readClause? (event : String) (s : Statement) : Option Clause :=
  match Command.ofText? s.text with
  | some (.read rest) =>
    readEvents.findSome? (eventClause? (Clauses.parse readKeywords rest) event)
  | _ => none

/-- The clauses that bind code: those of all fields, and for every event of the form the first one
that a read command has for it. -/
def bindingClauses (env : Surroundings) (body : List Statement) : List Clause :=
  body.flatMap (fieldClauses env) ++
    readEvents.filterMap fun entry => body.findSome? (readClause? entry.1)

/-- Code is bound by the clauses of fields, and for each event of the form by the first clause that
is given for it. -/
theorem mem_bindingClauses_iff {env : Surroundings} {body : List Statement} {clause : Clause} :
    clause ∈ bindingClauses env body ↔
      clause ∈ body.flatMap (fieldClauses env) ∨
        ∃ event, body.findSome? (readClause? event) = some clause := by
  rw [bindingClauses, List.mem_append, List.mem_filterMap]
  refine or_congr_right ⟨fun ⟨entry, _, h⟩ => ⟨entry.1, h⟩, fun ⟨event, h⟩ => ?_⟩
  -- a read command has clauses for the events of the form only
  obtain ⟨s, -, hs⟩ := List.exists_of_findSome?_eq_some h
  unfold readClause? at hs
  split at hs
  · obtain ⟨entry, hentry, hclause⟩ := List.exists_of_findSome?_eq_some hs
    obtain ⟨rfl, -⟩ := Option.ite_none_right_eq_some.mp hclause
    exact ⟨entry, hentry, h⟩
  · cases hs

variable {env : Surroundings} {c c' : Canvas} {log : List (EventBinding × Clause)}

namespace Canvas

/-- A step only adds controls at the end. -/
theorem Step.controls_prefix (h : Step env c c') : c.controls <+: c'.controls := by
  cases h with
  | quiet hquiet =>
    rw [hquiet]
  | aim => exact List.prefix_rfl
  | draw hdrawn =>
    rw [← hdrawn.controls_eq]
    exact List.prefix_append _ _
  | form => exact List.prefix_rfl
  | container => exact List.prefix_append _ _
  | browse => exact List.prefix_append _ _

/-- Controls are only ever added. -/
theorem Steps.controls_prefix (h : Steps env c c') : c.controls <+: c'.controls := by
  induction h with
  | refl => exact List.prefix_rfl
  | tail _ hstep ih => exact ih.trans hstep.controls_prefix

/-! ## The log of a canvas -/

/-- The bindings of a canvas in the order in which they were stored, each with the clause that it
comes from. -/
structure Logs (env : Surroundings) (c : Canvas) (log : List (EventBinding × Clause)) : Prop where
  events : c.events = EventMap.after ((log.map Prod.fst).map .bind)
  bound : ∀ name, name ∈ c.bound ↔
    ∃ l ∈ log, ∃ p, env.calledProcedure? l.2.argument = some p ∧ fold p.name = name
  code : ∀ l ∈ log, l.1.code = env.boundCode l.2.keyword l.2.argument
  owner : ∀ l ∈ log, l.1.owner = formOwner ∨ l.1.owner ∈ c.controls.map Control.id
  pairs : (c.controls.map Control.id).Nodup → ((log.map Prod.fst).map EventBinding.pair).Nodup

/-- Nothing has been bound on the empty canvas. -/
theorem logs_emptyCanvas (cells : CellMetrics) (source : String) :
    (emptyCanvas cells source).Logs env [] :=
  ⟨rfl, by simp [emptyCanvas], nofun, nofun, fun _ => .nil⟩

/-- Commands that bind no code leave the log as it is. -/
theorem Logs.of_code (h : c.Logs env log) (hcode : c'.code = c.code) (hsteps : Steps env c c') :
    c'.Logs env log := by
  have hids := hsteps.controls_prefix.map Control.id
  refine ⟨?_, ?_, h.code, fun l hl => (h.owner l hl).imp_right (hids.subset ·), fun hnodup => ?_⟩
  · rw [events_eq_of_code_eq hcode, h.events]
  · rw [bound_eq_of_code_eq hcode]
    exact h.bound
  · exact h.pairs (hnodup.sublist hids.sublist)

/-- Every id on an orderly canvas is the hash of some content. -/
theorem Orderly.exists_contentId (h : c.Orderly) {id : ControlId}
    (hid : id ∈ c.controls.map Control.id) : ∃ content, id = contentId content := by
  rw [h.ids] at hid
  obtain ⟨content, -, rfl⟩ := List.mem_map.mp hid
  exact ⟨content, rfl⟩

/-- No hash is the id of the form: hashes begin with another letter. -/
theorem formOwner_ne_contentId (content : List UInt8) : formOwner ≠ contentId content := by
  intro h
  have hchars := congrArg (fun s : ControlId => s.toList.head?) h
  simp [contentId, formOwner] at hchars

/-- Neither the form nor a control has an underscore in its id, so keys stand for pairs. -/
theorem Logs.plainOwners (h : c.Logs env log) (horderly : c.Orderly) :
    ∀ b, .bind b ∈ (log.map Prod.fst).map EventMap.Change.bind →
      b.pair ∈ {p | '_' ∉ p.1.toList} := by
  intro b hb
  simp only [List.mem_map, EventMap.Change.bind.injEq, exists_eq_right] at hb
  obtain ⟨l, hl, rfl⟩ := hb
  rcases h.owner l hl with howner | howner
  · show '_' ∉ l.1.owner.toList
    rw [howner]
    decide
  · obtain ⟨content, hcontent⟩ := horderly.exists_contentId howner
    show '_' ∉ l.1.owner.toList
    rw [hcontent]
    exact underscore_not_mem_contentId content

/-- An event of the form has code exactly where the log has an entry for it. Entries of controls
cannot be mistaken for one, since their ids are hashes. -/
theorem Logs.isSome_code?_iff (h : c.Logs env log) (horderly : c.Orderly) (event : String) :
    (c.events.code? formOwner event).isSome ↔ ∃ l ∈ log, l.1.pair = (formOwner, event) := by
  have hmap := EventMap.separated_plainOwners.isPairMap (h.plainOwners horderly)
  have hform : (formOwner, event) ∈ {p : ControlId × String | '_' ∉ p.1.toList} := by
    show '_' ∉ formOwner.toList
    decide
  rw [h.events, hmap.code _ hform, Option.isSome_map, EventMap.isSome_lastKept_bind]
  simp

/-- Where ids are distinct the events hold what the log says. -/
theorem Logs.mem_values_iff (h : c.Logs env log) (horderly : c.Orderly)
    (hids : (c.controls.map Control.id).Nodup) {b : EventBinding} :
    b ∈ c.events.values ↔ b ∈ log.map Prod.fst := by
  rw [h.events, EventMap.separated_plainOwners.mem_values (h.plainOwners horderly)]
  constructor
  · intro hb
    simpa using (EventMap.label_of_lastKept _ _ hb).2
  · exact EventMap.lastKept_bind_of_nodup _ (h.pairs hids)

/-! ## Binding code -/

/-- The name of a procedure is noted where the clause calls one, and other names stay. -/
theorem mem_bound_noteBound {argument : List Char} {name : String} :
    name ∈ (c.noteBound env argument).bound ↔
      name ∈ c.bound ∨ ∃ p, env.calledProcedure? argument = some p ∧ fold p.name = name := by
  unfold noteBound
  split
  · next p hp => simp [hp, or_comm, eq_comm]
  · next hp => simp [hp]

/-- More bindings, for other pairs, go behind the others. As no pair comes twice, none of them
replaces an earlier one, which is why the log can be read off the map. -/
theorem Logs.append (h : c.Logs env log) {added : List (EventBinding × Clause)}
    (hevents : c'.events = (added.map Prod.fst).foldl EventMap.bind c.events)
    (hbound : ∀ name, name ∈ c'.bound ↔ name ∈ c.bound ∨
      ∃ l ∈ added, ∃ p, env.calledProcedure? l.2.argument = some p ∧ fold p.name = name)
    (hcode : ∀ l ∈ added, l.1.code = env.boundCode l.2.keyword l.2.argument)
    (howner : ∀ l ∈ added, l.1.owner = formOwner ∨ l.1.owner ∈ c'.controls.map Control.id)
    (hcontrols : c.controls <+: c'.controls)
    (hpairs : (c'.controls.map Control.id).Nodup →
      ((added.map Prod.fst).map EventBinding.pair).Nodup ∧
        ∀ l ∈ log, ∀ l' ∈ added, l.1.pair ≠ l'.1.pair) : c'.Logs env (log ++ added) := by
  have hids := hcontrols.map Control.id
  refine ⟨?_, fun name => ?_, ?_, ?_, fun hnodup => ?_⟩
  · rw [hevents, h.events, List.map_append, List.map_append, EventMap.after_append_bind]
  · rw [hbound, h.bound]
    simp only [List.mem_append, or_and_right, exists_or]
  · exact List.forall_mem_append.mpr ⟨h.code, hcode⟩
  · exact List.forall_mem_append.mpr ⟨fun l hl => (h.owner l hl).imp_right (hids.subset ·), howner⟩
  · obtain ⟨hadded, hdisjoint⟩ := hpairs hnodup
    rw [List.map_append, List.map_append, List.nodup_append]
    refine ⟨h.pairs (hnodup.sublist hids.sublist), hadded, ?_⟩
    simp only [List.forall_mem_map]
    exact hdisjoint

/-- Code for an event of the form that has none yet. -/
theorem Logs.bindForm (h : c.Logs env log) {event : String}
    (hother : ∀ l ∈ log, l.1.pair ≠ (formOwner, event)) (keyword : String) (argument : List Char) :
    ((c.noteBound env argument).bind ⟨formOwner, event, env.boundCode keyword argument⟩).Logs env
      (log ++ [(⟨formOwner, event, env.boundCode keyword argument⟩, ⟨keyword, argument⟩)]) := by
  refine h.append ?_ (fun name => ?_) ?_ ?_ ?_ fun _ => ⟨List.nodup_singleton _, ?_⟩
  · exact congrArg (EventMap.bind · _) (events_noteBound argument)
  · simp only [List.mem_singleton, exists_eq_left]
    exact mem_bound_noteBound
  · simp
  · simp
  · exact (quiet_noteBound c env argument).keeps.controls ▸ List.prefix_rfl
  · intro l hl l' hl'
    obtain rfl := List.mem_singleton.mp hl'
    exact hother l hl

/-! ## What the log accounts for -/

/-- A log holds the clauses of some fields and the first clause for every event of the form. -/
structure Accounts (env : Surroundings) (fields : List Clause) (first : String → Option Clause)
    (c : Canvas) (log : List (EventBinding × Clause)) : Prop where
  logs : c.Logs env log
  clauses : ∀ clause, clause ∈ log.map Prod.snd ↔
    clause ∈ fields ∨ ∃ event, first event = some clause
  form : ∀ event, (first event).isSome ↔ ∃ l ∈ log, l.1.pair = (formOwner, event)

variable {fields : List Clause} {first : String → Option Clause} {clauses : Clauses}

/-- Steps that bind nothing leave the account as it is. -/
theorem Accounts.of_code (h : Accounts env fields first c log) (hcode : c'.code = c.code)
    (hsteps : Steps env c c') : Accounts env fields first c' log :=
  ⟨h.logs.of_code hcode hsteps, h.clauses, h.form⟩

/-- The first clause for an event of the form is added to the account, and from then on the event is
taken. -/
theorem Accounts.bindForm (h : Accounts env fields first c log) {event : String}
    (hfree : first event = none) (keyword : String) (argument : List Char) :
    Accounts env fields
      (fun e => (first e).or (if event = e then some ⟨keyword, argument⟩ else none))
      ((c.noteBound env argument).bind ⟨formOwner, event, env.boundCode keyword argument⟩)
      (log ++ [(⟨formOwner, event, env.boundCode keyword argument⟩, ⟨keyword, argument⟩)]) := by
  have hother : ∀ l ∈ log, l.1.pair ≠ (formOwner, event) := by
    intro l hl heq
    have hsome := (h.form event).mpr ⟨l, hl, heq⟩
    rw [hfree] at hsome
    cases hsome
  refine ⟨h.logs.bindForm hother keyword argument, fun clause => ?_, fun e => ?_⟩
  · rw [List.map_append, List.mem_append, h.clauses, or_assoc]
    refine or_congr_right ⟨?_, ?_⟩
    · rintro (⟨e, he⟩ | hnew)
      · exact ⟨e, by rw [he, Option.some_or]⟩
      · obtain rfl := List.mem_singleton.mp hnew
        exact ⟨event, by simp [hfree]⟩
    · rintro ⟨e, he⟩
      by_cases hevent : event = e
      · subst hevent
        exact .inr (by simpa [hfree, eq_comm] using he)
      · exact .inl ⟨e, by simpa [hevent] using he⟩
  · rw [Option.isSome_or, Bool.or_eq_true, h.form]
    simp [or_and_right, exists_or, EventBinding.pair]

/-- A clause for an event of the form counts when there is no code for the event yet. An account
says so in terms of the clauses, the program in terms of the map, and the two agree. -/
theorem Accounts.bindFormEvent (h : Accounts env fields first c log) (horderly : c.Orderly)
    (clauses : Clauses) (entry : String × List String) : ∃ log', Accounts env fields
      (fun event => (first event).or (eventClause? clauses event entry))
      (bindFormEvent env clauses c entry) log' := by
  unfold Screen.bindFormEvent
  split
  · next hnone => exact ⟨log, by simpa [eventClause?, hnone] using h⟩
  · next keyword argument hfound =>
    -- the event has code exactly where an earlier read command had a clause for it
    have hcode := h.logs.isSome_code?_iff horderly entry.1
    rw [← h.form] at hcode
    have hclause : (fun event => (first event).or (eventClause? clauses event entry)) =
        fun event => (first event).or
          (if entry.1 = event then some ⟨keyword, argument⟩ else none) := by
      simp [eventClause?, hfound]
    rw [hclause]
    split
    · next hsome =>
      have hfirst : (fun event => (first event).or
          (if entry.1 = event then some ⟨keyword, argument⟩ else none)) = first := by
        funext event
        by_cases he : entry.1 = event
        · obtain ⟨clause, hclause⟩ := Option.isSome_iff_exists.mp (hcode.mp hsome)
          rw [← he, hclause, Option.some_or]
        · simp [he]
      exact ⟨log, by rwa [hfirst]⟩
    · next hnone =>
      have hfree : first entry.1 = none := by
        rw [← Option.not_isSome_iff_eq_none, ← hcode]
        exact hnone
      have hbound := h.bindForm hfree keyword argument
      dsimp only
      split
      · exact ⟨_, hbound⟩
      · exact ⟨_, hbound.of_code (code_foldl_carryOutNested _)
          (Steps.foldl (fun c s => steps_carryOutNested env c s) _ _)⟩

/-! ## Fields -/

/-- What the clauses of a field bind for one of its controls. -/
def fieldLog (env : Surroundings) (clauses : Clauses) (kind : FieldKind) (id : ControlId) :
    List (EventBinding × Clause) :=
  (guardClauses clauses).map fun clause =>
    (⟨id, if clause.keyword = "VALID" then kind.validEvent else "GotFocus",
      env.boundCode clause.keyword clause.argument⟩, clause)

/-- The entries for a field are its bindings, each with the clause it comes from. -/
theorem map_fst_fieldLog (kind : FieldKind) (id : ControlId) :
    (fieldLog env clauses kind id).map Prod.fst = fieldBindings env clauses kind id := by
  rcases hvalid : clauses.get? "VALID" with _ | valid <;>
    rcases hwhen : clauses.get? "WHEN" with _ | entered <;>
    simp [fieldLog, guardClauses, fieldBindings, hvalid, hwhen]

/-- And their clauses are those of the field. -/
theorem map_snd_fieldLog (kind : FieldKind) (id : ControlId) :
    (fieldLog env clauses kind id).map Prod.snd = guardClauses clauses := by
  simp [fieldLog, Function.comp_def]

/-- The two clauses of a field bind different events. -/
theorem nodup_pairs_fieldLog (kind : FieldKind) (id : ControlId) :
    (((fieldLog env clauses kind id).map Prod.fst).map EventBinding.pair).Nodup := by
  have hevents : kind.validEvent ≠ "GotFocus" := by cases kind <;> decide
  rw [map_fst_fieldLog]
  rcases hvalid : clauses.get? "VALID" with _ | valid <;>
    rcases hwhen : clauses.get? "WHEN" with _ | entered <;>
    simp [fieldBindings, hvalid, hwhen, EventBinding.pair, hevents]

/-- What the clauses of a field bind for all of its controls. -/
def fieldLogs (env : Surroundings) (clauses : Clauses) (kind : FieldKind) (made : List Control) :
    List (EventBinding × Clause) :=
  made.flatMap fun d => fieldLog env clauses kind d.id

section fieldLogs

variable {kind : FieldKind} {made : List Control}

/-- The same for a field that is drawn as several controls: each of them gets the bindings. -/
theorem map_fst_fieldLogs : (fieldLogs env clauses kind made).map Prod.fst =
    made.flatMap fun d => fieldBindings env clauses kind d.id := by
  simp only [fieldLogs, List.map_flatMap, map_fst_fieldLog]

/-- Their clauses are the same for all of them, so it suffices that there is one. -/
theorem mem_map_snd_fieldLogs (hmade : made ≠ []) {clause : Clause} :
    clause ∈ (fieldLogs env clauses kind made).map Prod.snd ↔ clause ∈ guardClauses clauses := by
  simp only [fieldLogs, List.map_flatMap, map_snd_fieldLog, List.mem_flatMap]
  exact ⟨fun ⟨_, _, hclause⟩ => hclause, fun hclause => ⟨_, List.head_mem hmade, hclause⟩⟩

/-- Each entry belongs to one of the controls. -/
theorem owner_of_mem_fieldLogs {l : EventBinding × Clause}
    (hl : l ∈ fieldLogs env clauses kind made) : ∃ d ∈ made, l.1.owner = d.id := by
  obtain ⟨d, hd, hl⟩ := List.mem_flatMap.mp hl
  obtain ⟨clause, -, rfl⟩ := List.mem_map.mp hl
  exact ⟨d, hd, rfl⟩

/-- And its code is what its clause binds. -/
theorem code_of_mem_fieldLogs {l : EventBinding × Clause}
    (hl : l ∈ fieldLogs env clauses kind made) :
    l.1.code = env.boundCode l.2.keyword l.2.argument := by
  obtain ⟨d, -, hl⟩ := List.mem_flatMap.mp hl
  obtain ⟨clause, -, rfl⟩ := List.mem_map.mp hl
  rfl

/-- No event is bound twice: a clause has one event, and the controls have different ids. -/
theorem nodup_pairs_fieldLogs (hids : (made.map Control.id).Nodup) :
    (((fieldLogs env clauses kind made).map Prod.fst).map EventBinding.pair).Nodup := by
  have howner : ∀ d : Control, ∀ p ∈ ((fieldLog env clauses kind d.id).map Prod.fst).map
      EventBinding.pair, p.1 = d.id := by
    simp [fieldLog, EventBinding.pair]
  rw [fieldLogs, List.map_flatMap, List.map_flatMap, List.nodup_flatMap]
  refine ⟨fun d _ => nodup_pairs_fieldLog kind d.id, ?_⟩
  refine (List.pairwise_map.mp hids).imp fun hne p hp hp' => hne ?_
  exact (howner _ p hp).symm.trans (howner _ p hp')

end fieldLogs

theorem events_foldl_bind (bs : List EventBinding) :
    (bs.foldl Canvas.bind c).events = bs.foldl EventMap.bind c.events := by
  induction bs generalizing c with
  | nil => rfl
  | cons b bs ih => exact ih

theorem bound_foldl_bind (bs : List EventBinding) : (bs.foldl Canvas.bind c).bound = c.bound := by
  induction bs generalizing c with
  | nil => rfl
  | cons b bs ih => exact ih

/-- The canvas when the clauses of a field have noted the procedures that they call. -/
def noteGuards (env : Surroundings) (clauses : Clauses) (c : Canvas) : Canvas :=
  ["VALID", "WHEN"].foldl (fun c keyword =>
    match clauses.get? keyword with
    | some argument => c.noteBound env argument
    | none => c) c

theorem events_noteGuards : (noteGuards env clauses c).events = c.events := by
  rcases hvalid : clauses.get? "VALID" with _ | valid <;>
    rcases hwhen : clauses.get? "WHEN" with _ | entered <;>
    simp [noteGuards, hvalid, hwhen, events_noteBound]

/-- All clauses of a field note the procedures they call. -/
theorem mem_bound_noteGuards {name : String} : name ∈ (noteGuards env clauses c).bound ↔
    name ∈ c.bound ∨ ∃ clause ∈ guardClauses clauses,
      ∃ p, env.calledProcedure? clause.argument = some p ∧ fold p.name = name := by
  rcases hvalid : clauses.get? "VALID" with _ | valid <;>
    rcases hwhen : clauses.get? "WHEN" with _ | entered <;>
    simp [noteGuards, guardClauses, hvalid, hwhen, mem_bound_noteBound, or_assoc]

/-- Every field has a control. -/
theorem paintField_ne_nil (picture : Picture) (kind : FieldKind) (field : List Char)
    (row column : Float) : (paintField env clauses picture kind field row column c).1 ≠ [] := by
  have hgroup : ∀ controlKind horizontal size, (paintGroup env controlKind horizontal size row
      column field 0 (Text.splitOn ';' picture.payload) c).1 ≠ [] := by
    intro controlKind horizontal size
    obtain ⟨raw, rest, hsplit⟩ :=
      List.exists_cons_of_ne_nil (Text.splitOn_ne_nil ';' picture.payload)
    rw [hsplit]
    exact List.cons_ne_nil _ _
  cases kind with
  | buttons => exact hgroup _ _ _
  | radios => exact hgroup _ _ _
  | checkbox => exact List.cons_ne_nil _ _
  | combobox => exact List.cons_ne_nil _ _
  | spinner => exact List.cons_ne_nil _ _
  | textbox =>
    unfold paintField
    dsimp only
    split <;> exact List.cons_ne_nil _ _

/-- New controls with the bindings of a field. Each of them has a new id, so that its bindings are
for pairs that no earlier binding was for. -/
theorem Accounts.field (h : Accounts env fields first c log) (horderly : c'.Orderly)
    {made : List Control} (hmade : made ≠ []) (kind : FieldKind)
    (hcontrols : c'.controls = c.controls ++ made)
    (hevents : c'.events =
      (made.flatMap fun d => fieldBindings env clauses kind d.id).foldl EventMap.bind c.events)
    (hbound : ∀ name, name ∈ c'.bound ↔ name ∈ c.bound ∨ ∃ clause ∈ guardClauses clauses,
      ∃ p, env.calledProcedure? clause.argument = some p ∧ fold p.name = name) :
    ∃ log', Accounts env (fields ++ guardClauses clauses) first c' log' := by
  have hid : ∀ d ∈ made, d.id ∈ c'.controls.map Control.id := by
    intro d hd
    rw [hcontrols]
    exact List.mem_map_of_mem (List.mem_append_right _ hd)
  have hform : ∀ d ∈ made, formOwner ≠ d.id := by
    intro d hd
    obtain ⟨content, hcontent⟩ := horderly.exists_contentId (hid d hd)
    exact hcontent ▸ formOwner_ne_contentId content
  refine ⟨log ++ fieldLogs env clauses kind made,
    h.logs.append ?_ ?_ (fun l hl => code_of_mem_fieldLogs hl) ?_ ?_ ?_, fun clause => ?_,
    fun event => ?_⟩
  · rw [hevents, map_fst_fieldLogs]
  · intro name
    rw [hbound]
    refine or_congr_right ⟨?_, ?_⟩
    · rintro ⟨clause, hclause, hcalled⟩
      have hlogged : clause ∈ (fieldLogs env clauses kind made).map Prod.snd :=
        (mem_map_snd_fieldLogs hmade).mpr hclause
      obtain ⟨l, hl, rfl⟩ := List.mem_map.mp hlogged
      exact ⟨l, hl, hcalled⟩
    · rintro ⟨l, hl, hcalled⟩
      exact ⟨l.2, (mem_map_snd_fieldLogs hmade).mp (List.mem_map_of_mem hl), hcalled⟩
  · intro l hl
    obtain ⟨d, hd, hl⟩ := owner_of_mem_fieldLogs hl
    exact .inr (hl ▸ hid d hd)
  · exact hcontrols ▸ List.prefix_append _ _
  · -- the new controls have new ids, so no pair was bound before
    intro hnodup
    rw [hcontrols, List.map_append, List.nodup_append] at hnodup
    obtain ⟨-, hids, hdisjoint⟩ := hnodup
    refine ⟨nodup_pairs_fieldLogs hids, fun l hl l' hl' heq => ?_⟩
    obtain ⟨d, hd, hl'⟩ := owner_of_mem_fieldLogs hl'
    have heq : l.1.owner = d.id := (congrArg Prod.fst heq).trans hl'
    rcases h.logs.owner l hl with hform' | hcontrol
    · exact hform d hd (hform'.symm.trans heq)
    · exact hdisjoint _ hcontrol _ (List.mem_map_of_mem hd) heq
  · rw [List.map_append, List.mem_append, h.clauses, mem_map_snd_fieldLogs hmade, List.mem_append,
      or_right_comm]
  · rw [h.form]
    simp only [List.mem_append, or_and_right, exists_or]
    refine (or_iff_left ?_).symm
    rintro ⟨l, hl, heq⟩
    obtain ⟨d, hd, hl⟩ := owner_of_mem_fieldLogs hl
    exact hform d hd ((congrArg Prod.fst heq).symm.trans hl)

theorem controls_noteGuards : (noteGuards env clauses c).controls = c.controls := by
  refine (Quiet.foldl (fun c keyword => ?_) _ c).keeps.controls
  split
  · exact quiet_noteBound c env _
  · exact .refl c

/-- A field adds controls and stores their bindings. -/
theorem exists_paintGet_eq (row column : Float) : ∃ kind made c₁, made ≠ [] ∧
    c₁.code = (noteGuards env clauses c).code ∧ c₁.controls = c.controls ∧
      paintGet env clauses row column c = ((made.flatMap fun d =>
        fieldBindings env clauses kind d.id).foldl Canvas.bind c₁).add made := by
  refine ⟨_, _, _, ?_, ?_, ?_, rfl⟩
  · exact mt List.map_eq_nil_iff.mp (paintField_ne_nil _ _ _ row column)
  · exact code_paintField _ _ _
  · exact (drawn_paintField env clauses row column _ _ _ _).controls_eq.trans controls_noteGuards

/-- A field adds its clauses to the account, with an entry for each control it is drawn as. -/
theorem Accounts.get (h : Accounts env fields first c log) (horderly : c.Orderly)
    (row column : Float) : ∃ log', Accounts env (fields ++ guardClauses clauses) first
      (paintGet env clauses row column c) log' := by
  have hafter := horderly.steps (steps_paintGet env clauses row column c)
  obtain ⟨kind, made, c₁, hmade, hcode, hcontrols, heq⟩ :=
    @exists_paintGet_eq env c clauses row column
  refine h.field hafter hmade kind ?_ ?_ fun name => ?_
  · rw [heq]
    exact congrArg (· ++ made) ((Quiet.foldl quiet_bind _ c₁).keeps.controls.trans hcontrols)
  · have hevents : c₁.events = c.events := (events_eq_of_code_eq hcode).trans events_noteGuards
    rw [heq, ← hevents]
    exact events_foldl_bind _
  · have hbound : (paintGet env clauses row column c).bound = (noteGuards env clauses c).bound := by
      rw [heq]
      exact (bound_foldl_bind _).trans (bound_eq_of_code_eq hcode)
    rw [hbound]
    exact mem_bound_noteGuards

/-- A read command adds the clauses for those events of the form that have none yet. The induction is
on the events, with the account as it stands behind the ones before. -/
theorem Accounts.read (h : Accounts env fields first c log) (horderly : c.Orderly)
    (clauses : Clauses) (entries : List (String × List String)) : ∃ log', Accounts env fields
      (fun event => (first event).or (entries.findSome? (eventClause? clauses event)))
      (entries.foldl (Screen.bindFormEvent env clauses) c) log' := by
  induction entries generalizing c first log with
  | nil => exact ⟨log, by simpa using h⟩
  | cons entry entries ih =>
    obtain ⟨log', h'⟩ := h.bindFormEvent horderly clauses entry
    obtain ⟨log'', h''⟩ := ih h' (horderly.steps (steps_bindFormEvent env clauses c entry))
    have hcons : ∀ event, (entry :: entries).findSome? (eventClause? clauses event) =
        (eventClause? clauses event entry).or (entries.findSome? (eventClause? clauses event)) := by
      intro event
      rw [List.findSome?_cons]
      cases eventClause? clauses event entry <;> rfl
    refine ⟨log'', ?_⟩
    simp only [hcons, ← Option.or_assoc]
    exact h''

/-! ## Statements -/

/-- A statement without binding clauses adds nothing. -/
theorem Accounts.still (h : Accounts env fields first c log) {s : Statement}
    (hcode : c'.code = c.code) (hsteps : Steps env c c') (hfields : fieldClauses env s = [])
    (hread : ∀ event, readClause? event s = none) :
    Accounts env (fields ++ fieldClauses env s)
      (fun event => (first event).or (readClause? event s)) c' log := by
  simp only [hfields, List.append_nil, hread, Option.or_none]
  exact h.of_code hcode hsteps

/-- Of the paint commands only those with a field bind code. What is said, boxes and commands that
cannot be read leave the account as it is. -/
theorem Accounts.paint (h : Accounts env fields first c log) (horderly : c.Orderly)
    {s : Statement} {rest : List Char} (hpaint : Command.ofText? s.text = some (.paint rest)) :
    ∃ log', Accounts env (fields ++ fieldClauses env s)
      (fun event => (first event).or (readClause? event s)) (paint env s.line rest c) log' := by
  have hread : ∀ event, readClause? event s = none := by simp [readClause?, hpaint]
  unfold Screen.paint
  dsimp only
  split
  · next hpair =>
    refine ⟨log, h.still (code_warn _ _ _) (.single (.quiet rfl)) ?_ hread⟩
    simp [fieldClauses, hpaint, hpair]
  · next row column hpair =>
    split
    · next hsay =>
      refine ⟨log, h.still code_paintSay (steps_paintSay env _ row column c) ?_ hread⟩
      simp [fieldClauses, hpaint, hsay]
    · next hget =>
      have hfields : fieldClauses env s = guardClauses (Clauses.parse paintKeywords rest) := by
        simp [fieldClauses, hpaint, hpair, hget]
      simp only [hfields, hread, Option.or_none]
      exact h.get horderly row column
    · next hedit =>
      refine ⟨log, h.still code_paintEdit (steps_paintEdit env _ row column c) ?_ hread⟩
      simp [fieldClauses, hpaint, hedit]
    · next hbox =>
      refine ⟨log,
        h.still (code_paintBox s.line) (steps_paintBox env _ row column c s.line) ?_ hread⟩
      simp [fieldClauses, hpaint, hbox]
    · next hget _ _ =>
      refine ⟨log, h.still rfl .refl ?_ hread⟩
      rw [fieldClauses, hpaint]
      exact if_neg fun hfield => hget hfield.2

/-- The step: a statement adds its own clauses. It is one case for each command, and the commands
that open windows or grids add nothing. -/
theorem Accounts.carryOut (h : Accounts env fields first c log) (horderly : c.Orderly)
    (s : Statement) : ∃ log', Accounts env (fields ++ fieldClauses env s)
      (fun event => (first event).or (readClause? event s)) (carryOut env c s) log' := by
  unfold Screen.carryOut
  split
  · next rest hpaint => exact h.paint horderly hpaint
  · next rest hread =>
    have hfields : fieldClauses env s = [] := by simp [fieldClauses, hread]
    have hclause : ∀ event, readClause? event s =
        readEvents.findSome? (eventClause? (Clauses.parse readKeywords rest) event) := by
      simp [readClause?, hread]
    simp only [hfields, List.append_nil, hclause]
    exact h.read horderly _ readEvents
  · next hpaint hread =>
    refine ⟨log, h.still (code_carryOutNested s) (steps_carryOutNested env c s) ?_ fun event => ?_⟩
    · unfold fieldClauses
      split
      · next rest hcommand => exact absurd hcommand (hpaint rest)
      · rfl
    · unfold readClause?
      split
      · next rest hcommand => exact absurd hcommand (hread rest)
      · rfl

/-- The log of a program holds its binding clauses. -/
theorem accounts_foldl (hcanvas : c.Orderly) (hempty : c.Logs env []) (body : List Statement) :
    ∃ log, Accounts env (body.flatMap (fieldClauses env))
      (fun event => body.findSome? (readClause? event))
      (body.foldl (Screen.carryOut env) c) log := by
  -- on the program from its end: what a statement adds depends on all that came before
  induction body using List.reverseRecOn with
  | nil => exact ⟨[], hempty, by simp, by simp⟩
  | append_singleton body s ih =>
    obtain ⟨log, h⟩ := ih
    have horderly := hcanvas.steps (Steps.foldl (fun c s => steps_carryOut env c s) body c)
    simpa [List.findSome?_append] using h.carryOut horderly s

end Canvas

/-! ## Whole programs -/

/-- The clauses of a program that bind code. -/
def programClauses (config : Config) (source : String) : List Clause :=
  bindingClauses (surroundings config source) (statements (Program.read source).body)

variable (config : Config) (source : String)

/-- In the end the log accounts for all clauses that bind code and for no others. -/
theorem exists_log_painted : ∃ log, (painted config source).Logs (surroundings config source) log ∧
    ∀ clause, clause ∈ log.map Prod.snd ↔ clause ∈ programClauses config source := by
  obtain ⟨log, h⟩ := Canvas.accounts_foldl (orderly_emptyCanvas config.cells source)
    (Canvas.logs_emptyCanvas config.cells source) (statements (Program.read source).body)
  refine ⟨log, h.logs, fun clause => ?_⟩
  rw [h.clauses]
  exact mem_bindingClauses_iff.symm

/-- The procedures that count as bound are the ones that binding clauses call. -/
theorem mem_bound_painted_iff {name : String} : name ∈ (painted config source).bound ↔
    ∃ clause ∈ programClauses config source, ∃ p,
      (surroundings config source).calledProcedure? clause.argument = some p ∧
        fold p.name = name := by
  obtain ⟨log, h, hclauses⟩ := exists_log_painted config source
  simp only [h.bound, ← hclauses, List.mem_map]
  constructor
  · rintro ⟨l, hl, hcalled⟩
    exact ⟨l.2, ⟨l, hl, rfl⟩, hcalled⟩
  · rintro ⟨_, ⟨l, hl, rfl⟩, hcalled⟩
    exact ⟨l, hl, hcalled⟩

/-- The code of the events is what binding clauses bind. -/
theorem exists_event_iff (h : CollisionFree (painted config source).ids.issued) {code : String} :
    (∃ b ∈ (build config source).document.events.values, b.code = code) ↔
      ∃ clause ∈ programClauses config source,
        (surroundings config source).boundCode clause.keyword clause.argument = code := by
  obtain ⟨log, hlog, hclauses⟩ := exists_log_painted config source
  have hvalues : ∀ b, b ∈ (painted config source).events.values ↔ b ∈ log.map Prod.fst := fun _ =>
    hlog.mem_values_iff (orderly_painted config source) (nodup_ids_painted config source h)
  have hevents : (build config source).document.events = (painted config source).events := rfl
  simp only [hevents, hvalues, ← hclauses, List.mem_map]
  constructor
  · rintro ⟨_, ⟨l, hl, rfl⟩, rfl⟩
    exact ⟨l.2, ⟨l, hl, rfl⟩, (hlog.code l hl).symm⟩
  · rintro ⟨_, ⟨l, hl, rfl⟩, rfl⟩
    exact ⟨l.1, ⟨l, hl, rfl⟩, hlog.code l hl⟩

end Screen

end ScreenForms
