import ScreenForms.Proofs.BoundCode

/-!
# Procedures are kept

The procedures of a screen program are there to be kept as comments: as the code of an event when
a clause that binds code calls them, and as methods of the form otherwise (`KeepsProcedures`). But
they are found by their names in lower case, and of procedures with one name only the last is found.
So all of them are kept exactly where procedures with one name are bound and alike
(`keepsProcedures_iff`).
-/

namespace ScreenForms.Screen

open NameRegistry

/-- The method that a procedure becomes. -/
def Procedure.asMethod (p : Procedure) : FormMethod := ⟨p.name, p.parameters, p.placeholder⟩

/-- Whether one of some clauses calls a procedure. -/
def isCalled (clauses : List Clause) (p : Procedure) : Bool :=
  clauses.any fun clause =>
    (calledName? clause.argument).any fun name => Text.sameName p.name (String.ofList name)

/-- Every procedure of a program is carried into the document: it is code of an event when a
binding clause calls it, and else it is one method of its own. There are no other methods, and
they are in the order of the procedures. -/
structure KeepsProcedures (config : Config) (source : String) : Prop where
  bound : ∀ p ∈ (Program.read source).procedures, isCalled (programClauses config source) p = true →
    ∃ b ∈ (build config source).document.events.values, b.code = p.placeholder
  free : ∀ p ∈ (Program.read source).procedures, isCalled (programClauses config source) p = false →
    (build config source).document.methods.count p.asMethod = 1
  methods : (build config source).document.methods =
    ((Program.read source).procedures.filter fun p =>
      !isCalled (programClauses config source) p).map Procedure.asMethod

/-! ## Procedures by name -/

theorem sameName_iff {s t : String} : Text.sameName s t = true ↔ fold s = fold t := by
  rw [fold_eq_iff, Text.sameName, beq_iff_eq]

namespace Surroundings

variable (env : Surroundings) {p q : Procedure}

/-- The last procedure with the name of a procedure. -/
def latest (p : Procedure) : Procedure := (env.procedure? p.name).getD p

/-- A procedure that is found is one of the program, up to the case of its name. -/
theorem procedure?_eq_some {env : Surroundings} {name : String} (h : env.procedure? name = some p) :
    p ∈ env.procedures ∧ fold p.name = fold name := by
  have hname := List.find?_some h
  exact ⟨List.mem_reverse.mp (List.mem_of_find?_eq_some h), sameName_iff.mp hname⟩

/-- Procedures are looked up without regard to case. -/
theorem procedure?_congr {s t : String} (h : fold s = fold t) :
    env.procedure? s = env.procedure? t := by
  have hsame : (fun p : Procedure => Text.sameName p.name s) = fun p => Text.sameName p.name t := by
    funext p
    rw [Bool.eq_iff_iff, sameName_iff, sameName_iff, h]
  rw [procedure?, procedure?, hsame]

/-- A name always leads to the latest procedure that bears it, which may be another than the one at
hand. -/
theorem procedure?_name (hp : p ∈ env.procedures) :
    env.procedure? p.name = some (env.latest p) := by
  have hfound : (env.procedure? p.name).isSome := by
    rw [procedure?, List.find?_isSome]
    exact ⟨p, List.mem_reverse.mpr hp, sameName_iff.mpr rfl⟩
  obtain ⟨q, hq⟩ := Option.isSome_iff_exists.mp hfound
  rw [latest, hq, Option.getD_some]

theorem latest_mem (hp : p ∈ env.procedures) : env.latest p ∈ env.procedures :=
  (procedure?_eq_some (env.procedure?_name hp)).1

theorem fold_latest (hp : p ∈ env.procedures) : fold (env.latest p).name = fold p.name :=
  (procedure?_eq_some (env.procedure?_name hp)).2

/-- Procedures of one name have the same latest one. -/
theorem latest_congr (hp : p ∈ env.procedures) (hq : q ∈ env.procedures)
    (h : fold p.name = fold q.name) : env.latest p = env.latest q := by
  have heq := env.procedure?_congr h
  rw [env.procedure?_name hp, env.procedure?_name hq] at heq
  exact Option.some.inj heq

/-- A procedure is called where the last one of its name is found. -/
theorem isCalled_iff {clauses : List Clause} (hp : p ∈ env.procedures) :
    isCalled clauses p = true ↔
      ∃ clause ∈ clauses, env.calledProcedure? clause.argument = some (env.latest p) := by
  simp only [isCalled, List.any_eq_true, Option.any_eq_true, sameName_iff, calledProcedure?,
    Option.bind_eq_some_iff]
  refine exists_congr fun clause => and_congr_right fun _ => exists_congr fun name =>
    and_congr_right fun _ => ⟨fun h => ?_, fun h => ?_⟩
  · rw [← env.procedure?_congr h, env.procedure?_name hp]
  · rw [← (procedure?_eq_some h).2, env.fold_latest hp]

/-- Hence they are called together or not at all. -/
theorem isCalled_congr {clauses : List Clause} (hp : p ∈ env.procedures) (hq : q ∈ env.procedures)
    (h : fold p.name = fold q.name) : isCalled clauses p = isCalled clauses q := by
  rw [Bool.eq_iff_iff, env.isCalled_iff hp, env.isCalled_iff hq, env.latest_congr hp hq h]

/-- A procedure that a clause calls is one of the program. -/
theorem mem_of_calledProcedure? {env : Surroundings} {argument : List Char}
    (h : env.calledProcedure? argument = some q) : q ∈ env.procedures := by
  obtain ⟨name, -, hfound⟩ := Option.bind_eq_some_iff.mp h
  exact (procedure?_eq_some hfound).1

/-- A clause calls the last procedure of a name. -/
theorem latest_of_calledProcedure? {env : Surroundings} {argument : List Char}
    (h : env.calledProcedure? argument = some q) (hp : p ∈ env.procedures)
    (hname : fold q.name = fold p.name) : env.latest p = q := by
  obtain ⟨name, -, hfound⟩ := Option.bind_eq_some_iff.mp h
  rw [← env.procedure?_congr (hname.symm.trans (procedure?_eq_some hfound).2),
    env.procedure?_name hp] at hfound
  exact Option.some.inj hfound

end Surroundings

open Surroundings

/-! ## Comments of procedures -/

/-- The name of a procedure is one word, which lets its placeholder be taken apart. -/
theorem blank_not_mem_name {text : String} {p : Procedure}
    (hp : p ∈ (Program.read text).procedures) : ' ' ∉ p.name.toList :=
  fun hmem => absurd (isWordChar_of_mem_divide hp ' ' hmem) (by decide)

/-- The comment of a procedure names the procedure first. -/
theorem exists_toList_placeholder (p : Procedure) : ∃ rest, p.placeholder.toList =
    "* Screen procedure ".toList ++ (p.name.toList ++ ' ' :: rest) := by
  have hjoin : ∀ (sep first : List Char) (lines : List (List Char)),
      ∃ rest, Text.joinWith sep (first :: lines) = first ++ rest := by
    intro sep first lines
    cases lines with
    | nil => exact ⟨[], by simp [Text.joinWith]⟩
    | cons l ls => exact ⟨sep ++ Text.joinWith sep (l :: ls), by simp [Text.joinWith]⟩
  obtain ⟨rest, hrest⟩ := hjoin ['\n'] ("* Screen procedure ".toList ++ p.name.toList ++
    " (original body kept as comment)".toList) (p.sourceLines.map Procedure.commentLine)
  refine ⟨"(original body kept as comment)".toList ++ rest, ?_⟩
  rw [Procedure.placeholder, String.toList_ofList, hrest]
  simp

/-- Procedures with the same comment have the same name. -/
theorem name_eq_of_placeholder_eq {p q : Procedure} (hp : ' ' ∉ p.name.toList)
    (hq : ' ' ∉ q.name.toList) (h : p.placeholder = q.placeholder) : p.name = q.name := by
  obtain ⟨rest, hrest⟩ := exists_toList_placeholder p
  obtain ⟨rest', hrest'⟩ := exists_toList_placeholder q
  rw [h, hrest'] at hrest
  exact String.toList_injective
    (eq_of_append_separator hp hq (List.append_cancel_left hrest.symm))

/-- The clauses of a field are VALID and WHEN. -/
theorem keyword_of_mem_fieldClauses {env : Surroundings} {s : Statement} {clause : Clause}
    (h : clause ∈ fieldClauses env s) : clause.keyword ∈ ["VALID", "WHEN"] := by
  unfold fieldClauses at h
  split at h
  · dsimp only at h
    split at h
    · obtain ⟨keyword, hkeyword, hget⟩ := List.mem_filterMap.mp h
      obtain ⟨argument, -, rfl⟩ := Option.map_eq_some_iff.mp hget
      exact hkeyword
    · cases h
  · cases h

theorem keyword_of_readClause? {event : String} {s : Statement} {clause : Clause}
    (h : readClause? event s = some clause) :
    clause.keyword ∈ ["VALID", "WHEN", "ACTIVATE", "SHOW", "DEACTIVATE"] := by
  have hkeywords : ∀ entry ∈ readEvents, ∀ keyword ∈ entry.2,
      keyword ∈ ["VALID", "WHEN", "ACTIVATE", "SHOW", "DEACTIVATE"] := by decide
  unfold readClause? at h
  split at h
  · obtain ⟨entry, hentry, hclause⟩ := List.exists_of_findSome?_eq_some h
    obtain ⟨-, hfound⟩ := Option.ite_none_right_eq_some.mp hclause
    obtain ⟨⟨keyword, argument⟩, hfirst, rfl⟩ := Option.map_eq_some_iff.mp hfound
    exact hkeywords entry hentry keyword (mem_and_get?_of_firstClause? hfirst).1
  · cases h

/-- All clauses of a program are those of its fields and of its READ statements. -/
theorem keyword_of_mem_programClauses {config : Config} {source : String} {clause : Clause}
    (h : clause ∈ programClauses config source) :
    clause.keyword ∈ ["VALID", "WHEN", "ACTIVATE", "SHOW", "DEACTIVATE"] := by
  rcases mem_bindingClauses_iff.mp h with hfield | ⟨event, hread⟩
  · obtain ⟨s, -, hs⟩ := List.mem_flatMap.mp hfield
    exact List.mem_append_left ["ACTIVATE", "SHOW", "DEACTIVATE"] (keyword_of_mem_fieldClauses hs)
  · obtain ⟨s, -, hs⟩ := List.exists_of_findSome?_eq_some hread
    exact keyword_of_readClause? hs

/-- A clause that calls no procedure is not kept in the way of a procedure. -/
theorem placeholder_ne_clause {keyword : String}
    (hkeyword : keyword ∈ ["VALID", "WHEN", "ACTIVATE", "SHOW", "DEACTIVATE"]) (p : Procedure)
    (text : String) : p.placeholder ≠ "* " ++ keyword ++ " " ++ text := by
  intro h
  obtain ⟨rest, hrest⟩ := exists_toList_placeholder p
  rw [h] at hrest
  -- `* Sc` is the beginning of the one and not of the other
  have hstart := congrArg (List.take 4) hrest
  simp only [List.mem_cons, List.not_mem_nil, or_false] at hkeyword
  rcases hkeyword with rfl | rfl | rfl | rfl | rfl <;> simp at hstart

/-! ## Which procedures are kept -/

/-- If two procedures have one name, clauses call both of them, and they have one comment. -/
def KeptTogether (clauses : List Clause) (p q : Procedure) : Prop :=
  fold p.name = fold q.name →
    (isCalled clauses p = true ∧ isCalled clauses q = true) ∧ p.placeholder = q.placeholder

instance (clauses : List Clause) : Std.Symm (KeptTogether clauses) :=
  ⟨fun _ _ h hname => (h hname.symm).imp And.symm Eq.symm⟩

section

variable (config : Config) (source : String)

/-- The methods of the form are the last procedures with the names of those that no clause calls.
Procedures are kept by name, and a name leads to the last of them. -/
theorem methods_build : (build config source).document.methods =
    ((Program.read source).procedures.filter fun p =>
      !isCalled (programClauses config source) p).map fun p =>
        ((surroundings config source).latest p).asMethod := by
  have hfree : ∀ p ∈ (Program.read source).procedures,
      (decide (fold p.name ∉ (painted config source).bound)) =
        !isCalled (programClauses config source) p := by
    intro p hp
    have hbound : fold p.name ∈ (painted config source).bound ↔
        isCalled (programClauses config source) p = true := by
      rw [mem_bound_painted_iff,
        (surroundings config source).isCalled_iff (mem_surroundings.mpr hp)]
      refine exists_congr fun clause => and_congr_right fun _ => ⟨?_, fun hcalled => ?_⟩
      · rintro ⟨q, hcalled, hname⟩
        rw [latest_of_calledProcedure? hcalled (mem_surroundings.mpr hp) hname, hcalled]
      · exact ⟨_, hcalled, (surroundings config source).fold_latest (mem_surroundings.mpr hp)⟩
    simp [hbound]
  have hlatest : ∀ p ∈ (Program.read source).procedures,
      (((surroundings config source).procedure? p.name).map fun q =>
        (⟨q.name, q.parameters, q.placeholder⟩ : FormMethod)) =
          some ((surroundings config source).latest p).asMethod := by
    intro p hp
    rw [(surroundings config source).procedure?_name (mem_surroundings.mpr hp)]
    rfl
  have hmethods : (build config source).document.methods =
      freeMethods (surroundings config source) (painted config source).bound := rfl
  rw [hmethods, freeMethods, ← List.filterMap_eq_map]
  show ((Program.read source).procedures.filter _).filterMap _ = _
  rw [List.filter_congr hfree]
  exact List.filterMap_congr fun p hp => hlatest p (List.mem_of_mem_filter hp)

/-- A procedure that a clause calls is code of an event exactly where the last procedure of its name
has the same comment. -/
theorem exists_event_placeholder_iff (h : CollisionFree (painted config source).ids.issued)
    {p : Procedure} (hp : p ∈ (Program.read source).procedures)
    (hcalled : isCalled (programClauses config source) p = true) :
    (∃ b ∈ (build config source).document.events.values, b.code = p.placeholder) ↔
      ((surroundings config source).latest p).placeholder = p.placeholder := by
  rw [exists_event_iff config source h]
  constructor
  · rintro ⟨clause, hclause, hcode⟩
    unfold boundCode at hcode
    split at hcode
    · next q hq =>
      -- the comment tells the name, and of that name only the last procedure is called
      have hname := name_eq_of_placeholder_eq
        (blank_not_mem_name (mem_surroundings.mp (mem_of_calledProcedure? hq)))
        (blank_not_mem_name hp) hcode
      rw [latest_of_calledProcedure? hq (mem_surroundings.mpr hp) (congrArg fold hname), hcode]
    · exact absurd hcode.symm (placeholder_ne_clause (keyword_of_mem_programClauses hclause) p _)
  · intro heq
    obtain ⟨clause, hclause, hq⟩ :=
      ((surroundings config source).isCalled_iff (mem_surroundings.mpr hp)).mp hcalled
    refine ⟨clause, hclause, ?_⟩
    rw [boundCode, hq]
    exact heq

variable {config source}

/-- Procedures without a clause have names of their own where every procedure is kept: those with
one name would become the same method, and it would be there twice. -/
theorem KeepsProcedures.isCalled_of_sublist (h : KeepsProcedures config source) {p q : Procedure}
    (hsub : [p, q].Sublist (Program.read source).procedures) (hname : fold p.name = fold q.name) :
    isCalled (programClauses config source) p = true := by
  by_contra hfree
  have hp := hsub.subset List.mem_cons_self
  have hq := hsub.subset (List.mem_cons_of_mem p List.mem_cons_self)
  have hfree' : ¬ isCalled (programClauses config source) q = true :=
    (surroundings config source).isCalled_congr (mem_surroundings.mpr hp)
        (mem_surroundings.mpr hq) hname ▸ hfree
  have hlatest : (surroundings config source).latest p = (surroundings config source).latest q :=
    (surroundings config source).latest_congr (mem_surroundings.mpr hp) (mem_surroundings.mpr hq)
        hname
  have hkept := hsub.filter fun r => !isCalled (programClauses config source) r
  rw [List.filter_cons_of_pos (by simpa using hfree),
    List.filter_cons_of_pos (by simpa using hfree'), List.filter_nil] at hkept
  have hself := List.map_inj_left.mp ((methods_build config source).symm.trans h.methods)
  have hsame : q.asMethod = p.asMethod := by
    rw [← hself q (hkept.subset (List.mem_cons_of_mem p List.mem_cons_self)),
      ← hself p (hkept.subset List.mem_cons_self), hlatest]
  -- both are the method of the last procedure with the name, so it is there twice
  have htwice := (hkept.map Procedure.asMethod).count_le p.asMethod
  rw [← h.methods, h.free p hp (by simpa using hfree)] at htwice
  simp [hsame] at htwice

section

variable (hpairs : (Program.read source).procedures.Pairwise
  (KeptTogether (programClauses config source)))
include hpairs

/-- A procedure with the name of another one is called, so the others are the last of their names. -/
theorem latest_eq_self {p : Procedure} (hp : p ∈ (Program.read source).procedures)
    (hfree : isCalled (programClauses config source) p = false) :
    (surroundings config source).latest p = p := by
  by_contra hne
  obtain ⟨⟨hcalled, -⟩, -⟩ := hpairs.forall hp (mem_surroundings.mp
      ((surroundings config source).latest_mem (mem_surroundings.mpr hp)))
    (Ne.symm hne) ((surroundings config source).fold_latest (mem_surroundings.mpr hp)).symm
  rw [hfree] at hcalled
  cases hcalled

/-- The free methods are the procedures that no clause calls, in the order of the program. -/
theorem methods_eq_filter : (build config source).document.methods =
    ((Program.read source).procedures.filter fun p =>
      !isCalled (programClauses config source) p).map Procedure.asMethod := by
  rw [methods_build]
  refine List.map_congr_left fun p hp => ?_
  obtain ⟨hp, hfree⟩ := List.mem_filter.mp hp
  rw [latest_eq_self hpairs hp (by simpa using hfree)]

/-- No procedure becomes a free method twice. -/
theorem nodup_methods : (build config source).document.methods.Nodup := by
  rw [methods_eq_filter hpairs, List.Nodup, List.pairwise_map]
  refine (hpairs.filter _).imp_of_mem fun {p q} hp _ htogether heq => ?_
  obtain ⟨-, hfree⟩ := List.mem_filter.mp hp
  have hname : p.name = q.name := congrArg FormMethod.name heq
  obtain ⟨⟨hcalled, -⟩, -⟩ := htogether (congrArg fold hname)
  rw [hcalled] at hfree
  cases hfree

/-- Every procedure is kept where procedures with one name are called and have one comment. -/
theorem keepsProcedures_of_pairwise (h : CollisionFree (painted config source).ids.issued) :
    KeepsProcedures config source := by
  refine ⟨fun p hp hcalled => ?_, fun p hp hfree => ?_, methods_eq_filter hpairs⟩
  · rw [exists_event_placeholder_iff config source h hp hcalled]
    by_cases heq : (surroundings config source).latest p = p
    · rw [heq]
    · exact (hpairs.forall hp (mem_surroundings.mp
      ((surroundings config source).latest_mem (mem_surroundings.mpr hp))) (Ne.symm heq)
        ((surroundings config source).fold_latest (mem_surroundings.mpr hp)).symm).2.symm
  · refine List.count_eq_one_of_mem (nodup_methods hpairs) ?_
    rw [methods_eq_filter hpairs]
    exact List.mem_map_of_mem (List.mem_filter.mpr ⟨hp, by simpa using hfree⟩)

end

end

/-- Every procedure is kept exactly where of two procedures with one name, up to ASCII case, both
are called by clauses that bind code and have the same comment. The hash has to tell apart the
contents that ids are made from. -/
theorem keepsProcedures_iff (config : Config) (source : String)
    (hcollision : ∀ a ∈ (painted config source).ids.issued,
      ∀ b ∈ (painted config source).ids.issued, contentId a = contentId b → a = b) :
    KeepsProcedures config source ↔ (Program.read source).procedures.Pairwise fun p q =>
      Text.sameName p.name q.name = true →
        isCalled (programClauses config source) p = true ∧ p.placeholder = q.placeholder := by
  constructor
  · intro h
    rw [List.pairwise_iff_forall_sublist]
    intro p q hsub hname
    rw [sameName_iff] at hname
    have hp := hsub.subset List.mem_cons_self
    have hq := hsub.subset (List.mem_cons_of_mem p List.mem_cons_self)
    have hcalled := h.isCalled_of_sublist hsub hname
    have hcalled' := (surroundings config source).isCalled_congr (mem_surroundings.mpr hp)
        (mem_surroundings.mpr hq) hname ▸ hcalled
    have hlatest : (surroundings config source).latest p = (surroundings config source).latest q :=
      (surroundings config source).latest_congr (mem_surroundings.mpr hp) (mem_surroundings.mpr hq)
        hname
    refine ⟨hcalled, ?_⟩
    rw [← (exists_event_placeholder_iff config source hcollision hp hcalled).mp
        (h.bound p hp hcalled),
      ← (exists_event_placeholder_iff config source hcollision hq hcalled').mp
        (h.bound q hq hcalled'), hlatest]
  · intro hpairs
    refine keepsProcedures_of_pairwise (hpairs.imp_of_mem fun {p q} hp hq h hname => ?_) hcollision
    obtain ⟨hcalled, hcomment⟩ := h (sameName_iff.mpr hname)
    exact ⟨⟨hcalled, (surroundings config source).isCalled_congr (mem_surroundings.mpr hp)
        (mem_surroundings.mpr hq) hname ▸ hcalled⟩, hcomment⟩

/-- A screen with a procedure for a field, one for the form and one that nothing calls. -/
def entryScreen : String :=
  "@ 1,1 GET x VALID check()\nREAD CYCLE WHEN start()\nPROCEDURE check\nPARAMETERS a, b\n" ++
    "RETURN .T.\nENDPROC\nFUNCTION start\nRETURN 1\nPROCEDURE spare\nPARAMETERS p\n? p\n"

theorem keepsProcedures_entryScreen :
    (∀ a ∈ (painted {} entryScreen).ids.issued, ∀ b ∈ (painted {} entryScreen).ids.issued,
        contentId a = contentId b → a = b) ∧
      KeepsProcedures {} entryScreen := by
  have hlines : Record.numberedLines entryScreen = _ := Record.numberedLines_of_toList
    (Text.toList_append_of String.toList_ofList String.toList_ofList)
  have hdistinct : ∀ a ∈ (painted {} entryScreen).ids.issued,
      ∀ b ∈ (painted {} entryScreen).ids.issued, contentId a = contentId b → a = b := by
    rw [painted, surroundings, Program.read, programLines, hlines]
    decide +kernel
  refine ⟨hdistinct, (keepsProcedures_iff {} entryScreen hdistinct).mpr ?_⟩
  rw [programClauses, surroundings, Program.read, programLines, hlines]
  decide +kernel

/-- A program with two procedures of one name, up to case. -/
def repeatedName : String := "PROCEDURE a\nx = 1\nENDPROC\nPROCEDURE A\ny = 2\nENDPROC\n"

/-- The first of two procedures with one name is lost, and the second is there twice. -/
theorem not_keepsProcedures : ¬ KeepsProcedures {} repeatedName := by
  intro h
  have hmethods := h.methods
  revert hmethods
  decide +kernel

end ScreenForms.Screen
