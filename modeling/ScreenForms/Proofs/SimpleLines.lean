import ScreenForms.Proofs.CodeLines

/-!
# Simple lines

A line that opens, continues or closes no block writes the same texts wherever it stands, at
the depth of its place (`exists_writesPlainly`). When it holds code, it counts as a statement of
its block, and its translation on its own is exactly these texts.
-/

namespace ScreenForms.Code

open Text

/-- A text that is not blank. -/
def Solid (s : String) : Prop := ∃ c ∈ s.toList, isBlank c = false

/-- A line is solid if something is left of it once it is trimmed. -/
theorem solid_iff (s : String) : Solid s ↔ (trim s.toList).isEmpty = false := by
  rw [Bool.eq_false_iff, Ne, List.isEmpty_iff, trim_eq_nil_iff]
  simp [Solid]

theorem Solid.append_left {s : String} (h : Solid s) (t : String) : Solid (t ++ s) := by
  obtain ⟨c, hc, hblank⟩ := h
  exact ⟨c, by simp [hc], hblank⟩

theorem Solid.append_right {s : String} (h : Solid s) (t : String) : Solid (s ++ t) := by
  obtain ⟨c, hc, hblank⟩ := h
  exact ⟨c, by simp [hc], hblank⟩

/-- Indenting a line does not make it blank. -/
theorem Solid.indented {s : String} (h : Solid s) (depth : Nat) : Solid (indented depth s) :=
  h.append_left _

/-- Lines that are not solid consist of blanks. -/
theorem not_solid_iff (s : String) : ¬ Solid s ↔ ∀ c ∈ s.toList, isBlank c = true := by
  simp [Solid]

theorem dropBlankEnd_singleton {l : String} (h : ¬ Solid l) : dropBlankEnd [l] = [] := by
  have hblank : (trim l.toList).isEmpty = true := by
    rw [List.isEmpty_iff, trim_eq_nil_iff]
    exact (not_solid_iff l).mp h
  simp [dropBlankEnd, hblank]

/-- Solid lines are all kept. -/
theorem dropBlankEnd_of_forall {ls : List String} (h : ∀ l ∈ ls, Solid l) :
    dropBlankEnd ls = ls := by
  unfold dropBlankEnd
  cases hls : ls.reverse with
  | nil => simpa using hls.symm
  | cons l rest =>
    have hl : l ∈ ls := List.mem_reverse.mp (hls ▸ List.mem_cons_self)
    rw [List.dropWhile_cons_of_neg, ← hls, List.reverse_reverse]
    simpa using (solid_iff l).mp (h l hl)

/-! ## Assignments -/

/-- Setting a property gives a solid line in every target, whatever the object and the value are. -/
theorem solid_setProperty (target : Target) (property : PropertyName) (object value : String)
    (onForm : Bool) : Solid (setProperty target property object value onForm) := by
  have hclose : ∀ {s : String}, s.toList.getLast? = some ')' → ∀ t, Solid (t ++ s) :=
    fun h t => Solid.append_left ⟨')', List.mem_of_getLast? h, rfl⟩ t
  have hequals : ∀ {s : String}, '=' ∈ s.toList → ∀ t u, Solid (t ++ s ++ u) :=
    fun h t u => (Solid.append_left ⟨'=', h, rfl⟩ t).append_right u
  cases target with
  | tkinter => cases property <;> cases onForm <;> exact hclose rfl _
  | qt => cases property <;> cases onForm <;> exact hclose rfl _
  | winforms =>
    cases property with
    | value => exact hclose rfl _
    | _ => exact hequals (by decide) _ _
  | html =>
    cases property with
    | caption =>
      cases onForm with
      | true => exact Solid.append_right ⟨'=', by decide, rfl⟩ _
      | false => exact hequals (by decide) _ _
    | enabled => exact hclose rfl _
    | visible => exact hclose rfl _
    | _ => exact hequals (by decide) _ _

/-- Hence every assignment does. -/
theorem solid_assignment (ctx : Context) (target : List Token) (value : String) :
    Solid (assignment ctx target value) := by
  have hequals : ∀ left : String, Solid (left ++ " = " ++ value) := by
    intro left
    exact ⟨'=', by simp, rfl⟩
  unfold assignment
  split
  · dsimp only
    split
    · exact solid_setProperty _ _ _ _ _
    · exact hequals _
  · exact hequals _

theorem solid_terminated (target : Target) {text : String} (h : Solid text) :
    Solid (Output.terminated target text) := by
  unfold Output.terminated
  split
  · exact h
  · split
    · exact h
    · exact h
    · exact h
    · exact h.append_right _

/-! ## What simple lines write -/

/-- Wherever a line stands, it writes the same texts; the flag says whether they are statements. -/
def Writes (ctx : Context) (raw : List Char) (l : Line) (texts : List String) (code : Bool) :
    Prop :=
  ∀ o, writeLine ctx raw o l = o.after texts code

/-- Statements that are written one after another are the lines of the output. -/
theorem foldl_writeStatement {α : Type} (target : Target) (f : α → String) (l : List α)
    (o : Output) :
    l.foldl (fun o a => o.writeStatement target (f a)) o =
      o.after (l.map fun a => Output.terminated target (f a)) !l.isEmpty := by
  induction l generalizing o with
  | nil => exact (Output.after_nil o).symm
  | cons a l ih =>
    rw [List.foldl_cons, ih, Output.writeStatement, Output.write_eq_after, Output.after_after]
    rfl

/-- What a simple line writes: comments, one statement, or several that are not blank. -/
structure WritesPlainly (ctx : Context) (raw : List Char) (l : Line) (texts : List String)
    (code : Bool) : Prop where
  writes : Writes ctx raw l texts code
  of_comment : code = false → ∀ t ∈ texts, hasCode ctx.target t = false
  solid : (∃ t, texts = [t]) ∨ ∀ t ∈ texts, Solid t

/-- A line that writes one text writes it plainly, and is a statement. -/
theorem writesPlainly_of_write {ctx : Context} {raw : List Char} {l : Line} {text : String}
    (h : ∀ o, writeLine ctx raw o l = o.write text) : WritesPlainly ctx raw l [text] true :=
  ⟨h, nofun, .inl ⟨text, rfl⟩⟩

/-- A comment on one line is no statement. -/
theorem writesPlainly_of_comment {ctx : Context} {raw : List Char} {l : Line} {text : List Char}
    (htext : '\n' ∉ text) (h : ∀ o, writeLine ctx raw o l = o.comment ctx.target text) :
    WritesPlainly ctx raw l [Output.commentText ctx.target text] false := by
  refine ⟨h, ?_, .inl ⟨_, rfl⟩⟩
  intro _ t ht
  obtain rfl := List.mem_singleton.mp ht
  exact hasCode_commentText ctx.target htext

/-- A line that is no block keyword writes the same texts wherever it stands. So neither the open
blocks nor the depth has to be known for it. -/
theorem exists_writesPlainly (ctx : Context) {raw : List Char} (hraw : trim raw ≠ []) {l : Line}
    (hkeyword : l.isKeyword = false) (hcomment : ∀ text, l = .comment text → '\n' ∉ text)
    (hnames : ∀ names, l = .parameters names → ∃ list, names = declaredNames list) :
    ∃ texts code, WritesPlainly ctx raw l texts code := by
  cases l with
  | blank =>
    refine ⟨[], false, fun o => ?_, fun _ t ht => absurd ht List.not_mem_nil, .inr (by simp)⟩
    rw [Output.after_nil, writeLine, if_neg (by simpa using hraw)]
  | comment text => exact ⟨_, _, writesPlainly_of_comment (hcomment text rfl) fun _ => rfl⟩
  | localNames names =>
    rcases names with _ | ⟨name, names⟩
    · exact ⟨_, _, writesPlainly_of_write fun _ => rfl⟩
    · exact ⟨_, _, writesPlainly_of_write fun _ => rfl⟩
  | parameters names =>
    obtain ⟨list, rfl⟩ := hnames names rfl
    refine ⟨_, _, writesPlainly_of_comment ?_ fun _ => rfl⟩
    rw [List.mem_append]
    rintro (hmem | hmem)
    · exact absurd hmem (by decide)
    · exact not_mem_joinWith (by decide) (fun _ => not_mem_declaredNames (by decide)) hmem
  | returnLine value => exact ⟨_, _, writesPlainly_of_write fun _ => rfl⟩
  | wait message => exact ⟨_, _, writesPlainly_of_write fun _ => rfl⟩
  | release => exact ⟨_, _, writesPlainly_of_write fun _ => rfl⟩
  | store value targets =>
    refine ⟨_, _, fun o => foldl_writeStatement ctx.target
      (fun t => assignment ctx (Token.lex t) (exprText ctx true value)) targets o, ?_, .inr ?_⟩
    · intro hempty t ht
      rw [Bool.not_eq_false', List.isEmpty_iff] at hempty
      subst hempty
      cases ht
    · intro t ht
      obtain ⟨target, -, rfl⟩ := List.mem_map.mp ht
      exact solid_terminated ctx.target (solid_assignment ctx _ _)
  | call name arguments => exact ⟨_, _, writesPlainly_of_write fun _ => rfl⟩
  | print value => exact ⟨_, _, writesPlainly_of_write fun _ => rfl⟩
  | statement text => exact ⟨_, _, writesPlainly_of_write fun _ => rfl⟩
  | _ => cases hkeyword

end ScreenForms.Code
