import ScreenForms.Proofs.RecordLines

/-!
# Drafts of records

What one line does to a draft, whatever the line: a draft that stands further down, behind other
remarks, takes the line in the same way (`Draft.step_placed`); the object name is the last one
given (`Draft.HasName.step`); a record is never opened (`Draft.step_of_none`); and lines of methods
are kept in an open block of methods only (`Draft.IsTidy.step`). From this follows what a whole
section does.
-/

namespace ScreenForms

open Text

/-- The same remark on a line that stands further down. -/
def Diagnostic.shifted (n : Nat) (d : Diagnostic) : Diagnostic :=
  { d with line := d.line.map (· + n) }

@[simp] theorem Diagnostic.shifted_zero : Diagnostic.shifted 0 = id := by
  funext d
  obtain ⟨severity, code, message, _ | line⟩ := d <;> rfl

namespace Record

/-- The same record further down in its source. -/
def shifted (n : Nat) (r : Record) : Record := { r with line := r.line + n }

@[simp] theorem map_shifted_zero (r : Option Record) : r.map (shifted 0) = r := by
  cases r <;> rfl

/-! ## Drafts in another place -/

namespace Draft

/-- The draft as it is when its section stands further down and remarks were made before. -/
def placed (before : List Diagnostic) (n : Nat) (d : Draft) : Draft :=
  { d with
    record := d.record.map (shifted n)
    diagnostics := before ++ d.diagnostics.map (Diagnostic.shifted n) }

variable (before : List Diagnostic) (n : Nat) (d : Draft)

@[simp] theorem mode_placed : (d.placed before n).mode = d.mode := rfl

@[simp] theorem record_placed :
    (d.placed before n).record = d.record.map (shifted n) := rfl

/-- A line that is left out is reported with the number it has in the other place. -/
theorem skip_placed (line : Nat) (code : String) (text : List Char) :
    (d.placed before n).skip (line + n) code text = (d.skip line code text).placed before n := by
  simp [skip, placed, Diagnostic.shifted]

theorem closeMethods_placed : (d.placed before n).closeMethods = d.closeMethods.placed before n := by
  rw [closeMethods, closeMethods, placed, placed, Option.map_map, Option.map_map]
  rfl

/-- The fields of a record are set alike wherever it stands, since its line is none of them. -/
theorem setField_shifted (key value : String) (r : Record) :
    setField key value (shifted n r) = shifted n (setField key value r) := by
  unfold setField
  split <;> rfl

/-- A line in square brackets is read alike in another place. The remark on it, if there is one, has
the number it has there. -/
theorem keyLine_placed (line : Nat) (text : List Char) :
    (d.placed before n).keyLine (line + n) text = (d.keyLine line text).placed before n := by
  unfold keyLine
  rcases readKey? text with _ | ⟨key, value⟩
  · exact skip_placed before n d line _ text
  · simp only [record_placed]
    split_ifs
    iterate 5 rfl
    rcases hrecord : d.record with _ | r
    · exact skip_placed before n d line _ text
    · simp only [Option.map_some, setField_shifted]
      rfl

/-- The same for a line of the block of properties. -/
theorem propertyLine_placed (line : Nat) (text : List Char) :
    (d.placed before n).propertyLine (line + n) text =
      (d.propertyLine line text).placed before n := by
  unfold propertyLine
  split_ifs
  · rfl
  · rcases readProperty? text with _ | ⟨name, value⟩
    · exact skip_placed before n d line _ text
    · rcases hrecord : d.record with _ | r
      · simp only [record_placed, hrecord, Option.map_none]
        exact skip_placed before n d line _ text
      · simp only [record_placed, hrecord, Option.map_some]
        rfl

/-- One line is read alike in another place, whatever part of the section it stands in. -/
theorem step_placed (l : NumberedLine) :
    (d.placed before n).step (l.1, l.2 + n) = (d.step l).placed before n := by
  unfold step
  simp only [mode_placed, keyLine_placed, propertyLine_placed, skip_placed, closeMethods_placed]
  split <;> split_ifs <;> rfl

/-- So are all lines of a section, by induction on them. -/
theorem foldl_step_placed (body : List NumberedLine) :
    (body.map fun l => (l.1, l.2 + n)).foldl step (d.placed before n) =
      (body.foldl step d).placed before n := by
  induction body generalizing d with
  | nil => rfl
  | cons l body ih => rw [List.map_cons, List.foldl_cons, List.foldl_cons, step_placed, ih]

theorem finish_placed : (d.placed before n).finish = d.finish.placed before n := by
  rw [finish, finish, mode_placed, closeMethods_placed, apply_ite (placed before n)]

/-! ## The object name of a section -/

/-- The object name that a key line gives. -/
def keyedName? (text : List Char) : Option String :=
  (readKey? text).bind fun key =>
    if key.1 = "OBJNAME".toList then some (String.ofList key.2) else none

/-- The object name that a line gives to the record of its section. -/
def nameGiven? (d : Draft) (l : NumberedLine) : Option String :=
  if d.mode = .header ∨ d.mode = .properties then keyedName? (trim l.1) else none

/-- The object names that the lines of a section give, in order. -/
def namesGiven (d : Draft) : List NumberedLine → List String
  | [] => []
  | l :: rest => (d.nameGiven? l).toList ++ namesGiven (d.step l) rest

/-- Only a line that begins with a square bracket can give the object name. -/
theorem keyedName?_eq_none {cs : List Char} (h : cs.head? ≠ some '[') : keyedName? cs = none := by
  have hread : readKey? cs = none := by
    unfold readKey?
    split
    · exact absurd rfl h
    · rfl
  rw [keyedName?, hread, Option.bind_none]

/-- Keys are compared without case, so the letter may be written in both ways. -/
theorem eq_of_toLower_eq_e {c : Char} (h : c.toLower = 'e') : c = 'e' ∨ c = 'E' := by
  have hupper : c.toUpper = 'E' := by
    rw [← Char.toUpper_toLower_eq_toUpper, h]
    rfl
  by_cases hc : c.isUpper
  · exact .inr (Char.toUpper_eq_of_not_isLower (Char.not_isLower_of_isUpper hc) ▸ hupper)
  · exact .inl (Char.toLower_eq_of_not_isUpper hc ▸ h)

/-- The line that closes a block of properties gives no object name, in whatever case it is
written. -/
theorem keyedName?_endProperties {cs ds : List Char} (h : lower cs = '[' :: 'e' :: ds) :
    keyedName? cs = none := by
  obtain ⟨b, rest, rfl, hb, hrest⟩ := List.map_eq_cons_iff.mp h
  obtain ⟨c, rest, rfl, hc, -⟩ := List.map_eq_cons_iff.mp hrest
  obtain rfl := eq_of_toLower_eq hb (by decide)
  rw [keyedName?, Option.bind_eq_none_iff]
  rintro ⟨key, value⟩ hread
  have hhead : key.head? = some 'E' := by
    rcases eq_of_toLower_eq_e hc with rfl | rfl
    all_goals
      rw [readKey?, List.takeWhile_cons_of_pos (by decide),
        List.dropWhile_cons_of_pos (by decide)] at hread
      split at hread
      · simp only [List.isEmpty_cons] at hread
        obtain ⟨rfl, -⟩ := Prod.mk.inj (Option.some.inj hread)
        rw [trim_cons_of_neg (by decide)]
        rfl
      · cases hread
  refine if_neg fun hkey => ?_
  rw [show key = "OBJNAME".toList from hkey] at hhead
  exact absurd hhead (by decide)

/-- Whether a draft fills a record that begins on a line and has an object name. -/
def HasName (line : Nat) (name : String) (d : Draft) : Prop :=
  ∃ r, d.record = some r ∧ r.line = line ∧ r.objName = name

variable {line : Nat} {name : String} {d}

/-- No key changes the line of a record, and its name is changed by one key only. -/
theorem setField_line_objName (key : List Char) (value : String) (r : Record) :
    (setField (String.ofList key) value r).line = r.line ∧
      (setField (String.ofList key) value r).objName =
        if key = "OBJNAME".toList then value else r.objName := by
  have hkey : key = "OBJNAME".toList ↔ String.ofList key = "OBJNAME" := by
    rw [← String.ofList_toList (s := "OBJNAME"), String.ofList_inj, String.ofList_toList]
  simp only [hkey]
  unfold setField
  split <;> simp_all

namespace HasName

/-- Methods that are taken over leave line and name as they are. -/
theorem closeMethods (h : d.HasName line name) : d.closeMethods.HasName line name := by
  obtain ⟨r, hrecord, hline, hname⟩ := h
  rw [HasName, Draft.closeMethods, hrecord]
  exact ⟨_, rfl, hline, hname⟩

theorem finish (h : d.HasName line name) : d.finish.HasName line name := by
  unfold Draft.finish
  split
  · exact h.closeMethods
  · exact h

/-- A property is no name, even one that is called like the key. -/
theorem propertyLine (h : d.HasName line name) (number : Nat) (text : List Char) :
    (d.propertyLine number text).HasName line name := by
  unfold Draft.propertyLine
  split_ifs
  · exact h
  · rcases readProperty? text with _ | ⟨key, value⟩
    · exact h
    · obtain ⟨r, hrecord, hline, hname⟩ := h
      simp only [hrecord]
      exact ⟨_, rfl, hline, hname⟩

/-- A key gives a new name or keeps the one there is. The last key for the name counts, also where
it stands behind other keys. -/
theorem keyLine (h : d.HasName line name) (number : Nat) (text : List Char) :
    (d.keyLine number text).HasName line ((keyedName? text).getD name) := by
  rcases hread : readKey? text with _ | ⟨key, value⟩
  · rw [Draft.keyLine, keyedName?, hread]
    exact h
  · obtain ⟨r, hrecord, hline, hname⟩ := h
    rw [keyedName?, hread, Option.bind_some]
    by_cases hkey : key = "OBJNAME".toList
    · -- none of the keys that open or close a block is the key of the object name
      have hnamed : readKey? text = some ("OBJNAME".toList, (String.ofList value).toList) := by
        have hvalue : (String.ofList value).toList = value := String.toList_ofList
        rw [hread, hkey, hvalue]
      rw [keyLine_eq (by decide) hnamed hrecord, if_pos hkey]
      exact ⟨_, rfl, hline, rfl⟩
    · obtain ⟨hsameLine, hsameName⟩ := setField_line_objName key (String.ofList value) r
      rw [if_neg hkey] at hsameName
      rw [Draft.keyLine, hread, hrecord, if_neg hkey]
      dsimp only
      split_ifs
      iterate 5 exact ⟨r, rfl, hline, hname⟩
      exact ⟨_, rfl, hsameLine.trans hline, hsameName.trans hname⟩

/-- The step: what a line gives as the name counts from then on, whatever part of the section it
stands in. In the header and among the properties that is a key line, and among the methods
nothing. -/
theorem step (h : d.HasName line name) (l : NumberedLine) :
    (d.step l).HasName line ((d.nameGiven? l).getD name) := by
  unfold Draft.step nameGiven?
  simp only [trim_dropEndWhile_return]
  rcases d.mode
  · rw [if_pos (.inl rfl)]
    dsimp only
    split_ifs with hblank hbracket
    · rw [List.isEmpty_iff.mp hblank, keyedName?_eq_none (by decide)]
      exact h
    · exact h.keyLine l.2 (trim l.1)
    · rw [keyedName?_eq_none hbracket]
      exact h
  · rw [if_pos (.inr rfl)]
    dsimp only
    split_ifs with hend hbracket
    · rw [keyedName?_endProperties hend]
      exact h
    · exact h.keyLine l.2 (trim l.1)
    · rw [keyedName?_eq_none hbracket]
      exact h.propertyLine l.2 (trim l.1)
  · rw [if_neg (by decide)]
    dsimp only
    split_ifs
    · exact h.closeMethods
    · exact h
  · rw [if_neg (by decide)]
    dsimp only
    split_ifs <;> exact h

/-- The name of a section is the last one that its lines give. -/
theorem foldl_step (h : d.HasName line name) (body : List NumberedLine) :
    (body.foldl Draft.step d).HasName line ((d.namesGiven body).getLastD name) := by
  induction body generalizing d name with
  | nil => exact h
  | cons l body ih =>
    have hlast : (d.namesGiven (l :: body)).getLastD name =
        ((d.step l).namesGiven body).getLastD ((d.nameGiven? l).getD name) := by
      rw [namesGiven]
      rcases d.nameGiven? l with _ | given
      · rfl
      · exact List.getLastD_cons
    rw [hlast]
    exact ih (h.step l)

end HasName

end Draft

/-! ## Drafts without a record -/

namespace Draft

variable {d : Draft}

/-- Without a record no key makes one, as there is nothing it could belong to. -/
theorem keyLine_of_none (h : d.record = none) (line : Nat) (text : List Char) :
    (d.keyLine line text).record = none := by
  unfold keyLine
  rcases readKey? text with _ | ⟨key, value⟩
  · exact h
  · simp only [h]
    split_ifs <;> first | rfl | exact h

/-- Nor does a property. -/
theorem propertyLine_of_none (h : d.record = none) (line : Nat) (text : List Char) :
    (d.propertyLine line text).record = none := by
  unfold propertyLine
  split_ifs
  · exact h
  · rcases readProperty? text with _ | ⟨name, value⟩
    · exact h
    · simp only [h]
      exact h

theorem closeMethods_of_none (h : d.record = none) : d.closeMethods.record = none := by
  rw [closeMethods, h]
  rfl

/-- So no line before the first delimiter makes a record. -/
theorem step_of_none (h : d.record = none) (l : NumberedLine) : (d.step l).record = none := by
  unfold step
  rcases d.mode <;> dsimp only <;> split_ifs
  all_goals first
    | exact h
    | exact keyLine_of_none h _ _
    | exact propertyLine_of_none h _ _
    | exact closeMethods_of_none h

/-- Nor do all of these lines together. -/
theorem foldl_step_of_none (h : d.record = none) (body : List NumberedLine) :
    (body.foldl step d).record = none := by
  induction body generalizing d with
  | nil => exact h
  | cons l body ih => exact ih (step_of_none h l)

theorem finish_of_none (h : d.record = none) : d.finish.record = none := by
  unfold finish
  split
  · exact closeMethods_of_none h
  · exact h

end Draft

/-! ## Lines of methods -/

namespace Draft

variable {d : Draft}

/-- Lines of methods are kept in an open block of methods only. -/
def IsTidy (d : Draft) : Prop := d.mode ≠ .methods → d.methodLines = []

/-- Keys collect no lines of methods. -/
theorem methodLines_keyLine (h : d.methodLines = []) (line : Nat) (text : List Char) :
    (d.keyLine line text).methodLines = [] := by
  unfold keyLine
  rcases readKey? text with _ | ⟨key, value⟩
  · exact h
  · dsimp only
    split_ifs
    iterate 2 exact h
    · rfl
    iterate 2 exact h
    rcases d.record with _ | r <;> exact h

/-- Properties collect no lines of methods. -/
theorem methodLines_propertyLine (h : d.methodLines = []) (line : Nat) (text : List Char) :
    (d.propertyLine line text).methodLines = [] := by
  unfold propertyLine
  split_ifs
  · exact h
  · rcases readProperty? text with _ | ⟨name, value⟩
    · exact h
    · rcases d.record with _ | r <;> exact h

/-- Lines of methods are only collected while their block is open, and they are taken over when it
is closed. -/
theorem IsTidy.step (h : d.IsTidy) (l : NumberedLine) : (d.step l).IsTidy := by
  unfold Draft.step
  rcases hmode : d.mode with _ | _ | _ | _ <;> dsimp only
  case methods =>
    split_ifs
    · exact fun _ => rfl
    · exact fun hne => absurd rfl hne
  all_goals
    have hnone : d.methodLines = [] := h (by rw [hmode]; decide)
    split_ifs <;> intro _
    all_goals first
      | exact hnone
      | exact methodLines_keyLine hnone _ _
      | exact methodLines_propertyLine hnone _ _

/-- At the end of a section no collected line is left over: a block that is still open counts as
closed. -/
theorem IsTidy.methodLines_finish (h : d.IsTidy) : d.finish.methodLines = [] := by
  unfold finish
  split
  · rfl
  · next hmode => exact h hmode

end Draft

/-! ## Whole sections -/

/-- The object name that the section behind a delimiter acquires: the last one that its lines
give. -/
def acquiredName (delimiter : Nat) (body : List NumberedLine) : String :=
  (Draft.namesGiven { record := some { line := delimiter } } body).getLastD ""

/-- The record of a section has the line of its delimiter and the name that was given last. -/
theorem hasName_readSection (delimiter : Nat) (body : List NumberedLine) :
    (readSection (some { line := delimiter }) body).HasName delimiter
      (acquiredName delimiter body) := by
  have hstart : Draft.HasName delimiter "" { record := some { line := delimiter } } :=
    ⟨_, rfl, rfl, rfl⟩
  exact (hstart.foldl_step body).finish

/-- What stands before the first delimiter is read without a record. -/
theorem record_readSection_none (body : List NumberedLine) :
    (readSection none body).record = none :=
  Draft.finish_of_none (Draft.foldl_step_of_none rfl body)

end Record

end ScreenForms
