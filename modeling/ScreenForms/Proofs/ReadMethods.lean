import ScreenForms.Import.Parameters
import ScreenForms.Proofs.ReadProperties
import ScreenForms.Proofs.RecordTexts
import ScreenForms.Proofs.Splitting

/-!
# Methods that are read again

The methods of a written record are read of the lines of its block of methods alone
(`WrittenRecord.methods_readSection`), and these lines are cut at the first lines of the methods
again (`Record.readMethods_written`). So methods are read as they are written when their names are
words and no line of a body is taken for anything else (`WrittenRecord.methods_survive`); the
parameters that a free method declares are split off its body again
(`Parameters.split_freeMethod`).
-/

namespace ScreenForms

open Text

namespace Record

variable {d : Draft} {l : List Char} {ls : List (List Char)}

/-! ## Lines of methods in a draft -/

/-- The line that opens the block of methods only changes what the draft is reading. -/
theorem Draft.step_startMethods (hmode : d.mode = .header) (n : Nat) :
    d.step ("[START METHODS]".toList, n) = { d with mode := .methods, methodLines := [] } := by
  have h : trim "[START METHODS]".toList = "[START METHODS]".toList := by decide
  unfold Draft.step
  simp only [hmode, trim_dropEndWhile_return, h]
  rfl

/-- The line that ends the block hands the collected lines over to the record. -/
theorem Draft.step_endMethods (hmode : d.mode = .methods) (n : Nat) :
    d.step ("[END METHODS]".toList, n) = { d.closeMethods with mode := .header } := by
  have h : trim "[END METHODS]".toList = "[END METHODS]".toList := by decide
  unfold Draft.step
  simp only [hmode, trim_dropEndWhile_return, h]
  rw [if_pos (by decide)]

theorem Draft.step_blank (hmode : d.mode = .header) (n : Nat) : d.step ([], n) = d := by
  unfold Draft.step
  simp only [hmode]
  rfl

/-- An open block of methods takes its lines in. -/
theorem Draft.foldl_step_methods (hmode : d.mode = .methods) {numbered : List NumberedLine}
    (h : ∀ l ∈ numbered, lower (trim l.1) ≠ "[end methods]".toList) :
    numbered.foldl Draft.step d =
      { d with methodLines :=
          d.methodLines ++ numbered.map fun l => dropEndWhile (· == '\r') l.1 } := by
  induction numbered generalizing d with
  | nil => simp
  | cons l numbered ih =>
    obtain ⟨hl, hrest⟩ := List.forall_mem_cons.mp h
    have hstep : d.step l =
        { d with methodLines := d.methodLines ++ [dropEndWhile (· == '\r') l.1] } := by
      unfold Draft.step
      simp only [hmode, trim_dropEndWhile_return]
      rw [if_neg hl]
    have hopen : (d.step l).mode = .methods := by rw [hstep, hmode]
    rw [List.foldl_cons, ih hopen hrest, hstep, List.map_cons, List.append_assoc]
    rfl

/-- A line with a key fills a field of the record, and none of these is its methods. -/
theorem Draft.methods_keyLine (d : Draft) (n : Nat) (text : List Char) :
    (d.keyLine n text).record.map Record.methods = d.record.map Record.methods := by
  unfold Draft.keyLine
  rcases readKey? text with _ | ⟨key, value⟩
  · rfl
  · dsimp only
    split_ifs
    iterate 5 rfl
    rcases hrecord : d.record with _ | r
    · simp [Draft.skip, hrecord]
    · unfold Draft.setField
      dsimp only
      split <;> rfl

/-- A property goes to the bag of the record and leaves its methods as they are. -/
theorem Draft.methods_propertyLine (d : Draft) (n : Nat) (text : List Char) :
    (d.propertyLine n text).record.map Record.methods = d.record.map Record.methods := by
  unfold Draft.propertyLine
  split_ifs
  · rfl
  · rcases readProperty? text with _ | ⟨name, value⟩
    · rfl
    · rcases hrecord : d.record with _ | r
      · simp [Draft.skip, hrecord]
      · rfl

/-- Only in a block of methods the methods of a record change. -/
theorem Draft.methods_step (hmode : d.mode ≠ .methods) (l : NumberedLine) :
    (d.step l).record.map Record.methods = d.record.map Record.methods := by
  unfold Draft.step
  rcases hm : d.mode with _ | _ | _ | _
  · dsimp only
    split_ifs
    exacts [rfl, d.methods_keyLine _ _, rfl]
  · dsimp only
    split_ifs
    exacts [rfl, d.methods_keyLine _ _, d.methods_propertyLine _ _]
  · exact absurd hm hmode
  · dsimp only
    split_ifs <;> rfl

/-- Lines that do not close a block of methods, and behind which none is open, leave the methods
of the record. -/
theorem Draft.methods_foldl_step {numbered : List NumberedLine}
    (h : ∀ l ∈ numbered, lower (trim l.1) ≠ "[end methods]".toList)
    (hmode : (numbered.foldl Draft.step d).mode ≠ .methods) :
    (numbered.foldl Draft.step d).record.map Record.methods = d.record.map Record.methods := by
  induction numbered generalizing d with
  | nil => rfl
  | cons l numbered ih =>
    have hclosed : d.mode ≠ .methods := by
      intro hopen
      rw [Draft.foldl_step_methods hopen h] at hmode
      exact hmode hopen
    rw [List.foldl_cons] at hmode ⊢
    rw [ih (List.forall_mem_cons.mp h).2 hmode, Draft.methods_step hclosed]

/-! ## Blocks of methods -/

/-- Lines that neither open nor end a procedure belong to the body in front of them. -/
theorem cutAtProcedures_append {body rest : List (List Char)}
    (h : ∀ l ∈ body, readProcedure? l = none ∧ isEndProcedure l = false) :
    cutAtProcedures (body ++ rest) =
      (body ++ (cutAtProcedures rest).1, (cutAtProcedures rest).2) := by
  induction body with
  | nil => rfl
  | cons l body ih =>
    obtain ⟨⟨hnone, hend⟩, hbody⟩ := List.forall_mem_cons.mp h
    rw [List.cons_append, cutAtProcedures, ih hbody]
    simp [hnone, hend]

/-- A procedure line starts a block, and everything up to the next such line is its body. -/
theorem cutAtProcedures_procedure {name : List Char} (h : readProcedure? l = some name)
    (rest : List (List Char)) :
    cutAtProcedures (l :: rest) =
      ([], (name, (cutAtProcedures rest).1) :: (cutAtProcedures rest).2) := by
  rw [cutAtProcedures]
  simp only [h]

/-- A line of a body that is read as nothing else. -/
structure IsBodyLine (l : List Char) : Prop where
  noReturn : l.getLast? ≠ some '\r'
  noProcedure : readProcedure? l = none
  noEnd : isEndProcedure l = false
  inBlock : IsMethodLine l

instance (l : List Char) : Decidable (IsMethodLine l) := inferInstanceAs (Decidable (_ ∧ _))

instance (l : List Char) : Decidable (IsBodyLine l) :=
  decidable_of_iff (l.getLast? ≠ some '\r' ∧ readProcedure? l = none ∧ isEndProcedure l = false ∧
      IsMethodLine l)
    ⟨fun ⟨h₁, h₂, h₃, h₄⟩ => ⟨h₁, h₂, h₃, h₄⟩, fun ⟨h₁, h₂, h₃, h₄⟩ => ⟨h₁, h₂, h₃, h₄⟩⟩

/-- A body that is empty or begins and ends with lines that are not blank, and of which no line is
read as anything else. -/
structure IsKeptBody (body : String) : Prop where
  first : body ≠ "" → ∀ l ∈ (splitOn '\n' body.toList).head?, trim l ≠ []
  last : body ≠ "" → ∀ l ∈ (splitOn '\n' body.toList).getLast?, trim l ≠ []
  lines : ∀ l ∈ splitOn '\n' body.toList, IsBodyLine l

instance (body : String) : Decidable (IsKeptBody body) :=
  decidable_of_iff ((body ≠ "" → ∀ l ∈ (splitOn '\n' body.toList).head?, trim l ≠ []) ∧
      (body ≠ "" → ∀ l ∈ (splitOn '\n' body.toList).getLast?, trim l ≠ []) ∧
      ∀ l ∈ splitOn '\n' body.toList, IsBodyLine l)
    ⟨fun ⟨first, last, lines⟩ => ⟨first, last, lines⟩,
      fun ⟨first, last, lines⟩ => ⟨first, last, lines⟩⟩

/-- A method that is read as it is written. -/
structure IsKeptMethod (m : RecordMethod) : Prop where
  name : isWord m.name = true
  body : IsKeptBody m.body

instance (m : RecordMethod) : Decidable (IsKeptMethod m) :=
  decidable_of_iff (isWord m.name = true ∧ IsKeptBody m.body)
    ⟨fun ⟨name, body⟩ => ⟨name, body⟩, fun ⟨name, body⟩ => ⟨name, body⟩⟩

/-- The lines of the body of a method as they are written. -/
def bodyLines (body : String) : List (List Char) :=
  if body = "" then [] else splitOn '\n' body.toList

/-- The lines of a method as they are written. -/
def writtenMethod (m : RecordMethod) : List (List Char) :=
  ("PROCEDURE ".toList ++ m.name.toList) :: bodyLines m.body ++ ["ENDPROC".toList]

/-- No line of a kept body can be taken for a procedure or for its end. -/
theorem IsKeptBody.isBodyLine {body : String} (h : IsKeptBody body) (hl : l ∈ bodyLines body) :
    IsBodyLine l := by
  unfold bodyLines at hl
  split at hl
  · cases hl
  · exact h.lines l hl

/-- Blank lines are taken away at both ends only, so that lines with full ends stay. -/
theorem trimLines_of_ends (hfirst : ∀ l ∈ ls.head?, trim l ≠ [])
    (hlast : ∀ l ∈ ls.getLast?, trim l ≠ []) : trimLines ls = ls := by
  have hstart : ls.dropWhile (fun l => (trim l).isEmpty) = ls := by
    cases ls with
    | nil => rfl
    | cons l ls =>
      rw [List.dropWhile_cons_of_neg]
      simpa using hfirst l rfl
  have hend : ls.reverse.dropWhile (fun l => (trim l).isEmpty) = ls.reverse := by
    rcases hreverse : ls.reverse with _ | ⟨l, rest⟩
    · rfl
    · rw [List.dropWhile_cons_of_neg]
      have hmem : l ∈ ls.getLast? := by
        rw [← List.head?_reverse, hreverse]
        rfl
      simpa using hlast l hmem
  unfold trimLines
  dsimp only
  rw [hstart, hend, List.reverse_reverse]

/-- A body is its lines joined again. -/
@[simp] theorem joinWith_bodyLines (body : String) :
    joinWith ['\n'] (bodyLines body) = body.toList := by
  unfold bodyLines
  split
  · next hempty =>
    rw [hempty]
    rfl
  · exact joinWith_splitOn '\n' body.toList

/-- A kept body has no blank line at either end, so that trimming it changes nothing. -/
theorem IsKeptBody.trimLines_eq {body : String} (h : IsKeptBody body) :
    trimLines (bodyLines body) = bodyLines body := by
  unfold bodyLines
  split
  · rfl
  · next hne => exact trimLines_of_ends (h.first hne) (h.last hne)

/-- The lines of a kept body are its pieces between line feeds, since none ends in a carriage
return. -/
theorem IsKeptBody.lines_eq {body : String} (h : IsKeptBody body) :
    Text.lines body.toList = bodyLines body := by
  unfold bodyLines
  split
  · next hempty =>
    rw [hempty]
    rfl
  · next hne =>
    exact lines_eq_splitOn (fun l hl => (h.lines l hl).noReturn) fun hlast =>
      h.last hne [] hlast rfl

theorem spanName?_word {key : String} (h : isWord key = true) :
    spanName? key.toList = some (key.toList, []) := by
  obtain ⟨c, cs, hkey, hstart, hall⟩ := isWord_iff_exists.mp h
  rw [hkey, spanName?, if_pos hstart, List.takeWhile_eq_self_iff.mpr hall,
    List.dropWhile_eq_nil_iff.mpr hall]

/-- A written procedure line gives its name back, which is a word. -/
theorem readProcedure?_word {name : String} (h : isWord name = true) :
    readProcedure? ("PROCEDURE ".toList ++ name.toList) = some name.toList := by
  obtain ⟨c, cs, hkey, hstart, -⟩ := isWord_iff_exists.mp h
  have hsolid : isAsciiBlank c = false :=
    not_isAsciiBlank_of_not_isBlank (not_isBlank_of_isNameStart hstart)
  have hlead : dropLeadNoCase? "procedure".toList
      (("PROCEDURE ".toList ++ name.toList).dropWhile isAsciiBlank) =
        some (' ' :: name.toList) := rfl
  have hname : (' ' :: name.toList).dropWhile isAsciiBlank = name.toList := by
    rw [List.dropWhile_cons_of_pos (by decide), hkey, List.dropWhile_cons_of_neg (by simp [hsolid])]
  unfold readProcedure?
  rw [hlead, Option.bind_eq_bind, Option.bind_some, hname, if_neg (by simp), spanName?_word h]
  rfl

/-- Methods are cut apart again. -/
theorem readMethods_written {methods : List RecordMethod} (h : ∀ m ∈ methods, IsKeptMethod m) :
    readMethods (methods.flatMap writtenMethod) = methods := by
  have hcut : (cutAtProcedures (methods.flatMap writtenMethod)) =
      ([], methods.map fun m => (m.name.toList, bodyLines m.body)) := by
    induction methods with
    | nil => rfl
    | cons m methods ih =>
      obtain ⟨hm, hrest⟩ := List.forall_mem_cons.mp h
      have hbody : ∀ l ∈ bodyLines m.body, readProcedure? l = none ∧ isEndProcedure l = false :=
        fun l hl => ⟨(hm.body.isBodyLine hl).noProcedure, (hm.body.isBodyLine hl).noEnd⟩
      have hend : cutAtProcedures ("ENDPROC".toList :: methods.flatMap writtenMethod) =
          ([], methods.map fun m => (m.name.toList, bodyLines m.body)) := by
        rw [cutAtProcedures, ih hrest]
        rfl
      rw [List.flatMap_cons, writtenMethod, List.cons_append, List.cons_append,
        List.append_assoc, List.singleton_append,
        cutAtProcedures_procedure (readProcedure?_word hm.name), cutAtProcedures_append hbody, hend,
        List.append_nil, List.map_cons]
  rw [readMethods, hcut, List.map_map]
  conv_rhs => rw [← List.map_id methods]
  refine List.map_congr_left fun m hm => ?_
  rw [Function.comp_apply, methodOfLines, (h m hm).body.trimLines_eq, joinWith_bodyLines,
    String.ofList_toList, String.ofList_toList, id_eq]

/-- Only carriage returns at the end of a line are lost on reading. -/
theorem dropEndWhile_return (h : l.getLast? ≠ some '\r') :
    dropEndWhile (· == '\r') l = l := by
  rcases hlast : l.getLast? with _ | c
  · rw [List.getLast?_eq_none_iff.mp hlast]
    rfl
  · exact dropEndWhile_of_getLast? hlast (beq_eq_false_iff_ne.mpr fun hc => h (hc ▸ hlast))

/-- The lines of a method are the written ones, up to carriage returns. A body may have lines of its
own, which are cut at the same line feeds in both texts. -/
theorem map_writtenLines_methodLines {m : RecordMethod} (h : IsKeptMethod m) :
    (writtenLines (WrittenRecord.methodLines m)).map (dropEndWhile (· == '\r')) =
      writtenMethod m := by
  have hline : ∀ l : List Char, l.getLast? ≠ some '\r' →
      dropEndWhile (· == '\r') (chomp l) = l := by
    intro l hl
    rw [dropEndWhile_chomp (by rfl), dropEndWhile_return hl]
  have hname : ∀ c, isNameChar c = false → c ∉ m.name.toList := by
    intro c hc hmem
    rw [isNameChar_of_mem_word h.name hmem] at hc
    cases hc
  have hfirst : (writtenLines ["PROCEDURE " ++ m.name]).map (dropEndWhile (· == '\r')) =
      ["PROCEDURE ".toList ++ m.name.toList] := by
    have hbreak : '\n' ∉ ("PROCEDURE " ++ m.name).toList := by
      simp [hname '\n' (by decide)]
    rw [writtenLines_of_forall (by simpa using hbreak), List.map_singleton, List.map_singleton,
      hline _ ?_, String.toList_append]
    intro hlast
    have hmem := List.mem_of_getLast? hlast
    simp [hname '\r' (by decide)] at hmem
  have hbody : (writtenLines (if m.body.isEmpty then [] else [m.body])).map
      (dropEndWhile (· == '\r')) = bodyLines m.body := by
    unfold bodyLines
    by_cases hempty : m.body = ""
    · rw [if_pos hempty, hempty]
      rfl
    · rw [if_neg hempty, if_neg (by simpa using hempty)]
      show (lines (m.body.toList ++ ['\n']) ++ []).map _ = _
      rw [List.append_nil, lines_append_singleton, List.map_map]
      conv_rhs => rw [← List.map_id (splitOn '\n' m.body.toList)]
      exact List.map_congr_left fun l hl => hline l (h.body.lines l hl).noReturn
  rw [WrittenRecord.methodLines, writtenLines_append, writtenLines_append, List.map_append,
    List.map_append, hfirst, hbody]
  rfl

/-- All methods of a record come out of the written lines as they went in, method by method. -/
theorem map_writtenLines_methods {methods : List RecordMethod}
    (h : ∀ m ∈ methods, IsKeptMethod m) :
    (writtenLines (methods.flatMap WrittenRecord.methodLines)).map (dropEndWhile (· == '\r')) =
      methods.flatMap writtenMethod := by
  induction methods with
  | nil => rfl
  | cons m methods ih =>
    obtain ⟨hm, hrest⟩ := List.forall_mem_cons.mp h
    rw [List.flatMap_cons, writtenLines_append, List.map_append, ih hrest,
      map_writtenLines_methodLines hm, List.flatMap_cons]

end Record

/-! ## Methods of written records -/

namespace WrittenRecord

open Record RecordWriter

/-- What is asked of a record so that its methods are read as they are written. -/
structure Keeps (w : WrittenRecord) : Prop where
  named : trim w.name.toList ≠ []
  name : '\n' ∉ w.name.toList
  uniqueId : '\n' ∉ w.uniqueId.toList
  className : '\n' ∉ w.className.toList
  parent : '\n' ∉ w.parent.toList
  properties : ∀ p ∈ w.properties, IsPlainKey p.1 ∧ '\n' ∉ p.2.toList
  methods : ∀ m ∈ w.methods, IsKeptMethod m

variable {w : WrittenRecord}

/-- What survives the reader is in particular a body that the writer can write. -/
theorem isPlainBody_of_isKeptBody {body : String} (h : IsKeptBody body) : IsPlainBody body := by
  intro l hl
  rw [h.lines_eq] at hl
  exact (h.isBodyLine hl).inBlock

/-- Records whose methods are kept can be read at all. -/
theorem Keeps.readable (h : w.Keeps) : w.Readable where
  uniqueId := h.uniqueId
  className := h.className
  name := h.name
  parent := h.parent
  properties := h.properties
  methods m hm := by
    refine ⟨fun hbreak => ?_, isPlainBody_of_isKeptBody (h.methods m hm).body⟩
    exact absurd (isNameChar_of_mem_word (h.methods m hm).name hbreak) (by decide)

/-- A text whose second character is another one does not close a block of methods. -/
theorem lower_trim_ne_endMethods {c : Char} (hc : isBlank c = false) (hlower : c.toLower ≠ 'e')
    (cs : List Char) : lower (trim ('[' :: c :: cs)) ≠ "[end methods]".toList := by
  rw [trim_cons_of_neg (by decide), trimEnd_cons_of_neg hc]
  intro heq
  exact hlower (List.cons.inj (List.cons.inj heq).2).1

/-- One line that does not close a block of methods. -/
structure StaysOpen (s : String) : Prop where
  oneLine : '\n' ∉ s.toList
  notEnd : lower (trim s.toList) ≠ "[end methods]".toList

/-- A field begins with its key, and no key begins with the letter of the closing line. -/
theorem staysOpen_field {key value : String} {c : Char} {cs : List Char}
    (hkey : key.toList = '[' :: c :: cs) (hblank : isBlank c = false) (hlower : c.toLower ≠ 'e')
    (hkeyBreak : '\n' ∉ key.toList) (hbreak : '\n' ∉ value.toList) : StaysOpen (key ++ value) where
  oneLine := by simp [hkeyBreak, hbreak]
  notEnd := by
    rw [String.toList_append, hkey]
    exact lower_trim_ne_endMethods hblank hlower _

/-- No field line of the front ends the section, whatever the record is called. -/
theorem staysOpen_fieldTexts (h : w.Readable) : ∀ s ∈ w.fieldTexts, StaysOpen s := by
  intro s hs
  have hparent : s ∈ (if w.parent.isEmpty then [] else ["[PARENT] " ++ w.parent]) →
      s = "[PARENT] " ++ w.parent := by
    split
    · exact fun hmem => absurd hmem List.not_mem_nil
    · exact List.mem_singleton.mp
  rcases List.mem_append.mp hs with hs | hs
  · simp only [List.mem_cons, List.not_mem_nil, or_false] at hs
    rcases hs with rfl | rfl | rfl | rfl | rfl
    · exact ⟨by decide, by decide⟩
    · exact staysOpen_field (c := 'U') rfl (by decide) (by decide) (by decide) h.uniqueId
    · exact staysOpen_field (c := 'C') rfl (by decide) (by decide) (by decide) h.className
    · exact staysOpen_field (c := 'B') rfl (by decide) (by decide) (by decide) h.className
    · exact staysOpen_field (c := 'O') rfl (by decide) (by decide) (by decide) h.name
  · rw [hparent hs]
    exact staysOpen_field (c := 'P') rfl (by decide) (by decide) (by decide) h.parent

/-- No property line does either, nor the two lines around the properties. -/
theorem staysOpen_propertyTexts (h : w.Readable) :
    ∀ s ∈ block "[START PROPERTIES]" "[END PROPERTIES]"
      (w.properties.map fun p => p.1 ++ " = " ++ p.2), StaysOpen s := by
  have hproperties : ∀ s ∈ w.properties.map (fun p => p.1 ++ " = " ++ p.2), StaysOpen s := by
    intro s hs
    obtain ⟨p, hp, rfl⟩ := List.mem_map.mp hs
    obtain ⟨hkey, hvalue⟩ := h.properties p hp
    exact ⟨by simp [hkey.1, hvalue],
      fun heq => head?_trim_property hkey p.2 (head?_of_lower_eq heq)⟩
  unfold block
  split
  · exact fun s hs => absurd hs List.not_mem_nil
  · refine List.forall_mem_cons.mpr ⟨⟨by decide, by decide⟩, List.forall_mem_append.mpr
      ⟨hproperties, fun s hs => ?_⟩⟩
    rw [List.mem_singleton.mp hs]
    exact ⟨by decide, by decide⟩

/-- No line in front of the block of methods closes one. -/
theorem lower_trim_ne_of_mem_frontTexts (h : w.Readable) {l : List Char}
    (hl : l ∈ writtenLines w.frontTexts) : lower (trim l) ≠ "[end methods]".toList := by
  have hall := List.forall_mem_append.mpr ⟨staysOpen_fieldTexts h, staysOpen_propertyTexts h⟩
  rw [frontTexts, writtenLines_of_forall fun s hs => (hall s hs).oneLine] at hl
  obtain ⟨s, hs, rfl⟩ := List.mem_map.mp hl
  rw [trim_chomp]
  exact (hall s hs).notEnd

/-- The block of methods gives its methods to a record without methods. Without any method there is
no block, and the record stays as it is. -/
theorem methods_foldl_block (h : w.Keeps) {d : Draft} (hmode : d.mode = .header)
    (hnone : d.record.map Record.methods = some []) {numbered : List NumberedLine}
    (hlines : numbered.map Prod.fst = writtenLines
      (block "[START METHODS]" "[END METHODS]" (w.methods.flatMap methodLines))) :
    (numbered.foldl Draft.step d).mode = .header ∧
      (numbered.foldl Draft.step d).record.map Record.methods = some w.methods := by
  unfold block at hlines
  split at hlines
  · next hempty =>
    have hnil : w.methods = [] := by
      rcases hw : w.methods with _ | ⟨m, rest⟩
      · rfl
      · rw [hw] at hempty
        cases hempty
    rw [List.map_eq_nil_iff.mp hlines, hnil]
    exact ⟨hmode, hnone⟩
  · rw [List.cons_append, ← List.singleton_append, writtenLines_append, writtenLines_append]
      at hlines
    obtain ⟨opening, rest, rfl, hopening, hrest⟩ := List.map_eq_append_iff.mp hlines
    obtain ⟨inner, closing, rfl, hinner, hclosing⟩ := List.map_eq_append_iff.mp hrest
    obtain ⟨n₁, rfl⟩ := exists_numbered (l := "[START METHODS]".toList) hopening
    obtain ⟨n₂, rfl⟩ := exists_numbered (l := "[END METHODS]".toList) hclosing
    have hcalm : ∀ l ∈ inner, lower (trim l.1) ≠ "[end methods]".toList := fun l hl =>
      (isMethodLine_of_mem_methodTexts h.readable (hinner ▸ List.mem_map_of_mem hl)).2
    have hkept : inner.map (fun l => dropEndWhile (· == '\r') l.1) =
        w.methods.flatMap writtenMethod := by
      have hcomp : inner.map (fun l => dropEndWhile (· == '\r') l.1) =
          (inner.map Prod.fst).map (dropEndWhile (· == '\r')) := by
        rw [List.map_map]
        rfl
      rw [hcomp, hinner, map_writtenLines_methods h.methods]
    rw [List.singleton_append, List.foldl_cons, Draft.step_startMethods hmode, List.foldl_append,
      Draft.foldl_step_methods rfl hcalm, List.nil_append, hkept, List.foldl_cons, List.foldl_nil,
      Draft.step_endMethods rfl, Draft.closeMethods, readMethods_written h.methods]
    obtain ⟨r, hrecord, -⟩ := Option.map_eq_some_iff.mp hnone
    rw [hrecord]
    exact ⟨rfl, rfl⟩

/-- The methods of the record that is read of the lines of a section. -/
theorem methods_readSection (h : w.Keeps) (line : Nat) {body : List NumberedLine}
    (hbody : body.map Prod.fst = writtenLines w.sectionTexts) :
    (readSection (some { line }) body).record.map Record.methods = some w.methods := by
  rw [sectionTexts_eq, writtenLines_append, writtenLines_append] at hbody
  obtain ⟨init, blank, rfl, hinit, hblank⟩ := List.map_eq_append_iff.mp hbody
  obtain ⟨front, methods, rfl, hfront, hmethods⟩ := List.map_eq_append_iff.mp hinit
  obtain ⟨n, rfl⟩ := exists_numbered (l := []) hblank
  have hstands := (leads_frontTexts h.readable line).run front { record := some { line } } hfront
    ⟨rfl, [], rfl⟩
  have hcalm : ∀ l ∈ front, lower (trim l.1) ≠ "[end methods]".toList := fun l hl =>
    lower_trim_ne_of_mem_frontTexts h.readable (hfront ▸ List.mem_map_of_mem hl)
  have hnone : (front.foldl Draft.step { record := some { line } }).record.map Record.methods =
      some [] := by
    rw [Draft.methods_foldl_step hcalm (by rw [hstands.1]; decide)]
    rfl
  obtain ⟨hmode, hkept⟩ := methods_foldl_block h hstands.1 hnone hmethods
  rw [readSection, List.foldl_append, List.foldl_append, List.foldl_cons, List.foldl_nil,
    Draft.step_blank hmode, Draft.finish, if_neg (by rw [hmode]; decide), hkept]

/-- Methods are read as they are written. -/
theorem map_methods_readAll {ws : List WrittenRecord} (h : ∀ w ∈ ws, w.Keeps) :
    (readAll (unlines (ws.flatMap WrittenRecord.lines))).records.map Record.methods =
      ws.map WrittenRecord.methods := by
  have hall : List.Forall₂ (fun (w : WrittenRecord) (r : Record) => r.methods = w.methods) ws
      (readAll (unlines (ws.flatMap WrittenRecord.lines))).records := by
    refine forall₂_readAll (fun w hw => (leads_sectionTexts (h w hw).readable 0).calm) ?_
      fun _ _ _ hr => hr
    intro w hw line body hbody
    obtain ⟨methods, hread⟩ := exists_readSection (h w hw).readable line hbody
    refine ⟨_, hread, isNamed_asRead (h w hw).named line methods, ?_⟩
    have hmethods := methods_readSection (h w hw) line hbody
    rw [hread] at hmethods
    exact Option.some.inj hmethods
  exact (List.forall₂_eq_eq_eq ▸ List.forall₂_map_right_iff.mpr
    (List.forall₂_map_left_iff.mpr (hall.imp fun _ _ hr => hr.symm)) :
      List.map WrittenRecord.methods ws = _).symm

end WrittenRecord

/-! ## Parameters of free methods -/

namespace Parameters

open Record RecordWriter

/-- A free method whose parameters can be read off its first line. -/
structure Declares (m : FormMethod) : Prop where
  some : m.parameters ≠ []
  names : ∀ p ∈ m.parameters, p ≠ "" ∧ trim p.toList = p.toList ∧ ',' ∉ p.toList ∧ '\n' ∉ p.toList
  body : IsKeptBody m.body

variable {m : FormMethod}

/-- The list of parameters is read back name by name, since no name holds a comma or a blank. -/
theorem namesOf_join (h : Declares m) :
    namesOf (Text.join ", " m.parameters).toList = m.parameters := by
  have hpieces : trimmedPieces ',' (joinWith [',', ' '] (m.parameters.map String.toList)) =
      m.parameters.map String.toList := by
    refine trimmedPieces_joinWith (by decide) (List.forall_mem_singleton.mpr rfl) fun l hl => ?_
    obtain ⟨p, hp, rfl⟩ := List.mem_map.mp hl
    obtain ⟨hne, htrim, hcomma, -⟩ := h.names p hp
    exact ⟨fun hnil => hne (String.toList_injective hnil), htrim, hcomma⟩
  rw [toList_join]
  show (trimmedPieces ',' (joinWith [',', ' '] _)).map String.ofList = _
  rw [hpieces, List.map_map]
  simp [Function.comp_def]

/-- The word that declares the parameters of a free method. -/
def declarationWord : List Char := ['L', 'P', 'A', 'R', 'A', 'M', 'E', 'T', 'E', 'R', 'S', ' ']

/-- The line that declares the parameters. -/
def declaration (m : FormMethod) : List Char :=
  declarationWord ++ (Text.join ", " m.parameters).toList

/-- The declaration of the parameters is one line, so that the first line feed ends it. -/
theorem newline_not_mem_declaration (h : Declares m) : '\n' ∉ declaration m := by
  have hjoin : '\n' ∉ joinWith ", ".toList (m.parameters.map String.toList) := by
    refine not_mem_joinWith (by decide) fun l hl => ?_
    obtain ⟨p, hp, rfl⟩ := List.mem_map.mp hl
    exact (h.names p hp).2.2.2
  rw [declaration, toList_join, List.mem_append]
  exact not_or.mpr ⟨by decide, hjoin⟩

/-- The line ends with the last parameter, and so with no blank. -/
theorem exists_getLast?_declaration (h : Declares m) :
    ∃ c, (declaration m).getLast? = some c ∧ isBlank c = false := by
  obtain ⟨init, p, hp⟩ := List.eq_nil_or_concat m.parameters |>.resolve_left h.some
  obtain ⟨hne, htrim, -, -⟩ := h.names p (by simp [hp])
  obtain ⟨front, hfront⟩ := exists_joinWith_concat ", ".toList (init.map String.toList) p.toList
  have hline : declaration m = declarationWord ++ front ++ p.toList := by
    rw [declaration, toList_join, hp, List.concat_eq_append, List.map_append, List.map_singleton,
      hfront, List.append_assoc]
  have hchars : p.toList ≠ [] := fun hnil => hne (String.toList_injective hnil)
  refine ⟨p.toList.getLast hchars, ?_, ?_⟩
  · rw [hline, List.getLast?_append_of_ne_nil _ hchars, List.getLast?_eq_some_getLast hchars]
  · have hend : (trim p.toList).getLast? = some (p.toList.getLast hchars) := by
      rw [htrim, List.getLast?_eq_some_getLast hchars]
    exact not_isBlank_of_getLast?_trim hend

/-- The parameters of a free method are split off the body it is written with. The declaration is
its first line, ends in no blank, and has no line feed of its own. -/
theorem split_freeMethod (h : Declares m) :
    split (freeMethod m).body = (m.parameters, m.body) := by
  obtain ⟨c, hlast, hblank⟩ := exists_getLast?_declaration h
  have htrim : trim (declaration m) = declaration m :=
    trim_of_ends (c := 'L') rfl (by decide) hlast hblank
  have hreturn : (declaration m).getLast? ≠ some '\r' := by
    rintro heq
    obtain rfl := Option.some.inj (hlast.symm.trans heq)
    cases hblank
  have htext : (freeMethod m).body.toList = declaration m ++ '\n' :: m.body.toList := by
    have hsome : ¬ m.parameters.isEmpty = true := by simpa using h.some
    rw [freeMethod, if_neg hsome, String.toList_append, String.toList_append, String.toList_append,
      List.append_assoc]
    rfl
  have hlines : Text.lines (freeMethod m).body.toList = declaration m :: bodyLines m.body := by
    rw [htext, lines_append_newline (newline_not_mem_declaration h), chomp_of_getLast? hreturn,
      h.body.lines_eq]
  have hfirst : (declaration m :: bodyLines m.body).find? (fun l => !(trim l).isEmpty) =
      some (declaration m) := by
    rw [List.find?_cons_of_pos]
    rw [htrim]
    rfl
  have hnames : declared? (trim (declaration m)) =
      some (Text.join ", " m.parameters).toList := by
    rw [htrim]
    rfl
  have herase : (declaration m :: bodyLines m.body).eraseP
      (fun l => trim l == trim (declaration m)) = bodyLines m.body :=
    List.eraseP_cons_of_pos (by simp)
  unfold split
  simp only [hlines, hfirst, hnames, herase, namesOf_join h, joinWith_bodyLines,
    String.ofList_toList]

end Parameters

/-! ## Both ways -/

open Record RecordWriter in
/-- The records that are read of written ones have their methods, in order and with the same
bodies, and the parameters of a free method are split off the body it is written with. -/
theorem methods_survive {ws : List WrittenRecord} (hws : ∀ w ∈ ws, w.Keeps) {m : FormMethod}
    (hm : Parameters.Declares m) :
    (readAll (unlines (ws.flatMap WrittenRecord.lines))).records.map Record.methods =
        ws.map WrittenRecord.methods ∧
      Parameters.split (freeMethod m).body = (m.parameters, m.body) :=
  ⟨WrittenRecord.map_methods_readAll hws, Parameters.split_freeMethod hm⟩

/-- A record whose methods have lines that look like marks of blocks. -/
def markedMethods : WrittenRecord :=
  { className := "commandbutton"
    name := "cmdOk"
    parent := "Form1"
    uniqueId := "_0000CMDOK"
    methods :=
      [⟨"Click", "* first\n\n  procedures = 1\n\tENDPROCS\n[END METHOD]\nPROCEDURE"⟩,
        ⟨"When", ""⟩,
        ⟨"opage.Valid", "  RETURN .T."⟩] }

/-- A free method with a body that begins like its declaration. -/
def declaredTwice : FormMethod :=
  ⟨"place", ["tnLeft", "tc Name"], "LPARAMETERS tnLeft, tc Name\n\n  RETURN tnLeft"⟩

open Record RecordWriter in
theorem methods_survive_markedMethods :
    markedMethods.Keeps ∧ Parameters.Declares declaredTwice ∧
      (readAll (unlines ([markedMethods].flatMap WrittenRecord.lines))).records.map
          Record.methods = [markedMethods.methods] ∧
      Parameters.split (freeMethod declaredTwice).body =
        (declaredTwice.parameters, declaredTwice.body) := by
  have hmarked : markedMethods.Keeps :=
    { named := by decide
      name := by decide
      uniqueId := by decide
      className := by decide
      parent := by decide
      properties := fun p hp => absurd hp List.not_mem_nil
      methods := by decide +kernel }
  have hdeclared : Parameters.Declares declaredTwice :=
    ⟨by decide, by decide +kernel, by decide +kernel⟩
  exact ⟨hmarked, hdeclared, methods_survive (List.forall_mem_singleton.mpr hmarked) hdeclared⟩

end ScreenForms
