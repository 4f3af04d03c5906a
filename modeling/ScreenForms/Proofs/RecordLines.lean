import ScreenForms.Proofs.Folding
import ScreenForms.Proofs.LineBreaks
import ScreenForms.Record.Reader
import ScreenForms.Record.Writer

/-!
# Reading the lines of a written record

The reader goes through the lines of a section with a mode and a record that fills up. `Leads`
says where lines lead from one mode and record, whatever their numbers are; leading composes, and
there is one lemma for each kind of line. So the record that is read from a written one is known
up to its methods (`WrittenRecord.leads_sectionTexts`).
-/

namespace ScreenForms

open Text

namespace Record

/-! ## Leading -/

/-- A draft reads in a mode and holds a record, up to its methods. -/
def Draft.Stands (d : Draft) (mode : Mode) (r : Record) : Prop :=
  d.mode = mode ∧ ∃ methods, d.record = some { r with methods }

/-- Lines of which none opens a record lead from a mode and a record to others. -/
structure Leads (mode : Mode) (r : Record) (ls : List (List Char)) (mode' : Mode)
    (r' : Record) : Prop where
  calm : ∀ l ∈ ls, isDelimiter l = false
  run : ∀ (numbered : List NumberedLine) (d : Draft), numbered.map Prod.fst = ls →
    d.Stands mode r → (numbered.foldl Draft.step d).Stands mode' r'

variable {mode mode' mode'' : Mode} {r r' r'' : Record} {l : List Char} {ls ls' : List (List Char)}

theorem exists_numbered {numbered : List NumberedLine} (h : numbered.map Prod.fst = [l]) :
    ∃ n, numbered = [(l, n)] := by
  obtain ⟨⟨_, n⟩, rest, rfl, rfl, hrest⟩ := List.map_eq_cons_iff.mp h
  exact ⟨n, by rw [List.map_eq_nil_iff.mp hrest]⟩

namespace Leads

theorem nil : Leads mode r [] mode r := by
  refine ⟨by simp, fun numbered d hls hd => ?_⟩
  rw [List.map_eq_nil_iff.mp hls]
  exact hd

/-- Lines that lead from one mode to another may be put together where the modes meet. -/
theorem append (h : Leads mode r ls mode' r') (h' : Leads mode' r' ls' mode'' r'') :
    Leads mode r (ls ++ ls') mode'' r'' := by
  refine ⟨List.forall_mem_append.mpr ⟨h.calm, h'.calm⟩, fun numbered d hls hd => ?_⟩
  obtain ⟨first, rest, rfl, hfirst, hrest⟩ := List.map_eq_append_iff.mp hls
  rw [List.foldl_append]
  exact h'.run rest _ hrest (h.run first d hfirst hd)

/-- One line is enough to be looked at, wherever it stands and whatever has been read before. -/
theorem single (hcalm : isDelimiter l = false)
    (h : ∀ (n : Nat) (d : Draft), d.Stands mode r → (d.step (l, n)).Stands mode' r') :
    Leads mode r [l] mode' r' := by
  refine ⟨by simpa using hcalm, fun numbered d hls hd => ?_⟩
  obtain ⟨n, rfl⟩ := exists_numbered hls
  exact h n d hd

end Leads

/-! ## Kinds of lines -/

/-- A carriage return at the end of a line is a blank, so it is trimmed anyway. -/
theorem trim_dropEndWhile_return (l : List Char) :
    trim (dropEndWhile (· == '\r') l) = trim l := by
  rw [← trim_trimEnd, trimEnd, dropEndWhile_dropEndWhile, ← trimEnd, trim_trimEnd]
  intro c hc
  obtain rfl := beq_iff_eq.mp hc
  rfl

/-- Whether a line is a delimiter is decided by what is left of it without blanks. -/
theorem isDelimiter_of_trim_eq {t : List Char} (h : trim l = t)
    (ht : t ≠ "[ RECORD]".toList) : isDelimiter l = false := by
  rw [isDelimiter, h]
  exact beq_eq_false_iff_ne.mpr ht

/-- Blank lines between the parts of a record mean nothing. -/
theorem leads_blank (h : trim l = []) : Leads .header r [l] .header r := by
  refine .single (isDelimiter_of_trim_eq h (by decide)) fun n d hd => ?_
  unfold Draft.step
  simp only [hd.1, trim_dropEndWhile_return, h]
  exact hd

/-- The keys that name fields of a record. -/
def fieldKeys : List String :=
  ["PLATFORM", "UNIQUEID", "CLASS", "BASECLASS", "OBJNAME", "PARENT"]

/-- The fields of a record and its methods are set independently. -/
theorem setField_methods {key : String} (h : key ∈ fieldKeys) (value : String) (r : Record)
    (methods : List RecordMethod) :
    Draft.setField key value { r with methods } = { Draft.setField key value r with methods } := by
  simp only [fieldKeys, List.mem_cons, List.not_mem_nil, or_false] at h
  rcases h with rfl | rfl | rfl | rfl | rfl | rfl <;> rfl

/-- A line with one of the keys for fields sets the field, and does nothing else. -/
theorem keyLine_eq {key value : String} (h : key ∈ fieldKeys) {text : List Char}
    (hread : readKey? text = some (key.toList, value.toList)) {d : Draft}
    (hrecord : d.record = some r) (n : Nat) :
    d.keyLine n text = { d with record := some (Draft.setField key value r) } := by
  unfold Draft.keyLine
  simp only [hread, hrecord, String.ofList_toList]
  simp only [fieldKeys, List.mem_cons, List.not_mem_nil, or_false] at h
  rcases h with rfl | rfl | rfl | rfl | rfl | rfl <;> rfl

/-- Keys stand in square brackets. -/
theorem exists_of_readKey? {text : List Char} {k : List Char × List Char}
    (h : readKey? text = some k) : ∃ cs, text = '[' :: cs := by
  unfold readKey? at h
  split at h
  · exact ⟨_, rfl⟩
  · cases h

/-- A key with a value sets a field. -/
theorem leads_key {key value : String} (h : key ∈ fieldKeys)
    (hread : readKey? (trim l) = some (key.toList, value.toList)) :
    Leads .header r [l] .header (Draft.setField key value r) := by
  refine .single (isDelimiter_of_trim_eq rfl fun hdelimiter => ?_) fun n d hd => ?_
  · have hrecord : readKey? "[ RECORD]".toList = some ("RECORD".toList, "".toList) := by decide
    rw [hdelimiter, hrecord, Option.some.injEq, Prod.mk.injEq, String.toList_inj] at hread
    obtain ⟨rfl, -⟩ := hread
    exact absurd h (by decide)
  · obtain ⟨cs, hcs⟩ := exists_of_readKey? hread
    obtain ⟨hmode, methods, hrecord⟩ := hd
    unfold Draft.step
    simp only [hmode, trim_dropEndWhile_return]
    rw [hcs, List.isEmpty_cons, if_neg (by decide), List.head?_cons, if_pos rfl, ← hcs,
      keyLine_eq h hread hrecord]
    exact ⟨hmode, methods, by rw [← setField_methods h]⟩

/-- The lines that open and close the block of properties. -/
theorem leads_startProperties : Leads .header r (writtenLines ["[START PROPERTIES]"]) .properties r := by
  show Leads .header r ["[START PROPERTIES]".toList] .properties r
  have h : trim "[START PROPERTIES]".toList = "[START PROPERTIES]".toList := by decide
  refine .single (isDelimiter_of_trim_eq h (by decide)) fun n d hd => ?_
  unfold Draft.step
  simp only [hd.1, trim_dropEndWhile_return, h]
  exact ⟨rfl, hd.2⟩

/-- The last line of the block of properties leads back to the keys. -/
theorem leads_endProperties : Leads .properties r (writtenLines ["[END PROPERTIES]"]) .header r := by
  show Leads .properties r ["[END PROPERTIES]".toList] .header r
  have h : trim "[END PROPERTIES]".toList = "[END PROPERTIES]".toList := by decide
  refine .single (isDelimiter_of_trim_eq h (by decide)) fun n d hd => ?_
  unfold Draft.step
  simp only [hd.1, trim_dropEndWhile_return, h]
  exact ⟨rfl, hd.2⟩

/-- The property that a line is read as. -/
def propertyOf? (l : List Char) : Option (String × Value) :=
  (readProperty? (trim l)).map fun p => (String.ofList p.1, Value.sniff (String.ofList p.2))

/-- A carriage return at the end of a property belongs to its blanks. -/
theorem propertyOf?_chomp (l : List Char) : propertyOf? (chomp l) = propertyOf? l := by
  rw [propertyOf?, trim_chomp, propertyOf?]

/-- The square bracket has only one case, so it is found in every spelling of a keyword. -/
theorem head?_of_lower_eq {cs ds : List Char} (h : lower cs = '[' :: ds) :
    cs.head? = some '[' := by
  have hhead : cs.head?.map Char.toLower = some '[' := by
    rw [← List.head?_map]
    exact congrArg List.head? h
  obtain ⟨c, hc, hlower⟩ := Option.map_eq_some_iff.mp hhead
  exact eq_of_toLower_eq hlower (by decide) ▸ hc

/-- A line of the block of properties adds the property that it is read as. -/
theorem leads_property (h : (trim l).head? ≠ some '[') :
    Leads .properties r [l] .properties
      { r with properties := r.properties ++ (propertyOf? l).toList } := by
  refine .single (isDelimiter_of_trim_eq rfl ?_) fun n d hd => ?_
  · intro hdelimiter
    exact h (by rw [hdelimiter]; rfl)
  · obtain ⟨hmode, methods, hrecord⟩ := hd
    have hend : lower (trim l) ≠ "[end properties]".toList := fun heq => h (head?_of_lower_eq heq)
    unfold Draft.step
    simp only [hmode, trim_dropEndWhile_return]
    rw [if_neg hend, if_neg h]
    unfold Draft.propertyLine propertyOf?
    rcases htext : trim l with _ | ⟨c, cs⟩
    · exact ⟨hmode, methods, by simpa [readProperty?, spanName?] using hrecord⟩
    · rcases hread : readProperty? (c :: cs) with _ | ⟨name, value⟩
      · exact ⟨hmode, methods, by simpa [Draft.skip] using hrecord⟩
      · simp only [hrecord]
        exact ⟨hmode, methods, rfl⟩

/-- Lines that do not begin with a square bracket are read as properties, one after the other. -/
theorem leads_properties (h : ∀ l ∈ ls, (trim l).head? ≠ some '[') :
    Leads .properties r ls .properties
      { r with properties := r.properties ++ ls.filterMap propertyOf? } := by
  induction ls generalizing r with
  | nil =>
    rw [List.filterMap_nil, List.append_nil]
    exact .nil
  | cons l ls ih =>
    obtain ⟨hl, hls⟩ := List.forall_mem_cons.mp h
    have hrest := ih (r := { r with properties := r.properties ++ (propertyOf? l).toList }) hls
    have hall := (leads_property (r := r) hl).append hrest
    have hlist : r.properties ++ (l :: ls).filterMap propertyOf? =
        r.properties ++ (propertyOf? l).toList ++ ls.filterMap propertyOf? := by
      rcases hp : propertyOf? l with _ | p <;> simp [hp]
    rw [hlist]
    exact hall

/-! ## Methods -/

/-- The first line of the block of methods leads into it. -/
theorem leads_startMethods : Leads .header r (writtenLines ["[START METHODS]"]) .methods r := by
  show Leads .header r ["[START METHODS]".toList] .methods r
  have h : trim "[START METHODS]".toList = "[START METHODS]".toList := by decide
  refine .single (isDelimiter_of_trim_eq h (by decide)) fun n d hd => ?_
  unfold Draft.step
  simp only [hd.1, trim_dropEndWhile_return, h]
  exact ⟨rfl, hd.2⟩

/-- The last line of the block leads back to the keys, with the record as it was: what methods are
read is left open. -/
theorem leads_endMethods : Leads .methods r (writtenLines ["[END METHODS]"]) .header r := by
  show Leads .methods r ["[END METHODS]".toList] .header r
  have h : trim "[END METHODS]".toList = "[END METHODS]".toList := by decide
  refine .single (isDelimiter_of_trim_eq h (by decide)) fun n d hd => ?_
  obtain ⟨hmode, methods, hrecord⟩ := hd
  unfold Draft.step
  simp only [hmode, trim_dropEndWhile_return, h]
  rw [if_pos (by decide)]
  refine ⟨rfl, readMethods d.methodLines, ?_⟩
  rw [Draft.closeMethods, hrecord]
  rfl

/-- A line that neither opens a record nor closes a block of methods. -/
def IsMethodLine (l : List Char) : Prop :=
  trim l ≠ "[ RECORD]".toList ∧ lower (trim l) ≠ "[end methods]".toList

/-- A line that does not begin with a square bracket does not end the block of methods. -/
theorem isMethodLine_of_head? (h : (trim l).head? ≠ some '[') : IsMethodLine l :=
  ⟨fun heq => h (by rw [heq]; rfl), fun heq => h (head?_of_lower_eq heq)⟩

/-- Blanks at its ends do not matter for that. -/
theorem isMethodLine_congr {l l' : List Char} (h : trim l = trim l') :
    IsMethodLine l ↔ IsMethodLine l' := by
  rw [IsMethodLine, IsMethodLine, h]

theorem leads_methodLine (h : IsMethodLine l) : Leads .methods r [l] .methods r := by
  refine .single (isDelimiter_of_trim_eq rfl h.1) fun n d hd => ?_
  unfold Draft.step
  simp only [hd.1, trim_dropEndWhile_return]
  rw [if_neg h.2]
  exact ⟨rfl, hd.2⟩

/-- Lines in the block of methods change nothing but the methods, by induction on the lines. -/
theorem leads_methodLines (h : ∀ l ∈ ls, IsMethodLine l) : Leads .methods r ls .methods r := by
  induction ls with
  | nil => exact .nil
  | cons l ls ih =>
    obtain ⟨hl, hls⟩ := List.forall_mem_cons.mp h
    exact (leads_methodLine hl).append (ih hls)

/-! ## Written keys -/

/-- The line of a key and its value is read as the key and the value without blanks around it. The
six keys are words or pairs of words in capitals, and the bracket ends them. -/
theorem readKey?_line {key : String} (hkey : key ∈ fieldKeys) (value : List Char) :
    readKey? (trim ('[' :: key.toList ++ ']' :: ' ' :: value)) =
      some (key.toList, trim value) := by
  have hword : key.toList ≠ [] ∧ upper (trim key.toList) = key.toList ∧
      key.toList.all (fun c => !isBlank c) = true ∧
      key.toList.all (fun c => isWordChar c || c == ' ') = true := by
    simp only [fieldKeys, List.mem_cons, List.not_mem_nil, or_false] at hkey
    rcases hkey with rfl | rfl | rfl | rfl | rfl | rfl <;> decide
  obtain ⟨hne, hupper, hsolid, hspan⟩ := hword
  rw [List.all_eq_true] at hsolid hspan
  have htrim : trim ('[' :: key.toList ++ ']' :: ' ' :: value) =
      '[' :: key.toList ++ ']' :: trimEnd (' ' :: value) := by
    have hfront : ∀ c ∈ '[' :: key.toList ++ [']'], isBlank c = false := by
      intro c hc
      rcases List.mem_append.mp hc with hc | hc
      · rcases List.mem_cons.mp hc with rfl | hc
        · decide
        · simpa using hsolid c hc
      · rw [List.mem_singleton.mp hc]
        decide
    rw [trim, trimStart, List.cons_append, List.dropWhile_cons_of_neg (by decide)]
    have := dropEndWhile_append_of_neg hfront (' ' :: value)
    simpa [trimEnd] using this
  have htake : (key.toList ++ ']' :: trimEnd (' ' :: value)).takeWhile
      (fun c => isWordChar c || c == ' ') = key.toList := by
    rw [List.takeWhile_append_of_pos hspan, List.takeWhile_cons_of_neg (by decide),
      List.append_nil]
  have hdrop : (key.toList ++ ']' :: trimEnd (' ' :: value)).dropWhile
      (fun c => isWordChar c || c == ' ') = ']' :: trimEnd (' ' :: value) := by
    rw [List.dropWhile_append_of_pos hspan, List.dropWhile_cons_of_neg (by decide)]
  have hvalue : trim (' ' :: value) = trim value := trim_cons_of_pos rfl value
  rw [htrim, List.cons_append, readKey?]
  simp only [htake, hdrop, hupper, trim_trimEnd, hvalue]
  rw [if_neg (by simpa using hne)]

/-- A written key sets its field. -/
theorem leads_field (key value : String) {s : String} (hkey : key ∈ fieldKeys)
    (hs : s.toList = '[' :: key.toList ++ ']' :: ' ' :: value.toList)
    (hvalue : '\n' ∉ value.toList) :
    Leads .header r (writtenLines [s]) .header (Draft.setField key (trimmed value) r) := by
  have hbreak : '\n' ∉ s.toList := by
    have hword : '\n' ∉ key.toList := by
      simp only [fieldKeys, List.mem_cons, List.not_mem_nil, or_false] at hkey
      rcases hkey with rfl | rfl | rfl | rfl | rfl | rfl <;> decide
    rw [hs]
    simp [hword, hvalue]
  have hline : writtenLines [s] = [chomp s.toList] := by
    rw [writtenLines_of_forall (by simpa using hbreak)]
    rfl
  rw [hline]
  refine leads_key hkey ?_
  rw [trim_chomp, hs, readKey?_line hkey, toList_onChars]

end Record

/-! ## Sections -/

namespace WrittenRecord

open Record

/-- The texts of the fields of a record. -/
def fieldTexts (w : WrittenRecord) : List String :=
  ["[PLATFORM] WINDOWS", "[UNIQUEID] " ++ w.uniqueId, "[CLASS] " ++ w.className,
    "[BASECLASS] " ++ w.className, "[OBJNAME] " ++ w.name] ++
  if w.parent.isEmpty then [] else ["[PARENT] " ++ w.parent]

/-- The texts of a record behind its first line. -/
def sectionTexts (w : WrittenRecord) : List String :=
  w.fieldTexts ++
  block "[START PROPERTIES]" "[END PROPERTIES]"
    (w.properties.map fun p => p.1 ++ " = " ++ p.2) ++
  block "[START METHODS]" "[END METHODS]" (w.methods.flatMap methodLines) ++
  [""]

/-- The texts of the fields and the properties of a record. -/
def frontTexts (w : WrittenRecord) : List String :=
  w.fieldTexts ++ block "[START PROPERTIES]" "[END PROPERTIES]"
    (w.properties.map fun p => p.1 ++ " = " ++ p.2)

/-- A section consists of its front, the block of methods and an empty line. -/
theorem sectionTexts_eq (w : WrittenRecord) : w.sectionTexts =
    w.frontTexts ++ block "[START METHODS]" "[END METHODS]" (w.methods.flatMap methodLines) ++
      [""] := rfl

/-- And a record is the delimiter with its section behind it. -/
theorem lines_eq (w : WrittenRecord) : w.lines = "[ RECORD]" :: w.sectionTexts := by
  simp [WrittenRecord.lines, sectionTexts, fieldTexts]

/-- The record that is read, but for its line, its methods and its id. -/
def asRead (w : WrittenRecord) : Record :=
  { platform := "WINDOWS"
    uniqueId := trimmed w.uniqueId
    className := trimmed w.className
    baseClass := trimmed w.className
    objName := trimmed w.name
    parent := trimmed w.parent
    properties := w.properties.filterMap fun p => propertyOf? (p.1 ++ " = " ++ p.2).toList }

/-- A name that may begin a line of the block of properties. -/
def IsPlainKey (key : String) : Prop :=
  '\n' ∉ key.toList ∧ ∀ c, key.toList.head? = some c → isBlank c = false ∧ c ≠ '['

/-- A body of which no line opens a record or closes a block of methods. -/
def IsPlainBody (body : String) : Prop := ∀ l ∈ Text.lines body.toList, IsMethodLine l

/-- What is asked of a record so that every part of it is read on the lines it is written on. -/
structure Readable (w : WrittenRecord) : Prop where
  uniqueId : '\n' ∉ w.uniqueId.toList
  className : '\n' ∉ w.className.toList
  name : '\n' ∉ w.name.toList
  parent : '\n' ∉ w.parent.toList
  properties : ∀ p ∈ w.properties, IsPlainKey p.1 ∧ '\n' ∉ p.2.toList
  methods : ∀ m ∈ w.methods, '\n' ∉ m.name.toList ∧ IsPlainBody m.body

variable {w : WrittenRecord}

/-- The fields of a record are read one after the other. Behind them stands what is read of the
record, still without its properties. -/
theorem leads_fieldTexts (h : w.Readable) (line : Nat) :
    Leads .header { line } (writtenLines w.fieldTexts) .header
      { w.asRead with line, properties := [] } := by
  have hplatform : Leads .header { line } (writtenLines ["[PLATFORM] WINDOWS"]) .header
      { line, platform := "WINDOWS" } :=
    leads_field "PLATFORM" "WINDOWS" (by decide) rfl (by decide)
  have hid : ∀ r, Leads .header r (writtenLines ["[UNIQUEID] " ++ w.uniqueId]) .header
      { r with uniqueId := trimmed w.uniqueId } := fun r =>
    leads_field "UNIQUEID" _ (by decide) (by rw [String.toList_append]; rfl) h.uniqueId
  have hclass : ∀ r, Leads .header r (writtenLines ["[CLASS] " ++ w.className]) .header
      { r with className := trimmed w.className } := fun r =>
    leads_field "CLASS" _ (by decide) (by rw [String.toList_append]; rfl) h.className
  have hbase : ∀ r, Leads .header r (writtenLines ["[BASECLASS] " ++ w.className]) .header
      { r with baseClass := trimmed w.className } := fun r =>
    leads_field "BASECLASS" _ (by decide) (by rw [String.toList_append]; rfl) h.className
  have hname : ∀ r, Leads .header r (writtenLines ["[OBJNAME] " ++ w.name]) .header
      { r with objName := trimmed w.name } := fun r =>
    leads_field "OBJNAME" _ (by decide) (by rw [String.toList_append]; rfl) h.name
  have hparent : ∀ r : Record, r.parent = "" →
      Leads .header r (writtenLines (if w.parent.isEmpty then [] else ["[PARENT] " ++ w.parent]))
        .header { r with parent := trimmed w.parent } := by
    intro r hr
    split
    · next hempty =>
      have hsame : { r with parent := trimmed w.parent } = r := by
        rw [String.isEmpty_iff.mp hempty]
        show { r with parent := "" } = r
        rw [← hr]
      rw [hsame]
      exact .nil
    · exact leads_field "PARENT" _ (by decide) (by rw [String.toList_append]; rfl) h.parent
  have hall := (((((hplatform.append (hid _)).append (hclass _)).append (hbase _)).append
    (hname _)).append (hparent _ rfl))
  simp only [← writtenLines_append] at hall
  exact hall

/-- A block is read as its first line, its body and its last line. Where the body is empty the block
is not written at all, and then nothing may have changed. -/
theorem leads_block {mode : Mode} {r r' : Record} {first last : String} {body : List String}
    (hfirst : Leads .header r (writtenLines [first]) mode r)
    (hbody : Leads mode r (writtenLines body) mode r')
    (hlast : Leads mode r' (writtenLines [last]) .header r') (hempty : body = [] → r' = r) :
    Leads .header r (writtenLines (block first last body)) .header r' := by
  unfold block
  split
  · next hnil =>
    rw [hempty (List.isEmpty_iff.mp hnil)]
    exact .nil
  · have hall := (hfirst.append hbody).append hlast
    simp only [← writtenLines_append] at hall
    exact hall

/-- A property is not taken for a key. -/
theorem head?_trim_property {key : String} (h : IsPlainKey key) (value : String) :
    (trim (key ++ " = " ++ value).toList).head? ≠ some '[' := by
  have htext : (key ++ " = " ++ value).toList = key.toList ++ ' ' :: '=' :: ' ' :: value.toList := by
    rw [String.toList_append, String.toList_append, List.append_assoc]
    rfl
  rw [htext]
  rcases hkey : key.toList with _ | ⟨c, cs⟩
  · rw [List.nil_append, trim_cons_of_pos (by decide), trim_cons_of_neg (by decide)]
    exact fun heq => absurd (Option.some.inj heq) (by decide)
  · obtain ⟨hblank, hne⟩ := h.2 c (by rw [hkey]; rfl)
    rw [List.cons_append, trim_cons_of_neg hblank, List.head?_cons]
    simpa using hne

/-- The properties are read as they are written, in their order. No key or value has a line feed, so
that each property is one line. -/
theorem leads_propertyTexts (h : w.Readable) (line : Nat) :
    Leads .properties { w.asRead with line, properties := [] }
      (writtenLines (w.properties.map fun p => p.1 ++ " = " ++ p.2)) .properties
      { w.asRead with line } := by
  have hbreak : ∀ s ∈ w.properties.map (fun p => p.1 ++ " = " ++ p.2), '\n' ∉ s.toList := by
    intro s hs
    obtain ⟨p, hp, rfl⟩ := List.mem_map.mp hs
    obtain ⟨hkey, hvalue⟩ := h.properties p hp
    simp [hkey.1, hvalue]
  rw [writtenLines_of_forall hbreak, List.map_map]
  have hread : (w.properties.map
      ((fun s => chomp s.toList) ∘ fun p => p.1 ++ " = " ++ p.2)).filterMap propertyOf? =
        w.asRead.properties := by
    rw [List.filterMap_map]
    exact List.filterMap_congr fun p _ => propertyOf?_chomp _
  have hall : Leads .properties { w.asRead with line, properties := [] }
      (w.properties.map ((fun s => chomp s.toList) ∘ fun p => p.1 ++ " = " ++ p.2)) .properties
      { w.asRead with line, properties := (w.properties.map
        ((fun s => chomp s.toList) ∘ fun p => p.1 ++ " = " ++ p.2)).filterMap propertyOf? } := by
    refine leads_properties fun l hl => ?_
    obtain ⟨p, hp, rfl⟩ := List.mem_map.mp hl
    rw [Function.comp_apply, trim_chomp]
    exact head?_trim_property (h.properties p hp).1 p.2
  rw [hread] at hall
  exact hall

/-- No line of a written method ends the block of methods. The lines that the writer adds begin with
a letter, and a plain body has no such line. -/
theorem isMethodLine_of_mem_methodTexts (h : w.Readable) {l : List Char}
    (hl : l ∈ writtenLines (w.methods.flatMap methodLines)) : IsMethodLine l := by
  obtain ⟨s, hs, hl⟩ := List.mem_flatMap.mp hl
  obtain ⟨m, hm, hs⟩ := List.mem_flatMap.mp hs
  obtain ⟨hname, hbody⟩ := h.methods m hm
  -- a single line is a method line when it does not begin with a bracket
  have hsingle : ∀ c cs, isBlank c = false → c ≠ '[' → '\n' ∉ c :: cs → s.toList = c :: cs →
      IsMethodLine l := by
    intro c cs hblank hne hbreak heq
    rw [heq, lines_append_newline hbreak] at hl
    obtain rfl := List.mem_singleton.mp hl
    refine isMethodLine_of_head? ?_
    rw [trim_chomp, trim_cons_of_neg hblank, List.head?_cons]
    simpa using hne
  rcases List.mem_append.mp hs with hs | hs
  · rcases List.mem_append.mp hs with hs | hs
    · obtain rfl := List.mem_singleton.mp hs
      refine hsingle 'P' ("ROCEDURE ".toList ++ m.name.toList) (by decide) (by decide) ?_
        (by rw [String.toList_append]; rfl)
      simp [hname]
    · split at hs
      · cases hs
      · obtain rfl := List.mem_singleton.mp hs
        rcases trim_eq_of_mem_lines hl with hblank | ⟨l', hl', heq⟩
        · refine isMethodLine_of_head? ?_
          rw [hblank]
          exact nofun
        · exact (isMethodLine_congr heq).mpr (hbody l' hl')
  · obtain rfl := List.mem_singleton.mp hs
    exact hsingle 'E' "NDPROC".toList (by decide) (by decide) (by decide) rfl

/-- So all of them are read within this block. -/
theorem leads_methodTexts (h : w.Readable) (r : Record) :
    Leads .methods r (writtenLines (w.methods.flatMap methodLines)) .methods r :=
  leads_methodLines fun _ => isMethodLine_of_mem_methodTexts h

/-- The fields and the properties of a record lead to what is read of it. -/
theorem leads_frontTexts (h : w.Readable) (line : Nat) :
    Leads .header { line } (writtenLines w.frontTexts) .header { w.asRead with line } := by
  have hproperties := leads_block leads_startProperties (leads_propertyTexts h line)
    leads_endProperties fun hnil => by
      have hnone : w.asRead.properties = [] := by
        rw [asRead, List.map_eq_nil_iff.mp hnil, List.filterMap_nil]
      simp [hnone]
  unfold frontTexts
  rw [writtenLines_append]
  exact (leads_fieldTexts h line).append hproperties

/-- The lines of a record lead to what is read of it. -/
theorem leads_sectionTexts (h : w.Readable) (line : Nat) :
    Leads .header { line } (writtenLines w.sectionTexts) .header { w.asRead with line } := by
  have hmethods := leads_block leads_startMethods
    (leads_methodTexts h { w.asRead with line }) leads_endMethods fun _ => rfl
  have hblank : ∀ r, Leads .header r (writtenLines [""]) .header r := fun r => leads_blank rfl
  rw [sectionTexts_eq]
  simp only [writtenLines_append]
  exact ((leads_frontTexts h line).append hmethods).append (hblank _)

end WrittenRecord

end ScreenForms
