import ScreenForms.Import.Naming
import ScreenForms.Proofs.Items
import ScreenForms.Proofs.RecordLines
import ScreenForms.Proofs.WrittenValues

/-!
# Documents that can be written and read again

Records are cut into lines, names end at dots and blanks around values are lost, so not every
document is read again as it was. `Document.Writable` says what is asked of the names, texts,
bodies and columns of a document. The records of such a document can be read
(`Writable.readable`), and the paths in them are as they were written
(`Writable.isWrittenName_itemPath`).
-/

namespace ScreenForms

open Text RecordWriter WrittenRecord

/-! ## Conditions -/

/-- A string without a line feed. -/
def IsOneLine (s : String) : Prop := '\n' ∉ s.toList

instance (s : String) : Decidable (IsOneLine s) := inferInstanceAs (Decidable (¬ _))

/-- A name that is kept when it is written on a line: it is not empty and has neither blanks
around it nor a line feed. -/
structure IsWrittenName (name : String) : Prop where
  ne : name ≠ ""
  trimmed : trim name.toList = name.toList
  oneLine : IsOneLine name

/-- Every part of a control that is written on one line has no line feed. -/
structure Control.OnOneLine (c : Control) : Prop where
  text : ∀ t ∈ c.props.text, IsOneLine t
  font : ∀ t ∈ c.props.style.fontName, IsOneLine t
  items : ∀ t ∈ c.props.items, IsOneLine t
  columns : ∀ column ∈ c.props.columns, IsOneLine column.field ∧ IsOneLine column.header
  extra : ∀ e ∈ c.props.extra.entries, IsPlainKey e.1 ∧ ∀ t ∈ e.2.asText?, IsOneLine t

/-- What is asked of a document so that its layout is kept when it is written as records. -/
structure Document.Writable (doc : Document) : Prop where
  windowName : IsWrittenName doc.window.name
  names : ∀ c ∈ doc.controls, IsWrittenName c.name ∧ '.' ∉ c.name.toList
  distinct : ((doc.window.name :: doc.controls.map Control.name).map NameRegistry.fold).Nodup
  caption : IsOneLine doc.window.caption
  oneLine : ∀ c ∈ doc.controls, c.OnOneLine
  columns : ∀ c ∈ doc.controls, c.kind ≠ .grid → c.props.columns = []
  events : ∀ b ∈ doc.events.values, IsOneLine b.event ∧ IsPlainBody b.code
  methods : ∀ m ∈ doc.methods, IsOneLine m.name ∧ (∀ p ∈ m.parameters, IsOneLine p) ∧
    IsPlainBody m.body

instance (key : String) : Decidable (IsPlainKey key) :=
  decidable_of_iff ('\n' ∉ key.toList ∧
    key.toList.head?.all (fun c => !isBlank c && c != '[') = true)
    (by simp [IsPlainKey, Option.all_eq_true])

instance (body : String) : Decidable (IsPlainBody body) :=
  inferInstanceAs (Decidable (∀ l ∈ Text.lines body.toList, _ ∧ _))

instance (name : String) : Decidable (IsWrittenName name) :=
  decidable_of_iff (name ≠ "" ∧ trim name.toList = name.toList ∧ IsOneLine name)
    ⟨fun ⟨ne, trimmed, oneLine⟩ => ⟨ne, trimmed, oneLine⟩,
      fun ⟨ne, trimmed, oneLine⟩ => ⟨ne, trimmed, oneLine⟩⟩

instance (c : Control) : Decidable c.OnOneLine :=
  decidable_of_iff ((∀ t ∈ c.props.text, IsOneLine t) ∧
    (∀ t ∈ c.props.style.fontName, IsOneLine t) ∧ (∀ t ∈ c.props.items, IsOneLine t) ∧
    (∀ column ∈ c.props.columns, IsOneLine column.field ∧ IsOneLine column.header) ∧
    ∀ e ∈ c.props.extra.entries, IsPlainKey e.1 ∧ ∀ t ∈ e.2.asText?, IsOneLine t)
    ⟨fun ⟨text, font, items, columns, extra⟩ => ⟨text, font, items, columns, extra⟩,
      fun ⟨text, font, items, columns, extra⟩ => ⟨text, font, items, columns, extra⟩⟩

instance (doc : Document) : Decidable doc.Writable :=
  decidable_of_iff (IsWrittenName doc.window.name ∧
    (∀ c ∈ doc.controls, IsWrittenName c.name ∧ '.' ∉ c.name.toList) ∧
    ((doc.window.name :: doc.controls.map Control.name).map NameRegistry.fold).Nodup ∧
    IsOneLine doc.window.caption ∧ (∀ c ∈ doc.controls, c.OnOneLine) ∧
    (∀ c ∈ doc.controls, c.kind ≠ .grid → c.props.columns = []) ∧
    (∀ b ∈ doc.events.values, IsOneLine b.event ∧ IsPlainBody b.code) ∧
    ∀ m ∈ doc.methods, IsOneLine m.name ∧ (∀ p ∈ m.parameters, IsOneLine p) ∧ IsPlainBody m.body)
    ⟨fun ⟨windowName, names, distinct, caption, oneLine, columns, events, methods⟩ =>
        ⟨windowName, names, distinct, caption, oneLine, columns, events, methods⟩,
      fun ⟨windowName, names, distinct, caption, oneLine, columns, events, methods⟩ =>
        ⟨windowName, names, distinct, caption, oneLine, columns, events, methods⟩⟩

/-! ## Names -/

/-- A name without blanks can be written as it is. -/
theorem IsWrittenName.of_all {name : String} (hne : name ≠ "")
    (h : name.toList.all (fun c => !isBlank c) = true) : IsWrittenName name := by
  have hsolid : ∀ c ∈ name.toList, isBlank c = false := by simpa using h
  exact ⟨hne, trim_of_forall hsolid, fun hmem => absurd (hsolid _ hmem) (by decide)⟩

theorem mem_columnName {number : Nat} {c : Char} (h : c ∈ (columnName number).toList) :
    c ∈ "Column".toList ∨ c.isDigit = true := by
  rw [columnName, String.toList_append, List.mem_append, Decimal.toList_intText_ofNat] at h
  exact h.imp_right Decimal.isDigit_of_mem_decimalText

/-- Columns are named by the writer, and such a name can always be read. -/
theorem isWrittenName_columnName (number : Nat) : IsWrittenName (columnName number) := by
  refine .of_all (fun h => ?_) (List.all_eq_true.mpr fun c hc => ?_)
  · have hnil : (columnName number).toList = [] := by
      rw [h]
      rfl
    rw [columnName, String.toList_append] at hnil
    exact absurd (List.append_eq_nil_iff.mp hnil).1 (by decide)
  · rcases mem_columnName hc with hc | hc
    · exact List.all_eq_true.mp (by decide : "Column".toList.all (fun c => !isBlank c) = true) c hc
    · rw [(Value.plain_of_isDigit hc).1]
      rfl

theorem isWrittenName_header : IsWrittenName "Header1" :=
  .of_all (by decide) (by decide)

/-- Unique identities are letters and digits behind an underscore, on one line. -/
theorem isOneLine_uniqueId (seed : String) : IsOneLine (RecordWriter.uniqueId seed) := by
  unfold IsOneLine RecordWriter.uniqueId
  dsimp only
  rw [String.toList_ofList]
  intro h
  rcases List.mem_cons.mp h with h | h
  · exact absurd h (by decide)
  · rcases List.mem_append.mp h with h | h
    · exact absurd (List.eq_of_mem_replicate h) (by decide)
    · obtain ⟨c, hc, hupper⟩ := List.mem_map.mp h
      obtain rfl := eq_of_toUpper_eq hupper (by decide)
      exact absurd (List.mem_filter.mp (List.mem_of_mem_take hc)).2 (by decide)

theorem IsOneLine.append {s t : String} (hs : IsOneLine s) (ht : IsOneLine t) :
    IsOneLine (s ++ t) := by
  unfold IsOneLine
  rw [String.toList_append, List.mem_append]
  exact not_or.mpr ⟨hs, ht⟩

/-- Joining one-line texts gives one line if the separator has no line feed either. -/
theorem IsOneLine.join {sep : String} {ls : List String} (hsep : IsOneLine sep)
    (hls : ∀ l ∈ ls, IsOneLine l) : IsOneLine (Text.join sep ls) := by
  unfold IsOneLine
  rw [toList_join]
  refine not_mem_joinWith hsep fun l hl => ?_
  obtain ⟨s, hs, rfl⟩ := List.mem_map.mp hl
  exact hls s hs

/-! ## Properties -/

/-- A property whose line is read as a property. -/
def IsPlainProperty (p : String × String) : Prop := IsPlainKey p.1 ∧ IsOneLine p.2

section properties

variable {name : String} (hname : IsPlainKey name)
include hname

/-- A text property is one line whose value cannot be taken for anything else. -/
theorem plain_textProperty {text : String} (h : IsOneLine text) :
    IsPlainProperty (textProperty name text) :=
  ⟨hname, Value.not_mem_toLegacy fun _ ht => Option.some.inj ht ▸ h⟩

theorem plain_flagProperty {value written : Bool} :
    ∀ p ∈ flagProperty name value written, IsPlainProperty p := by
  intro p hp
  unfold flagProperty at hp
  split at hp
  · obtain rfl := List.mem_singleton.mp hp
    exact ⟨hname, Value.not_mem_toLegacy fun _ ht => by cases ht⟩
  · cases hp

/-- A property that may be absent has to be plain only where it is present. -/
theorem plain_optionalProperty {α : Type} {write : α → String} {o : Option α}
    (h : ∀ a, o = some a → IsOneLine (write a)) :
    ∀ p ∈ optionalProperty name write o, IsPlainProperty p := by
  intro p hp
  cases o with
  | none => cases hp
  | some a =>
    obtain rfl := List.mem_singleton.mp hp
    exact ⟨hname, h a rfl⟩

end properties

/-- Numbers are one line of digits, so that nothing is asked of a place or a size. -/
theorem plain_geometry (position : Int × Int) (width height : Int) :
    ∀ p ∈ geometry position width height, IsPlainProperty p := by
  have hnumber : ∀ {name}, IsPlainKey name → ∀ n, IsPlainProperty (name, Decimal.intText n) :=
    fun hname n => ⟨hname, Value.not_mem_intText n⟩
  unfold geometry
  simp only [List.forall_mem_cons]
  refine ⟨hnumber (by decide) _, hnumber (by decide) _, hnumber (by decide) _,
    hnumber (by decide) _, ?_⟩
  exact fun p hp => absurd hp List.not_mem_nil

/-- The prefix that marks extra properties does not spoil their keys. -/
theorem isPlainKey_extraName {key : String} (h : IsPlainKey key) : IsPlainKey (extraName key) := by
  unfold extraName
  rcases hfind : PropertyTable.extraNames.find? fun e => e.1 == key with _ | e
  · rw [hfind]
    exact h
  · rw [hfind]
    exact (by decide : ∀ e ∈ PropertyTable.extraNames, IsPlainKey e.2) e
      (List.mem_of_find?_eq_some hfind)

/-- What a control says of itself is plain if its texts are on one line. -/
theorem Control.OnOneLine.plain_ownProperties {c : Control} (h : c.OnOneLine) :
    ∀ p ∈ ownProperties c, IsPlainProperty p := by
  have htext : ∀ {o : Option String}, (∀ t, o = some t → IsOneLine t) →
      ∀ t, o = some t → IsOneLine (Value.text t).toLegacy := by
    intro o ho t ht
    exact Value.not_mem_toLegacy fun u hu => Option.some.inj hu ▸ ho t ht
  have hprimary : IsPlainKey (PropertyTable.textProperties c.kind).1 := by
    unfold PropertyTable.textProperties
    split <;> decide
  unfold ownProperties styleProperties
  dsimp only
  simp only [List.forall_mem_append]
  refine ⟨⟨⟨⟨⟨?_, ?_⟩, ?_⟩, ⟨⟨⟨⟨?_, ?_⟩, ?_⟩, ?_⟩, ?_⟩, ?_⟩, ?_⟩, ?_⟩
  · exact plain_optionalProperty hprimary (htext h.text)
  · exact plain_flagProperty (by decide)
  · exact plain_flagProperty (by decide)
  · exact plain_optionalProperty (by decide) fun _ _ => Value.not_mem_intText _
  · exact plain_optionalProperty (by decide) fun _ _ => Value.not_mem_intText _
  · exact plain_optionalProperty (by decide) (htext h.font)
  · exact plain_optionalProperty (by decide) fun _ _ => Value.not_mem_plainText _
  · exact plain_flagProperty (by decide)
  · exact plain_flagProperty (by decide)
  · intro p hp
    split at hp
    · cases hp
    · obtain rfl := List.mem_singleton.mp hp
      exact plain_textProperty (by decide) (.join (by decide) h.items)
  · intro p hp
    obtain ⟨e, he, rfl⟩ := List.mem_map.mp hp
    obtain ⟨hkey, hvalue⟩ := h.extra e (List.mem_of_mem_filter he)
    exact ⟨isPlainKey_extraName hkey, Value.not_mem_toLegacy hvalue⟩

/-! ## Bodies -/

/-- A free method is written with its parameters in front of the body, on a line that ends
nothing. -/
theorem isPlainBody_freeMethod {m : FormMethod} (hparameters : ∀ p ∈ m.parameters, IsOneLine p)
    (hbody : IsPlainBody m.body) : IsPlainBody (freeMethod m).body := by
  unfold freeMethod
  dsimp only
  split
  · exact hbody
  · have hfirst : IsOneLine ("LPARAMETERS " ++ Text.join ", " m.parameters) :=
      .append (by decide) (.join (by decide) hparameters)
    unfold IsPlainBody
    rw [String.toList_append, String.toList_append, List.append_assoc]
    show ∀ l ∈ Text.lines (_ ++ '\n' :: m.body.toList), Record.IsMethodLine l
    rw [lines_append_newline hfirst]
    refine List.forall_mem_cons.mpr ⟨?_, hbody⟩
    refine (Record.isMethodLine_congr (trim_chomp _)).mpr (Record.isMethodLine_of_head? ?_)
    rw [String.toList_append]
    show (trim ('L' :: _)).head? ≠ some '['
    rw [trim_cons_of_neg (by decide)]
    exact fun h => absurd (Option.some.inj h) (by decide)

/-- The methods of a control are its event codes, under the names of the events. -/
theorem Document.Writable.eventMethods {doc : Document} (h : doc.Writable) (owner : ControlId) :
    ∀ m ∈ RecordWriter.eventMethods doc owner, IsOneLine m.name ∧ IsPlainBody m.body := by
  intro m hm
  obtain ⟨b, hb, rfl⟩ := List.mem_map.mp hm
  exact h.events b (List.mem_of_mem_filter hb)

/-! ## Paths -/

/-- A written name has a first and a last character, and both survive trimming. -/
theorem IsWrittenName.exists_ends {name : String} (h : IsWrittenName name) :
    ∃ c d, name.toList.head? = some c ∧ isBlank c = false ∧
      name.toList.getLast? = some d ∧ isBlank d = false := by
  have hne : name.toList ≠ [] := fun hnil => h.ne (String.toList_injective hnil)
  obtain ⟨c, hc⟩ := Option.isSome_iff_exists.mp (List.isSome_head?.mpr hne)
  obtain ⟨d, hd⟩ : ∃ d, name.toList.getLast? = some d :=
    ⟨_, List.getLast?_eq_some_getLast hne⟩
  refine ⟨c, d, hc, ?_, hd, ?_⟩
  · rw [← h.trimmed] at hc
    exact not_isBlank_of_head?_trim hc
  · rw [← h.trimmed] at hd
    exact not_isBlank_of_getLast?_trim hd

/-- A path made of two written names can be written as well. -/
theorem IsWrittenName.append {s t : String} (hs : IsWrittenName s) (ht : IsWrittenName t) :
    IsWrittenName (s ++ "." ++ t) := by
  obtain ⟨c, -, hhead, hc, -, -⟩ := hs.exists_ends
  obtain ⟨-, d, -, -, hlast, hd⟩ := ht.exists_ends
  have htext : (s ++ "." ++ t).toList = s.toList ++ ['.'] ++ t.toList := by
    rw [String.toList_append, String.toList_append]
    rfl
  refine ⟨fun h => ?_, ?_, .append (.append hs.oneLine (by decide)) ht.oneLine⟩
  · have hnil : s.toList ++ ['.'] ++ t.toList = [] := by
      rw [← htext, h]
      rfl
    simp at hnil
  · rw [htext]
    refine trim_of_ends (c := c) (d := d) ?_ hc ?_ hd
    · simp [List.head?_append, hhead]
    · rw [List.getLast?_append, hlast, Option.some_or]

namespace Document

variable {doc : Document}

/-- Hence all paths of the controls can, by induction over the steps to the root. -/
theorem Writable.pathFrom (h : doc.Writable) {n : Nat} {c : Control} (hc : c ∈ doc.controls)
    {path : String} (hpath : doc.pathFrom n c = .ok path) : IsWrittenName path := by
  induction n generalizing c path with
  | zero => cases hpath
  | succ n ih =>
    rw [Document.pathFrom] at hpath
    rcases hholder : doc.holder? c with _ | holder
    · rw [hholder] at hpath
      obtain rfl := Except.ok.inj hpath
      exact h.windowName.append (h.names c hc).1
    · rcases hupper : doc.pathFrom n holder with e | upper
      · simp [hholder, hupper] at hpath
      · simp only [hholder, hupper] at hpath
        obtain rfl := Except.ok.inj hpath
        exact (ih (mem_of_holder? hholder) hupper).append (h.names c hc).1

variable (h : doc.Writable) (hend : doc.HoldersEnd)
include h hend

/-- The path of every item is kept when it is written on a line. -/
theorem Writable.isWrittenName_itemPath {a : Item} (ha : a ∈ doc.items) :
    IsWrittenName (doc.itemPath a) := by
  cases a with
  | form => exact h.windowName
  | control c =>
    have hc := control_mem_items.mp ha
    exact h.pathFrom hc (hend.pathFrom_eq hc)
  | column c column number =>
    have hc := (column_mem_items.mp ha).1
    exact (h.pathFrom hc (hend.pathFrom_eq hc)).append (isWrittenName_columnName number)
  | header c column number =>
    have hc := (header_mem_items.mp ha).1
    exact ((h.pathFrom hc (hend.pathFrom_eq hc)).append (isWrittenName_columnName number)).append
      isWrittenName_header

/-- The parent of a record is the path of what holds it. -/
theorem Writable.parent_oneLine {a : Item} (ha : a ∈ doc.items) :
    IsOneLine (doc.recordOf a).parent := by
  rcases hholder : doc.holderItem? a with _ | b
  · cases a with
    | form => exact (by decide : IsOneLine "")
    | control c => cases hholder
    | column c column number => cases hholder
    | header c column number => cases hholder
  · rw [hend.parent_recordOf hholder]
    exact (h.isWrittenName_itemPath hend (holderItem?_mem_items ha hholder)).oneLine

omit hend in
theorem Writable.isWrittenName_name {a : Item} (ha : a ∈ doc.items) :
    IsWrittenName (doc.recordOf a).name := by
  cases a with
  | form => exact h.windowName
  | control c => exact (h.names c (control_mem_items.mp ha)).1
  | column c column number => exact isWrittenName_columnName number
  | header c column number => exact isWrittenName_header

/-! ## Records -/

omit hend in
/-- All properties of a written record are plain, whichever of the kinds of records it is. -/
theorem Writable.plain_properties {a : Item} (ha : a ∈ doc.items) :
    ∀ p ∈ (doc.recordOf a).properties, IsPlainProperty p := by
  cases a with
  | form =>
    show ∀ p ∈ (formRecord doc).properties, IsPlainProperty p
    unfold formRecord
    simp only [List.cons_append, List.forall_mem_cons, List.forall_mem_append]
    exact ⟨plain_textProperty (by decide) h.caption,
      ⟨⟨⟨plain_geometry _ _ _, plain_flagProperty (by decide)⟩, plain_flagProperty (by decide)⟩,
        plain_flagProperty (by decide)⟩, plain_flagProperty (by decide)⟩
  | control c =>
    have hc := h.oneLine c (control_mem_items.mp ha)
    exact List.forall_mem_append.mpr ⟨plain_geometry _ _ _, hc.plain_ownProperties⟩
  | column c column number =>
    obtain ⟨hc, hcolumn⟩ := column_mem_items.mp ha
    have hfield : IsOneLine column.field :=
      ((h.oneLine c hc).columns column (mem_columns hcolumn).2).1
    show ∀ p ∈ (columnRecord c _ column number).properties, IsPlainProperty p
    unfold columnRecord
    simp only [List.forall_mem_append]
    refine ⟨⟨?_, plain_optionalProperty (by decide) fun _ _ => Value.not_mem_intText _⟩,
      plain_flagProperty (by decide)⟩
    split
    · exact fun p hp => absurd hp List.not_mem_nil
    · exact List.forall_mem_singleton.mpr (plain_textProperty (by decide) hfield)
  | header c column number =>
    obtain ⟨hc, hcolumn⟩ := header_mem_items.mp ha
    exact List.forall_mem_singleton.mpr (plain_textProperty (by decide)
      ((h.oneLine c hc).columns column (mem_columns hcolumn).2).2)

/-- The record of every item can be read, and it has a name. This is all that reading needs to know
about the writer. -/
theorem Writable.readable {a : Item} (ha : a ∈ doc.items) :
    (doc.recordOf a).Readable ∧ trim (doc.recordOf a).name.toList ≠ [] := by
  have hname := h.isWrittenName_name ha
  refine ⟨⟨?_, ?_, hname.oneLine, h.parent_oneLine hend ha, h.plain_properties ha, ?_⟩, ?_⟩
  · cases a <;> exact isOneLine_uniqueId _
  · cases a with
    | control c =>
      show IsOneLine c.kind.legacyBaseClass
      generalize c.kind = kind
      cases kind <;> decide
    | form => exact (by decide : IsOneLine "form")
    | column c column number => exact (by decide : IsOneLine "column")
    | header c column number => exact (by decide : IsOneLine "header")
  · cases a with
    | form =>
      refine List.forall_mem_append.mpr ⟨h.eventMethods formOwner, fun m hm => ?_⟩
      obtain ⟨free, hfree, rfl⟩ := List.mem_map.mp hm
      obtain ⟨hname, hparameters, hbody⟩ := h.methods free hfree
      exact ⟨hname, isPlainBody_freeMethod hparameters hbody⟩
    | control c => exact h.eventMethods c.id
    | column c column number => exact fun m hm => absurd hm List.not_mem_nil
    | header c column number => exact fun m hm => absurd hm List.not_mem_nil
  · rw [hname.trimmed]
    exact fun hnil => hname.ne (String.toList_injective hnil)

end Document

end ScreenForms
