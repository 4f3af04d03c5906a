import Mathlib.Tactic.MkIffOfInductiveProp
import ScreenForms.Form.Serial
import ScreenForms.Proofs.SortedMaps

/-!
# Documents survive their serialized form

A document is exchanged as a JSON value. What is left out when it is empty or absent has to be
what reading takes for a missing member, at every record of the format. `Serial.Survives` is this
for one record, and every record survives when its fields do (`Survives.record`). So a document
comes back as it was, whatever its size and whatever the keys of its events are, as long as its
numbers have 32 bits and its floats are finite (`Serial.document_survives`).
-/

namespace ScreenForms

namespace Json

/-- A value whose text stands for it: its floats are finite and no object has a name twice. -/
inductive IsExchangeable : Json → Prop
  | null : IsExchangeable .null
  | bool (b : Bool) : IsExchangeable (.bool b)
  | int (n : Int) : IsExchangeable (.int n)
  | float {x : Float} (h : x.isFinite = true) : IsExchangeable (.float x)
  | str (s : String) : IsExchangeable (.str s)
  | arr {items : List Json} (h : ∀ v ∈ items, IsExchangeable v) : IsExchangeable (.arr items)
  | obj {members : List (String × Json)} (hnames : (members.map Prod.fst).Nodup)
      (h : ∀ m ∈ members, IsExchangeable m.2) : IsExchangeable (.obj members)

@[simp] theorem lookup?_nil (name : String) : lookup? name [] = none := rfl

/-- Of two members with one name the later counts. -/
theorem lookup?_append (name : String) (members members' : List (String × Json)) :
    lookup? name (members ++ members') =
      (lookup? name members').or (lookup? name members) := by
  induction members' using List.reverseRecOn with
  | nil => simp
  | append_singleton members' m ih =>
    have hlast : ∀ ms, lookup? name (ms ++ [m]) =
        if m.1 = name then some m.2 else lookup? name ms := by
      intro ms
      simp [lookup?]
    rw [← List.append_assoc, hlast, hlast, ih]
    split <;> simp

/-- The last member of a name counts, so that a member in front is used only where none follows. -/
theorem lookup?_cons (name : String) (m : String × Json) (members : List (String × Json)) :
    lookup? name (m :: members) =
      (lookup? name members).or (if m.1 = name then some m.2 else none) := by
  have hfirst : lookup? name [m] = if m.1 = name then some m.2 else none := by simp [lookup?]
  rw [← hfirst, ← lookup?_append, List.singleton_append]

/-- No field of an object without repeated names is given twice. -/
theorem asRecord?_obj {members : List (String × Json)} (hnames : (members.map Prod.fst).Nodup)
    (fields : List String) : asRecord? fields (obj members) = some members := by
  have hcount : ∀ f, (members.filter fun m => m.1 == f).length ≤ 1 := by
    intro f
    have h := List.nodup_iff_count_le_one.mp hnames f
    rwa [List.count, List.countP_map, List.countP_eq_length_filter] at h
  simp [asRecord?, hcount]

end Json

/-! ## Documents that the format holds -/

open Decimal

/-- A value that is no infinite number and not NaN. -/
def Value.Fits : Value → Prop
  | .number x => x.isFinite = true
  | _ => True

/-- A style whose font has a finite size. -/
def Style.Fits (s : Style) : Prop := ∀ x ∈ s.fontSize, x.isFinite = true

/-- A column whose width has 32 bits. -/
def GridColumn.Fits (c : GridColumn) : Prop := ∀ n ∈ c.width, Is32 n

/-- Properties with finite floats and columns of 32 bits. -/
@[mk_iff] structure Properties.Fits (p : Properties) : Prop where
  style : p.style.Fits
  columns : ∀ c ∈ p.columns, c.Fits
  extra : ∀ v ∈ p.extra.values, v.Fits

/-- A control whose place has 32 bits. -/
@[mk_iff] structure Control.Fits (c : Control) : Prop where
  x : Is32 c.x
  y : Is32 c.y
  width : Is32 c.width
  height : Is32 c.height
  props : c.props.Fits

/-- A window whose place has 32 bits. -/
@[mk_iff] structure Window.Fits (w : Window) : Prop where
  x : Is32 w.x
  y : Is32 w.y
  width : Is32 w.width
  height : Is32 w.height

/-- A document whose whole numbers have 32 bits and whose floats are finite. -/
@[mk_iff] structure Document.Fits (doc : Document) : Prop where
  window : doc.window.Fits
  controls : ∀ c ∈ doc.controls, c.Fits

instance (v : Value) : Decidable v.Fits :=
  match v with
  | .number x => inferInstanceAs (Decidable (x.isFinite = true))
  | .text _ | .flag _ | .expr _ => .isTrue trivial

instance (s : Style) : Decidable s.Fits := inferInstanceAs (Decidable (∀ x ∈ s.fontSize, _))

instance (c : GridColumn) : Decidable c.Fits := inferInstanceAs (Decidable (∀ n ∈ c.width, _))

instance (p : Properties) : Decidable p.Fits := decidable_of_iff' _ (Properties.fits_iff p)

instance (c : Control) : Decidable c.Fits := decidable_of_iff' _ (Control.fits_iff c)

instance (w : Window) : Decidable w.Fits := decidable_of_iff' _ (Window.fits_iff w)

instance (doc : Document) : Decidable doc.Fits := decidable_of_iff' _ (Document.fits_iff doc)

namespace Serial

open Json

/-- What is written can be exchanged, and reading it gives what was written. -/
structure Survives {α : Type} (write : α → Json) (read? : Json → Option α) (a : α) : Prop where
  exchangeable : (write a).IsExchangeable
  read : read? (write a) = some a

/-! ## What fields hold -/

theorem string_survives (s : String) : Survives str asString? s := ⟨.str s, rfl⟩

theorem bool_survives (b : Bool) : Survives bool asBool? b := ⟨.bool b, rfl⟩

/-- Integers are written in full and read back where they fit into 32 bits. -/
theorem int32_survives {n : Int} (h : Is32 n) : Survives int asInt32? n :=
  ⟨.int n, if_pos h⟩

/-- A byte is written as its number, and every such number is in range. -/
theorem byte_survives (b : UInt8) : Survives (fun b => int b.toNat) asByte? b := by
  have hbound : (b.toNat : Int) ≤ 255 := by
    have := b.toNat_lt
    omega
  refine ⟨.int _, ?_⟩
  simp [asByte?, asInt?, hbound]

/-- Finite floats survive, as every one of them is written as a number. -/
theorem float_survives {x : Float} (h : x.isFinite = true) : Survives float asFloat? x :=
  ⟨.float h, rfl⟩

/-- Kinds are written by their names, and no two kinds share one. -/
theorem kind_survives (kind : ControlKind) : Survives (fun k => str k.name) readKind? kind :=
  ⟨.str _, by cases kind <;> decide⟩

section containers

variable {α : Type} {write : α → Json} {read? : Json → Option α}

/-- A value may be absent when no value is written as `null`. -/
theorem Survives.option {o : Option α} (h : ∀ a ∈ o, Survives write read? a ∧ write a ≠ null) :
    Survives (optionJson write) (asOption? read?) o := by
  cases o with
  | none => exact ⟨.null, rfl⟩
  | some a =>
    obtain ⟨ha, hnull⟩ := h a rfl
    refine ⟨ha.exchangeable, ?_⟩
    -- only a value that is not `null` is read as present
    rw [optionJson, asOption?.eq_2 _ _ hnull, ha.read, Option.map_some]

/-- Lists survive if their elements do. -/
theorem Survives.list {l : List α} (h : ∀ a ∈ l, Survives write read? a) :
    Survives (fun l => arr (l.map write)) (asList? read?) l := by
  refine ⟨.arr (List.forall_mem_map.mpr fun a ha => (h a ha).exchangeable), ?_⟩
  rw [asList?]
  induction l with
  | nil => rfl
  | cons a l ih =>
    rw [List.forall_mem_cons] at h
    simp [List.mapM_cons, h.1.read, ih h.2]

/-- Maps are written as records of their entries. Their keys are sorted and different, so that
reading builds the same map. -/
theorem Survives.map {m : SortedMap α} (h : ∀ v ∈ m.values, Survives write read? v) :
    Survives (fun m : SortedMap α => obj (m.entries.map fun e => (e.1, write e.2)))
      (readMap? read?) m := by
  have hnames : ((m.entries.map fun e => (e.1, write e.2)).map Prod.fst).Nodup := by
    rw [List.map_map]
    exact m.nodup_keys
  have hread : ∀ l : List (String × α), (∀ e ∈ l, Survives write read? e.2) →
      (l.map fun e => (e.1, write e.2)).mapM (fun m => (read? m.2).map fun v => (m.1, v)) =
        some l := by
    intro l hl
    induction l with
    | nil => rfl
    | cons e l ih =>
      rw [List.forall_mem_cons] at hl
      simp [List.mapM_cons, hl.1.read, ih hl.2]
  have hentries : ∀ e ∈ m.entries, Survives write read? e.2 :=
    fun e he => h e.2 (List.mem_map_of_mem he)
  refine ⟨.obj hnames (List.forall_mem_map.mpr fun e he => (hentries e he).exchangeable), ?_⟩
  rw [readMap?, hread _ hentries, Option.map_some, SortedMap.ofList_entries]

end containers

/-! ## Records -/

section members

/-- A member that is left out where a condition holds. -/
theorem lookup?_unless (name field : String) (absent : Prop) [Decidable absent] (v : Json) :
    lookup? name (if absent then [] else [(field, v)]) =
      if absent then none else if field = name then some v else none := by
  split <;> simp [lookup?_cons]

/-- A member that is left out at its default gives at most its own name, which keeps the names of a
record different. -/
theorem names_unless (name : String) (absent : Prop) [Decidable absent] (v : Json) :
    ((if absent then [] else [(name, v)]).map Prod.fst).Sublist [name] := by
  split <;> simp

variable {α : Type} {write : α → Json} {read? : Json → Option α} {a : α}

/-- A record survives when no name is given twice, every member can be exchanged, and every value
that has the same under each name is read as the record. -/
theorem Survives.record {members : List (String × Json)} (hwrite : write a = obj members)
    (hnames : (members.map Prod.fst).Nodup) (hvalues : ∀ m ∈ members, m.2.IsExchangeable)
    (hread : ∀ v members, (∀ fields, asRecord? fields v = some members) →
      (∀ name, lookup? name members = (write a).get? name) → read? v = some a) :
    Survives write read? a := by
  refine ⟨hwrite ▸ .obj hnames hvalues, hread (write a) members (fun fields => ?_) fun name => ?_⟩
  · rw [hwrite, asRecord?_obj hnames]
  · rw [hwrite, get?]

/-- A member that is left out is read as the default. -/
theorem defaulted?_eq {members : List (String × Json)} {name : String} {absent : Prop}
    [Decidable absent] {default : α} (h : Survives write read? a) (habsent : absent → a = default)
    (hmember : lookup? name members = if absent then none else some (write a)) :
    defaulted? members name default read? = some a := by
  rw [defaulted?, hmember]
  by_cases ha : absent
  · simp [ha, habsent ha]
  · simpa [ha] using h.read

end members

/-- The content of a value is read by the name of its kind. -/
theorem value_survives {v : Value} (h : v.Fits) : Survives valueJson readValue? v := by
  have hcontent : ∀ kind content, content.IsExchangeable →
      ∀ m ∈ [("kind", str kind), ("value", content)], m.2.IsExchangeable := by
    simp +contextual [IsExchangeable.str]
  have hread : ∀ kind content members, (∀ name, lookup? name members =
      (obj [("kind", str kind), ("value", content)]).get? name) →
        lookup? "value" members = some content ∧
          required? members "kind" asAlternative? = some kind := by
    intro kind content members hlookup
    simp [required?, hlookup, get?, lookup?_cons, asAlternative?]
  cases v with
  | text s =>
    refine .record rfl (by simp) (hcontent _ _ (.str s)) fun _ members hrecord hlookup => ?_
    simp [readValue?, hrecord, hread "text" _ _ hlookup, asString?]
  | flag b =>
    refine .record rfl (by simp) (hcontent _ _ (.bool b)) fun _ members hrecord hlookup => ?_
    simp [readValue?, hrecord, hread "bool" _ _ hlookup, asBool?]
  | number x =>
    refine .record rfl (by simp) (hcontent _ _ (.float h)) fun _ members hrecord hlookup => ?_
    simp [readValue?, hrecord, hread "number" _ _ hlookup, asFloat?]
  | expr s =>
    refine .record rfl (by simp) (hcontent _ _ (.str s)) fun _ members hrecord hlookup => ?_
    simp [readValue?, hrecord, hread "expr" _ _ hlookup, asString?]

theorem color_survives (c : Color) : Survives colorJson readColor? c := by
  refine .record rfl (by simp) (by simp [IsExchangeable.int]) fun _ members hrecord hlookup => ?_
  simp [readColor?, hrecord, required?, hlookup, colorJson, get?, lookup?_cons,
    (byte_survives _).read]

theorem style_survives {s : Style} (h : s.Fits) : Survives styleJson readStyle? s := by
  have hcolor : ∀ o, Survives (optionJson colorJson) (asOption? readColor?) o :=
    fun o => .option fun c _ => ⟨color_survives c, nofun⟩
  have hname : Survives (optionJson str) (asOption? asString?) s.fontName :=
    .option fun n _ => ⟨string_survives n, nofun⟩
  have hsize : Survives (optionJson float) (asOption? asFloat?) s.fontSize :=
    .option fun x hx => ⟨float_survives (h x hx), nofun⟩
  refine .record rfl (by simp) ?_ fun _ members hrecord hlookup => ?_
  · simp [(hcolor _).exchangeable, hname.exchangeable, hsize.exchangeable, IsExchangeable.bool]
  · simp [readStyle?, hrecord, required?, optional?, hlookup, styleJson, get?, lookup?_cons,
      (hcolor _).read, hname.read, hsize.read, (bool_survives _).read]

theorem column_survives {c : GridColumn} (h : c.Fits) : Survives columnJson readColumn? c := by
  have hwidth : Survives (optionJson int) (asOption? asInt32?) c.width :=
    .option fun n hn => ⟨int32_survives (h n hn), nofun⟩
  refine .record rfl (by simp) ?_ fun _ members hrecord hlookup => ?_
  · simp [hwidth.exchangeable, IsExchangeable.str, IsExchangeable.bool]
  · simp [readColumn?, hrecord, required?, optional?, hlookup, columnJson, get?, lookup?_cons,
      hwidth.read, (string_survives _).read, (bool_survives _).read]

/-- The lists and the map are left out where they are empty, and are empty where they are absent.
All other members are always written, and names are different, so that each reader finds its own. -/
theorem properties_survives {p : Properties} (h : p.Fits) :
    Survives propertiesJson readProperties? p := by
  have htext : Survives (optionJson str) (asOption? asString?) p.text :=
    .option fun s _ => ⟨string_survives s, nofun⟩
  have hstyle := style_survives h.style
  have hitems : Survives _ _ p.items := .list fun s _ => string_survives s
  have hcolumns := Survives.list fun c hc => column_survives (h.columns c hc)
  have hextra := Survives.map fun v hv => value_survives (h.extra v hv)
  refine .record rfl ?_ ?_ fun _ members hrecord hlookup => ?_
  · -- whichever members are left out, the names are among these
    have hfields : ["text", "visible", "enabled", "style", "items", "columns", "extra"].Nodup := by
      simp
    refine List.Sublist.nodup ?_ hfields
    rw [List.map_append, List.map_append, List.map_append]
    exact (((List.Sublist.refl _).append (names_unless _ _ _)).append (names_unless _ _ _)).append
      (names_unless _ _ _)
  · have hmember : ∀ {name : String} {v : Json} {absent : Prop} [Decidable absent],
        v.IsExchangeable → ∀ m ∈ if absent then [] else [(name, v)], m.2.IsExchangeable := by
      intro name v absent _ hv
      split <;> simp [hv]
    simp only [List.forall_mem_append]
    refine ⟨⟨⟨?_, hmember hitems.exchangeable⟩, hmember hcolumns.exchangeable⟩,
      hmember hextra.exchangeable⟩
    simp [htext.exchangeable, hstyle.exchangeable, IsExchangeable.bool]
  · have hitems : defaulted? members "items" [] (asList? asString?) = some p.items := by
      refine defaulted?_eq hitems List.isEmpty_iff.mp ?_
      simp [hlookup, propertiesJson, get?, lookup?_append, listMember, lookup?_unless, lookup?_cons]
    have hcolumns : defaulted? members "columns" [] (asList? readColumn?) = some p.columns := by
      refine defaulted?_eq hcolumns List.isEmpty_iff.mp ?_
      simp [hlookup, propertiesJson, get?, lookup?_append, listMember, lookup?_unless, lookup?_cons]
    have hextra : defaulted? members "extra" SortedMap.empty (readMap? readValue?) =
        some p.extra := by
      refine defaulted?_eq hextra SortedMap.isEmpty_iff.mp ?_
      simp [hlookup, propertiesJson, get?, lookup?_append, listMember, lookup?_unless, lookup?_cons]
    simp [readProperties?, hrecord, hitems, hcolumns, hextra, required?, optional?, hlookup,
      propertiesJson, get?, lookup?_append, listMember, lookup?_unless, lookup?_cons, htext.read,
      (bool_survives _).read, hstyle.read]

/-- The parent is left out where there is none. -/
theorem control_survives {c : Control} (h : c.Fits) : Survives controlJson readControl? c := by
  have hprops := properties_survives h.props
  refine .record rfl ?_ ?_ fun _ members hrecord hlookup => ?_
  · cases c.parent <;> simp
  · cases c.parent <;> simp [IsExchangeable.str, IsExchangeable.int, hprops.exchangeable]
  · obtain ⟨id, kind, name, x, y, width, height, parent, props⟩ := c
    cases parent <;>
      simp [readControl?, hrecord, required?, optional?, hlookup, controlJson, get?, lookup?_cons,
        asOption?, (string_survives _).read, (kind_survives _).read, (int32_survives h.x).read,
        (int32_survives h.y).read, (int32_survives h.width).read, (int32_survives h.height).read,
        hprops.read]

theorem window_survives {w : Window} (h : w.Fits) : Survives windowJson readWindow? w := by
  refine .record rfl (by simp) ?_ fun _ members hrecord hlookup => ?_
  · simp [IsExchangeable.str, IsExchangeable.int, IsExchangeable.bool]
  · simp [readWindow?, hrecord, required?, hlookup, windowJson, get?, lookup?_cons,
      (string_survives _).read, (bool_survives _).read, (int32_survives h.x).read,
      (int32_survives h.y).read, (int32_survives h.width).read, (int32_survives h.height).read]

theorem binding_survives (b : EventBinding) : Survives bindingJson readBinding? b := by
  refine .record rfl (by simp) (by simp [IsExchangeable.str]) fun _ members hrecord hlookup => ?_
  simp [readBinding?, hrecord, required?, hlookup, bindingJson, get?, lookup?_cons,
    (string_survives _).read]

theorem method_survives (m : FormMethod) : Survives methodJson readMethod? m := by
  have hparameters : Survives (fun l => arr (l.map str)) (asList? asString?) m.parameters :=
    .list fun s _ => string_survives s
  refine .record rfl (by simp) ?_ fun _ members hrecord hlookup => ?_
  · simp [IsExchangeable.str, hparameters.exchangeable]
  · simp [readMethod?, hrecord, required?, defaulted?, hlookup, methodJson, get?, lookup?_cons,
      (string_survives _).read, hparameters.read]

/-- The serialized form of a document loses nothing: it is a value that JSON has a text for, and
reading it gives the document. -/
theorem document_survives {doc : Document} (h : doc.Fits) :
    (documentJson doc).IsExchangeable ∧ readDocument? (documentJson doc) = some doc := by
  have hwindow := window_survives h.window
  have hcontrols := Survives.list fun c hc => control_survives (h.controls c hc)
  have hevents : Survives _ _ doc.events := .map fun b _ => binding_survives b
  have hmethods : Survives _ _ doc.methods := .list fun m _ => method_survives m
  have hdoc : Survives documentJson readDocument? doc := by
    refine .record rfl (by simp) ?_ fun _ members hrecord hlookup => ?_
    · simp [hwindow.exchangeable, hcontrols.exchangeable, hevents.exchangeable,
        hmethods.exchangeable]
    · simp [readDocument?, hrecord, required?, defaulted?, hlookup, documentJson, get?,
        lookup?_cons, hwindow.read, hcontrols.read, hevents.read, hmethods.read]
  exact ⟨hdoc.exchangeable, hdoc.read⟩

/-- A document with a control that has everything and one that has nothing, one inside the other,
and with an event under a key that does not belong to it. -/
def mixedDocument : Document where
  controls := [
    { id := "w1", kind := .page, name := "Page1" },
    { id := "w2", kind := .grid, name := "Grid1", x := 2147483647, y := -2147483648, width := 80,
      height := 20, parent := some "w1",
      props :=
        { text := some "", visible := false,
          style :=
            { foreColor := some ⟨0, 128, 255⟩, fontName := some "Arial", fontSize := some 9.5 },
          items := ["a", ""],
          columns := [⟨"f", "F", some (-1), true⟩, ⟨"g", "", none, false⟩],
          extra := SortedMap.ofList [("value", .text "null"), ("group", .flag true),
            ("min", .number (-0.25)), ("row_source", .expr "")] } }]
  events := SortedMap.ofList [("w2_Click", ⟨"w1", "Init", "x = 1"⟩), ("", ⟨"form", "Load", ""⟩)]
  methods := [{ name := "m", body := "" }, { name := "n", parameters := ["p", "q"], body := "y" }]

theorem document_survives_mixed : mixedDocument.Fits ∧
    (documentJson mixedDocument).IsExchangeable ∧
      readDocument? (documentJson mixedDocument) = some mixedDocument := by
  have hfits : mixedDocument.Fits := by decide +kernel
  exact ⟨hfits, document_survives hfits⟩

end Serial

end ScreenForms
