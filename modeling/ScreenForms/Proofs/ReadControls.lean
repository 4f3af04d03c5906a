import ScreenForms.Proofs.ReadPlaces

/-!
# Controls that are read back

The indices of the records are paired with the items of the document (`forall₂_indices`), so what
the importer collects over the indices is what is collected over the items. Names are claimed as
they are, since they are distinct, and the columns of a grid come back in their order.
-/

namespace ScreenForms

open PixelScreen RecordWriter NameRegistry

/-! ## Controls among the items -/

/-- The control that an item stands for. -/
def Item.control? : Item → Option Control
  | .control c => some c
  | _ => none

/-- The column that an item stands for, when it belongs to the given grid. -/
def Item.columnOf? (grid : Control) : Item → Option GridColumn
  | .column c described _ => if c = grid then some described else none
  | _ => none

/-- Among the items of a control, the control itself is the only control. -/
theorem Control.filterMap_control?_items (c : Control) : c.items.filterMap Item.control? = [c] := by
  have hcolumns : ∀ l : List (GridColumn × Nat), (l.flatMap fun column =>
      [Item.column c column.1 column.2, .header c column.1 column.2]).filterMap Item.control? =
        [] := by
    intro l
    rw [List.filterMap_eq_nil_iff]
    intro a ha
    obtain ⟨column, -, hmem⟩ := List.mem_flatMap.mp ha
    simp only [List.mem_cons, List.not_mem_nil, or_false] at hmem
    rcases hmem with rfl | rfl <;> rfl
  rw [items, List.filterMap_cons, hcolumns]
  rfl

/-- The columns among them are columns of no other control. -/
theorem Control.filterMap_columnOf?_items (c grid : Control) :
    c.items.filterMap (Item.columnOf? grid) =
      if c = grid then (writtenColumns c).map Prod.fst else [] := by
  have hcolumns : ∀ l : List (GridColumn × Nat), (l.flatMap fun column =>
      [Item.column c column.1 column.2, .header c column.1 column.2]).filterMap
        (Item.columnOf? grid) = if c = grid then l.map Prod.fst else [] := by
    intro l
    induction l with
    | nil => simp
    | cons column l ih =>
      rw [List.flatMap_cons, List.filterMap_append, ih]
      by_cases hc : c = grid <;> simp [Item.columnOf?, hc]
  rw [items, List.filterMap_cons_none rfl, hcolumns]

namespace Document

variable {doc : Document}

/-- The items of a document list its controls in the order they are written in. -/
theorem filterMap_control?_items (doc : Document) :
    doc.items.filterMap Item.control? = doc.controls := by
  rw [items, List.filterMap_cons_none rfl, List.filterMap_flatMap]
  simp only [Control.filterMap_control?_items, List.flatMap_singleton']

/-- What only one element of a list gives is given once. -/
theorem flatMap_ite_eq {cs : List Control} {grid : Control} (hgrid : grid ∈ cs) (h : cs.Nodup)
    {β : Type} (f : Control → List β) :
    (cs.flatMap fun c => if c = grid then f c else []) = f grid := by
  induction cs with
  | nil => cases hgrid
  | cons c cs ih =>
    obtain ⟨hnot, hrest⟩ := List.nodup_cons.mp h
    rw [List.flatMap_cons]
    rcases List.mem_cons.mp hgrid with rfl | hgrid
    · have hnone : (cs.flatMap fun c => if c = grid then f c else []) = [] := by
        rw [List.flatMap_eq_nil_iff]
        exact fun c hc => if_neg (ne_of_mem_of_not_mem hc hnot)
      rw [if_pos rfl, hnone, List.append_nil]
    · rw [if_neg (ne_of_mem_of_not_mem hgrid hnot).symm, ih hgrid hrest, List.nil_append]

/-- A grid writes all of its columns, as many as it says it has. -/
theorem Writable.map_fst_writtenColumns (h : doc.Writable) {c : Control} (hc : c ∈ doc.controls) :
    (writtenColumns c).map Prod.fst = c.props.columns := by
  rw [writtenColumns, List.zipIdx_map_fst]
  split
  · rfl
  · next hgrid => exact (h.columns c hc hgrid).symm

/-- Collecting the columns of a grid among all items gives them back in order. -/
theorem Writable.filterMap_columnOf?_items (h : doc.Writable) (hnodup : doc.controls.Nodup)
    {grid : Control} (hgrid : grid ∈ doc.controls) :
    doc.items.filterMap (Item.columnOf? grid) = grid.props.columns := by
  rw [items, List.filterMap_cons_none rfl, List.filterMap_flatMap]
  simp only [Control.filterMap_columnOf?_items]
  rw [flatMap_ite_eq hgrid hnodup, h.map_fst_writtenColumns hgrid]

namespace ReadBack

variable {t : Nesting} (h : doc.ReadBack t)
include h

/-- Records were read in the order of the items, one for each. -/
theorem forall₂_indices :
    List.Forall₂ (fun a i => doc.items[i]? = some a) doc.items t.indices := by
  rw [Nesting.indices, h.length_eq, List.forall₂_iff_get]
  refine ⟨by rw [List.length_range], fun i hi hi' => ?_⟩
  simp

/-- A record is read as a control exactly if it was written for one. -/
theorem kind?_eq {i : Nat} {a : Item} (hi : doc.items[i]? = some a) :
    t.kind? i = a.control?.map Control.kind := by
  cases a with
  | form =>
    obtain rfl := h.index_eq hi items_zero
    rw [Nesting.kind?, h.role_form]
    rfl
  | control c => exact h.kind?_control hi
  | column c column number =>
    obtain ⟨p, hp⟩ := exists_index (holderItem?_mem_items (List.mem_of_getElem? hi) rfl)
    rw [Nesting.kind?, h.role_column hi hp]
    rfl
  | header c column number =>
    obtain ⟨p, hp⟩ := exists_index (holderItem?_mem_items (List.mem_of_getElem? hi) rfl)
    rw [Nesting.kind?, h.role_header hi hp]
    rfl

/-! ## Names -/

/-- The name that a record brings along, when it becomes a control. -/
def ownName? (t : Nesting) (i : Nat) : Option String :=
  (t.kind? i).map fun _ => Text.trimmed (t.record i).objName

/-- Only controls claim names of their own. -/
theorem ownName?_eq {i : Nat} {a : Item} (hi : doc.items[i]? = some a) :
    ownName? t i = a.control?.map Control.name := by
  rw [ownName?, h.kind?_eq hi]
  cases a with
  | control c => exact congrArg some (h.trimmed_objName hi)
  | form => rfl
  | column c column number => rfl
  | header c column number => rfl

/-- The names that are claimed are those of the controls, in order. -/
theorem filterMap_ownName?_indices :
    t.indices.filterMap (ownName? t) = doc.controls.map Control.name := by
  have hnames : List.Forall₂ Eq (doc.items.filterMap fun a => a.control?.map Control.name)
      (t.indices.filterMap (ownName? t)) := by
    refine List.rel_filterMap (fun a i hi => ?_) h.forall₂_indices
    rw [h.ownName?_eq hi]
    cases a.control? with
    | none => exact .none
    | some c => exact .some rfl
  rw [List.forall₂_eq_eq_eq] at hnames
  rw [← hnames, ← filterMap_control?_items doc, List.map_filterMap]

omit h

/-- Claims the name of a record, when it becomes a control. -/
def claimStep (t : Nesting) (state : List (Option String) × NameRegistry) (i : Nat) :
    List (Option String) × NameRegistry :=
  match t.kind? i with
  | none => (state.1 ++ [none], state.2)
  | some _ =>
    let (name, registry) :=
      state.2.claim (Text.trimmed (t.record i).objName) (t.record i).id
    (state.1 ++ [some name], registry)

/-- A record that is no control takes no name from the registry. -/
theorem claimStep_of_none {state : List (Option String) × NameRegistry} {i : Nat}
    (hkind : t.kind? i = none) : claimStep t state i = (state.1 ++ [none], state.2) := by
  rw [claimStep, hkind]

/-- A control claims the name it asks for, if that is the one that is chosen. -/
theorem claimStep_of_kind {state : List (Option String) × NameRegistry} {i : Nat}
    {kind : ControlKind} {name : String} (hkind : t.kind? i = some kind)
    (hname : state.2.choose (Text.trimmed (t.record i).objName) (t.record i).id = name) :
    claimStep t state i = (state.1 ++ [some name], state.2.reserve name) := by
  rw [claimStep, hkind, ← hname]
  rfl

/-- A name that is neither blank nor in use is claimed as it is. -/
theorem claimStep_of_some {state : List (Option String) × NameRegistry} {i : Nat} {name : String}
    (hown : ownName? t i = some name) (hblank : Text.trim name.toList ≠ [])
    (hfree : fold name ∉ state.2.used) :
    claimStep t state i = (state.1 ++ [some name], state.2.reserve name) := by
  obtain ⟨kind, hkind, rfl⟩ := Option.map_eq_some_iff.mp hown
  refine claimStep_of_kind hkind ?_
  rw [choose, contains, if_neg]
  simp only [Bool.or_eq_true, decide_eq_true_eq, List.isEmpty_iff, not_or]
  exact ⟨hblank, hfree⟩

/-- Distinct names are claimed as they are. In the induction the names still to come are free in the
registry, and claiming one leaves the others free. -/
theorem foldl_claimStep {l : List Nat} (state : List (Option String) × NameRegistry)
    (hblank : ∀ name ∈ l.filterMap (ownName? t), Text.trim name.toList ≠ [])
    (hfree : ∀ name ∈ l.filterMap (ownName? t), fold name ∉ state.2.used)
    (hnodup : ((l.filterMap (ownName? t)).map fold).Nodup) :
    (l.foldl (claimStep t) state).1 = state.1 ++ l.map (ownName? t) := by
  induction l generalizing state with
  | nil => simp
  | cons i l ih =>
    rw [List.foldl_cons, List.map_cons]
    rcases hown : ownName? t i with _ | name
    · rw [List.filterMap_cons_none hown] at hblank hfree hnodup
      rw [claimStep_of_none (Option.map_eq_none_iff.mp hown),
        ih (state.1 ++ [none], state.2) hblank hfree hnodup, List.append_assoc]
      rfl
    · rw [List.filterMap_cons_some hown] at hblank hfree hnodup
      obtain ⟨hnotBlank, hblank⟩ := List.forall_mem_cons.mp hblank
      obtain ⟨hnotUsed, hfree⟩ := List.forall_mem_cons.mp hfree
      obtain ⟨hnew, hnodup⟩ := List.nodup_cons.mp hnodup
      rw [claimStep_of_some hown hnotBlank hnotUsed, ih _ hblank ?_ hnodup, List.append_assoc]
      · rfl
      · intro other hother hused
        rcases List.mem_cons.mp hused with heq | hused
        · exact hnew (heq ▸ List.mem_map_of_mem hother)
        · exact hfree other hother hused

include h

/-- The controls keep their names. -/
theorem claimNames_eq :
    t.claimNames (reserve {} doc.window.name) = t.indices.map (ownName? t) := by
  have hdistinct := h.writable.distinct
  rw [List.map_cons, List.nodup_cons] at hdistinct
  obtain ⟨hwindow, hnodup⟩ := hdistinct
  show (t.indices.foldl (claimStep t) ([], reserve {} doc.window.name)).1 = _
  refine (foldl_claimStep _ ?_ ?_ ?_).trans (List.nil_append _)
  · rw [h.filterMap_ownName?_indices]
    intro name hname hnil
    obtain ⟨c, hc, rfl⟩ := List.mem_map.mp hname
    have hwritten := (h.writable.names c hc).1
    rw [hwritten.trimmed] at hnil
    exact hwritten.ne (String.toList_injective hnil)
  · rw [h.filterMap_ownName?_indices]
    intro name hname hused
    rw [reserve, List.mem_singleton] at hused
    exact hwindow (hused ▸ List.mem_map_of_mem hname)
  · rwa [h.filterMap_ownName?_indices]

/-! ## Columns -/

/-- A record has the role of a column of a grid exactly if it was written as one. -/
theorem role_eq_column_iff {i j : Nat} {a : Item} {grid : Control}
    (hj : doc.items[j]? = some (.control grid)) (hi : doc.items[i]? = some a) :
    t.role i = .column j ↔ ∃ column number, a = .column grid column number := by
  cases a with
  | form =>
    obtain rfl := h.index_eq hi items_zero
    simp [h.role_form]
  | control c => simp [h.role_control hi]
  | header c column number =>
    obtain ⟨p, hp⟩ := exists_index (holderItem?_mem_items (List.mem_of_getElem? hi) rfl)
    simp [h.role_header hi hp]
  | column c column number =>
    obtain ⟨p, hp⟩ := exists_index (holderItem?_mem_items (List.mem_of_getElem? hi) rfl)
    rw [h.role_column hi hp, Role.column.injEq]
    constructor
    · rintro rfl
      obtain rfl := Item.control.inj (Option.some.inj (hp.symm.trans hj))
      exact ⟨column, number, rfl⟩
    · rintro ⟨column', number', heq⟩
      obtain ⟨rfl, -, -⟩ := Item.column.inj heq
      exact h.index_eq hp hj

/-- A header is found below the column it was written for. -/
theorem eq_header_of_role {i j : Nat} {a : Item} {grid : Control} {column : GridColumn}
    {number : Nat} (hj : doc.items[j]? = some (.column grid column number))
    (hi : doc.items[i]? = some a) (hrole : t.role i = .header j) :
    a = .header grid column number := by
  cases a with
  | form =>
    obtain rfl := h.index_eq hi items_zero
    rw [h.role_form] at hrole
    cases hrole
  | control c =>
    rw [h.role_control hi] at hrole
    cases hrole
  | column c column number =>
    obtain ⟨p, hp⟩ := exists_index (holderItem?_mem_items (List.mem_of_getElem? hi) rfl)
    rw [h.role_column hi hp] at hrole
    cases hrole
  | header c column number =>
    obtain ⟨p, hp⟩ := exists_index (holderItem?_mem_items (List.mem_of_getElem? hi) rfl)
    rw [h.role_header hi hp] at hrole
    obtain rfl := Role.header.inj hrole
    obtain ⟨rfl, rfl, rfl⟩ := Item.column.inj (Option.some.inj (hp.symm.trans hj))
    rfl

/-- The header of a column carries its text. -/
theorem headerText?_eq {j : Nat} {grid : Control} {column : GridColumn} {number : Nat}
    (hj : doc.items[j]? = some (.column grid column number)) :
    t.headerText? j = some column.header := by
  have hmem := column_mem_items.mp (List.mem_of_getElem? hj)
  obtain ⟨k, hk⟩ := exists_index (header_mem_items.mpr hmem)
  have hrole : t.role k = .header j := h.role_header hk hj
  rcases hfind : t.indices.find? fun i => t.role i = .header j with _ | i
  · rw [List.find?_eq_none] at hfind
    exact absurd hrole (by simpa using hfind k (List.mem_range.mpr (h.lt_length hk)))
  · have hi : t.role i = .header j := by simpa using List.find?_some hfind
    have hlt := List.mem_range.mp (List.mem_of_find?_eq_some hfind)
    rw [h.length_eq] at hlt
    have hitem := List.getElem?_eq_getElem hlt
    rw [h.eq_header_of_role hj hitem hi] at hitem
    have hproperties : (doc.recordOf (.header grid column number)).properties =
        [] ++ textProperty "Caption" column.header :: [] := rfl
    have hcaption : (t.record i).text? "Caption" = some column.header := by
      rw [(h.record_eq hitem).text?_eq]
      exact WrittenRecord.text?_asRead WrittenRecord.skips_nil (by decide) hproperties
    rw [Nesting.headerText?, hfind, Option.map_some, hcaption]
    rfl

section columnRecord

open WrittenRecord

variable (column : GridColumn)

omit h

/-- The property for the field of a column. -/
def fieldProperty : List (String × String) :=
  if column.field.isEmpty then [] else [textProperty "ControlSource" column.field]

/-- A column says what field it shows, how wide it is and whether it can be edited. -/
theorem column_properties (c : Control) (number : Nat) :
    (doc.recordOf (.column c column number)).properties = fieldProperty column ++
      optionalProperty "Width" Decimal.intText column.width ++
        flagProperty "ReadOnly" column.readOnly true := rfl

/-- The field of a column is passed over when something else is looked for. -/
theorem skips_fieldProperty {name : String} (h : Text.sameName "ControlSource" name = false) :
    Skips name (fieldProperty column) := by
  unfold fieldProperty
  split
  · exact skips_nil
  · exact skips_cons.mpr ⟨⟨(by decide : Record.isWord "ControlSource" = true), h⟩, skips_nil⟩

end columnRecord

open WrittenRecord in
/-- The record of a column describes the column. Each of its parts is found past the ones in front
of it, and what was left out is read as the default. -/
theorem gridColumn_eq {j : Nat} {grid : Control} {column : GridColumn} {number : Nat}
    (hj : doc.items[j]? = some (.column grid column number)) : t.gridColumn j = column := by
  obtain ⟨hgrid, hcolumn⟩ := column_mem_items.mp (List.mem_of_getElem? hj)
  have hwidth := h.fits.columns grid hgrid column (mem_columns hcolumn).2
  have hr := h.record_eq hj
  have hproperties : (doc.recordOf (.column grid column number)).properties = _ :=
    column_properties column grid number
  have hfield : ((t.record j).text? "ControlSource").getD "" = column.field := by
    rw [hr.text?_eq]
    by_cases hempty : column.field.isEmpty = true
    · rw [fieldProperty, if_pos hempty] at hproperties
      rw [Record.text?, property?_asRead_eq_none]
      · simpa using hempty.symm
      · rw [hproperties]
        exact skips_append.mpr ⟨skips_optionalProperty (by decide) (by decide) _ _,
          skips_flagProperty (by decide) (by decide) _ _⟩
    · rw [fieldProperty, if_neg hempty, List.append_assoc, List.singleton_append] at hproperties
      rw [text?_asRead skips_nil (by decide) hproperties]
      rfl
  have hnumber : ((t.record j).number? ["Width"]).map Decimal.nearest = column.width := by
    rw [hr.number?_eq]
    rcases hcase : column.width with _ | width
    · rw [hcase] at hproperties
      have hnone : (doc.recordOf (.column grid column number)).asRead.property? "Width" = none := by
        refine property?_asRead_eq_none ?_
        rw [hproperties]
        exact skips_append.mpr ⟨skips_append.mpr ⟨skips_fieldProperty column (by decide), skips_nil⟩,
          skips_flagProperty (by decide) (by decide) _ _⟩
      rw [Record.number?, List.findSome?_cons, hnone]
      rfl
    · rw [hcase, List.append_assoc] at hproperties
      obtain ⟨x, hx, hnearest⟩ := exists_number?_asRead (skips_fieldProperty column (by decide))
        (by decide) (hwidth width hcase) hproperties
      rw [hx, Option.map_some, hnearest]
  have hreadOnly : ((t.record j).flag? "ReadOnly").getD false = column.readOnly := by
    have hskips : Skips "ReadOnly" (fieldProperty column ++
        optionalProperty "Width" Decimal.intText column.width) :=
      skips_append.mpr ⟨skips_fieldProperty column (by decide),
        skips_optionalProperty (by decide) (by decide) _ _⟩
    rw [← List.append_nil (flagProperty "ReadOnly" column.readOnly true)] at hproperties
    rw [hr.flag?_eq]
    exact flag?_asRead hskips (by decide) skips_nil hproperties
  rw [Nesting.gridColumn]
  simp only [hfield, hnumber, hreadOnly, h.headerText?_eq hj, Option.getD_some]

/-- The columns of a grid come back in their order. The records with the role of its columns are
those of its items, one for each column. -/
theorem columnsOf_eq {i : Nat} {c : Control} (hi : doc.items[i]? = some (.control c)) :
    t.columnsOf i = c.props.columns := by
  have hc := control_mem_items.mp (List.mem_of_getElem? hi)
  have hcolumns : List.Forall₂ Eq (doc.items.filterMap (Item.columnOf? c))
      (t.indices.filterMap fun j =>
        if t.role j = .column i then some (t.gridColumn j) else none) := by
    refine List.rel_filterMap (fun a j hj => ?_) h.forall₂_indices
    have hrole := h.role_eq_column_iff hi hj
    by_cases hcolumn : t.role j = .column i
    · obtain ⟨column, number, rfl⟩ := hrole.mp hcolumn
      rw [if_pos hcolumn, h.gridColumn_eq hj, Item.columnOf?, if_pos rfl]
      exact .some rfl
    · rw [if_neg hcolumn]
      have hother : Item.columnOf? c a = none := by
        cases a with
        | column d column number =>
          exact if_neg fun heq : d = c => hcolumn (hrole.mpr ⟨column, number, heq ▸ rfl⟩)
        | form => rfl
        | control d => rfl
        | header d column number => rfl
      rw [hother]
      exact .none
  rw [List.forall₂_eq_eq_eq] at hcolumns
  rw [← h.writable.filterMap_columnOf?_items (controls_nodup h.sound.ids_nodup) hc, hcolumns,
    Nesting.columnsOf, ← List.filterMap_eq_filter, List.map_filterMap]
  refine List.filterMap_congr fun j _ => ?_
  by_cases hcolumn : t.role j = .column i <;> simp [hcolumn, Option.guard]

end ReadBack

end Document

end ScreenForms
