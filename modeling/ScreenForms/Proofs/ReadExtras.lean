import ScreenForms.Proofs.ReadControls

/-!
# Extra values that are read back

The page frame of a page is no property of its record, so a page that no page frame owns comes back
with an extra value for a page frame only when some other key is read under that name
(`ReadBack.lacksFrame_extraValues`).
-/

namespace ScreenForms

open RecordWriter Record

/-! ## The table of properties -/

namespace PropertyTable

/-- No extra value for a page frame. -/
def LacksFrame (m : SortedMap Value) : Prop := m.get? ExtraKey.pageFrame = none

theorem LacksFrame.insert {m : SortedMap Value} (h : LacksFrame m) {key : String}
    (hne : key ≠ ExtraKey.pageFrame) (v : Value) : LacksFrame (m.insert key v) :=
  (SortedMap.get?_insert_of_ne m v hne).trans h

theorem LacksFrame.put {m : SortedMap Value} (h : LacksFrame m) {key : String}
    (hne : key ≠ ExtraKey.pageFrame) (v : Option Value) :
    LacksFrame (match v with
      | some v => m.insert key v
      | none => m) := by
  cases v with
  | none => exact h
  | some v => exact h.insert hne v

/-- Only a property with the name of the page frame sets that extra value. -/
theorem lacksFrame_extraValues {r : Record} (kind : ControlKind)
    (h : ∀ p ∈ r.properties, p.1 ≠ ExtraKey.pageFrame) : LacksFrame (extraValues r kind) := by
  have hkeyed : ∀ e ∈ extraNames.filter fun e => e.1 != ExtraKey.value,
      e.1 ≠ ExtraKey.pageFrame := by decide
  have holder : ∀ e ∈ olderNames, e.2 ≠ ExtraKey.pageFrame := by decide
  unfold extraValues
  dsimp only
  refine List.foldlRecOn (motive := LacksFrame) _ _ ?_ ?_
  · refine List.foldlRecOn (motive := LacksFrame) _ _ ?_ ?_
    · refine List.foldlRecOn (motive := LacksFrame) _ _ ?_ ?_
      · refine LacksFrame.put (SortedMap.get?_empty _) ?_ _
        unfold textProperties
        cases kind.textIsValue <;> decide
      · exact fun m hm e he => hm.put (hkeyed e he) _
    · intro m hm e he
      split
      · exact hm
      · exact hm.put (holder e he) _
  · exact fun m hm p hp => hm.insert (h p (List.mem_of_mem_filter hp)) p.2

end PropertyTable

/-! ## Keys of properties -/

theorem key_of_mem_flagProperty {name : String} {value written : Bool} :
    ∀ p ∈ flagProperty name value written, p.1 = name := by
  intro p hp
  unfold flagProperty at hp
  split at hp
  · exact congrArg Prod.fst (List.mem_singleton.mp hp)
  · cases hp

theorem key_of_mem_optionalProperty {α : Type} {name : String} {write : α → String}
    {o : Option α} : ∀ p ∈ optionalProperty name write o, p.1 = name := by
  intro p hp
  cases o with
  | none => cases hp
  | some a => exact congrArg Prod.fst (List.mem_singleton.mp hp)

/-- The names of the properties that every control may have. -/
def ownNames : List String :=
  ["Caption", "Value", "Visible", "Enabled", "ForeColor", "BackColor", "FontName", "FontSize",
    "FontBold", "FontItalic", "RowSource"]

/-- Every property of a control has a fixed name or that of an extra value. -/
theorem key_of_mem_ownProperties (c : Control) :
    ∀ p ∈ ownProperties c, p.1 ∈ ownNames ∨
      ∃ e ∈ c.props.extra.entries, e.1 ≠ ExtraKey.pageFrame ∧ p.1 = extraName e.1 := by
  have hfixed : ∀ {name : String} {ps : List (String × String)}, name ∈ ownNames →
      (∀ p ∈ ps, p.1 = name) → ∀ p ∈ ps, p.1 ∈ ownNames ∨
        ∃ e ∈ c.props.extra.entries, e.1 ≠ ExtraKey.pageFrame ∧ p.1 = extraName e.1 :=
    fun hname hps p hp => .inl (hps p hp ▸ hname)
  have hprimary : (PropertyTable.textProperties c.kind).1 ∈ ownNames := by
    unfold PropertyTable.textProperties
    split <;> decide
  unfold ownProperties styleProperties
  dsimp only
  simp only [List.forall_mem_append]
  refine ⟨⟨⟨⟨⟨?_, ?_⟩, ?_⟩, ⟨⟨⟨⟨?_, ?_⟩, ?_⟩, ?_⟩, ?_⟩, ?_⟩, ?_⟩, ?_⟩
  · exact hfixed hprimary key_of_mem_optionalProperty
  · exact hfixed (by decide) key_of_mem_flagProperty
  · exact hfixed (by decide) key_of_mem_flagProperty
  · exact hfixed (by decide) key_of_mem_optionalProperty
  · exact hfixed (by decide) key_of_mem_optionalProperty
  · exact hfixed (by decide) key_of_mem_optionalProperty
  · exact hfixed (by decide) key_of_mem_optionalProperty
  · exact hfixed (by decide) key_of_mem_flagProperty
  · exact hfixed (by decide) key_of_mem_flagProperty
  · intro p hp
    split at hp
    · cases hp
    · obtain rfl := List.mem_singleton.mp hp
      exact .inl (by decide : "RowSource" ∈ ownNames)
  · intro p hp
    obtain ⟨e, he, rfl⟩ := List.mem_map.mp hp
    obtain ⟨hmem, hne⟩ := List.mem_filter.mp he
    exact .inr ⟨e, hmem, by simpa using hne, rfl⟩

namespace Document

/-- No extra value of a page that no page frame owns is read under the name of the page frame. -/
def KeepsRootPages (doc : Document) : Prop :=
  ∀ c ∈ doc.controls, c.kind = .page → doc.holder? c = none →
    ∀ e ∈ c.props.extra.entries, e.1 ≠ ExtraKey.pageFrame → readName? e.1 ≠ some ExtraKey.pageFrame

instance (doc : Document) : Decidable doc.KeepsRootPages :=
  inferInstanceAs (Decidable (∀ c ∈ doc.controls, _))

namespace ReadBack

variable {doc : Document} {t : PixelScreen.Nesting} (h : doc.ReadBack t)
include h

/-- The names with which the properties of a control are read. -/
theorem readName?_of_mem {i : Nat} {c : Control} (hi : doc.items[i]? = some (.control c)) :
    ∀ p ∈ (t.record i).properties, ∃ q ∈ (doc.recordOf (.control c)).properties,
      readName? q.1 = some p.1 := by
  obtain ⟨line, methods, id, hr⟩ := h.record_eq hi
  have hplain := h.writable.plain_properties (List.mem_of_getElem? hi)
  rw [hr]
  intro p hp
  obtain ⟨q, hq, hread⟩ := List.mem_filterMap.mp hp
  refine ⟨q, hq, ?_⟩
  rw [← propertyOf?_line (hplain q hq).1 q.2, hread, Option.map_some]

/-- A control whose extra values keep off the name of the page frame comes back without one. -/
theorem lacksFrame_extraValues {i : Nat} {c : Control} (hi : doc.items[i]? = some (.control c))
    (hkeys : ∀ e ∈ c.props.extra.entries, e.1 ≠ ExtraKey.pageFrame →
      readName? e.1 ≠ some ExtraKey.pageFrame) :
    PropertyTable.LacksFrame (PropertyTable.extraValues (t.record i) c.kind) := by
  refine PropertyTable.lacksFrame_extraValues c.kind fun p hp heq => ?_
  obtain ⟨q, hq, hname⟩ := h.readName?_of_mem hi p hp
  rw [heq] at hname
  have hfixed : ∀ name ∈ WrittenRecord.geometryNames ++ ownNames,
      readName? name ≠ some ExtraKey.pageFrame := by decide
  rw [control_properties] at hq
  rcases List.mem_append.mp hq with hq | hq
  · exact hfixed q.1 (List.mem_append_left _ (List.mem_map_of_mem (f := Prod.fst) hq)) hname
  · rcases key_of_mem_ownProperties c q hq with hq | ⟨e, he, hne, hkey⟩
    · exact hfixed q.1 (List.mem_append_right _ hq) hname
    · rw [hkey, extraName] at hname
      rcases hfind : PropertyTable.extraNames.find? fun e' => e'.1 == e.1 with _ | e'
      · rw [hfind] at hname
        exact hkeys e he hne hname
      · rw [hfind] at hname
        exact (by decide : ∀ e ∈ PropertyTable.extraNames,
          readName? e.2 ≠ some ExtraKey.pageFrame) e' (List.mem_of_find?_eq_some hfind) hname

end ReadBack

end Document

end ScreenForms
