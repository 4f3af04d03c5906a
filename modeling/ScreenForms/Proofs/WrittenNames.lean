import Mathlib.Data.List.Find
import ScreenForms.Proofs.ReadProperties
import ScreenForms.Proofs.SortedMaps

/-!
# Properties by their names

Names of legacy properties are compared without regard to case, and of several properties with one
name the first counts. `written?` is what a lookup by name finds among written properties. The
properties of a control that are not extra values have distinct names
(`RecordWriter.written?_fixedProperties`), and an extra value is found under a mapped name only if
its key stands for that name (`RecordWriter.written?_extraProperties`).
-/

namespace ScreenForms

open Text

namespace PropertyTable

theorem sameName_iff {a b : String} : sameName a b = true ↔ lower a.toList = lower b.toList :=
  beq_iff_eq

/-- Whether a name is mapped does not depend on its case. -/
theorem isMapped_congr {a b : String} (h : sameName a b = true) : isMapped a = isMapped b := by
  have hlower := sameName_iff.mp h
  unfold isMapped sameName
  rw [hlower]

/-- A key under which an extra value of a control of the given kind is kept: one that stands for a
legacy property, or the name of a property that is not mapped. -/
inductive IsExtraKey (kind : ControlKind) (key : String) : Prop where
  | keyed (name : String) (h : (key, name) ∈ extraNames)
      (hvalue : key = ExtraKey.value → kind.textIsValue = false)
  | unmapped (hword : Record.isWord key = true) (hframe : key ≠ ExtraKey.pageFrame)
      (hmapped : isMapped key = false)

instance (kind : ControlKind) (key : String) : Decidable (IsExtraKey kind key) :=
  decidable_of_iff ((∃ e ∈ extraNames, e.1 = key ∧
      (key = ExtraKey.value → kind.textIsValue = false)) ∨
        Record.isWord key = true ∧ key ≠ ExtraKey.pageFrame ∧ isMapped key = false) <| by
    constructor
    · rintro (⟨e, he, rfl, hvalue⟩ | ⟨hword, hframe, hmapped⟩)
      · exact .keyed e.2 he hvalue
      · exact .unmapped hword hframe hmapped
    · rintro (⟨name, hname, hvalue⟩ | ⟨hword, hframe, hmapped⟩)
      · exact .inl ⟨_, hname, rfl, hvalue⟩
      · exact .inr ⟨hword, hframe, hmapped⟩

end PropertyTable

namespace RecordWriter

open PropertyTable

/-! ## Lookups -/

/-- The first of the written properties with a name. -/
def written? (ps : List (String × String)) (name : String) : Option String :=
  (ps.find? fun p => sameName p.1 name).map Prod.snd

variable {ps qs : List (String × String)} {name : String}

@[simp] theorem written?_nil (name : String) : written? [] name = none := rfl

theorem written?_append (ps qs : List (String × String)) (name : String) :
    written? (ps ++ qs) name = (written? ps name).or (written? qs name) := by
  unfold written?
  rw [List.find?_append]
  cases ps.find? fun p => sameName p.1 name <;> rfl

theorem written?_eq_none (h : ∀ p ∈ ps, sameName p.1 name = false) : written? ps name = none := by
  rw [written?, List.find?_eq_none.mpr fun p hp => by simp [h p hp], Option.map_none]

/-- Properties that may be absent, in order. -/
def present (groups : List (String × Option String)) : List (String × String) :=
  groups.filterMap fun g => g.2.map (g.1, ·)

theorem exists_of_mem_present {groups : List (String × Option String)} {p : String × String}
    (h : p ∈ present groups) : ∃ g ∈ groups, g.1 = p.1 := by
  obtain ⟨g, hg, hp⟩ := List.mem_filterMap.mp h
  obtain ⟨value, -, rfl⟩ := Option.map_eq_some_iff.mp hp
  exact ⟨g, hg, rfl⟩

/-- Properties with distinct names are all found. A name that is looked up without regard to case
meets no other name in front of its own. -/
theorem written?_present {groups : List (String × Option String)}
    (h : (groups.map Prod.fst).Pairwise fun a b => sameName a b = false ∧ sameName b a = false) :
    ∀ g ∈ groups, written? (present groups) g.1 = g.2 := by
  induction groups with
  | nil => exact fun g hg => absurd hg List.not_mem_nil
  | cons g groups ih =>
    obtain ⟨hfirst, hrest⟩ := List.pairwise_cons.mp h
    have hsplit : present (g :: groups) = present [g] ++ present groups := by
      unfold present
      rw [← List.filterMap_append]
      rfl
    have hself : written? (present [g]) g.1 = g.2 := by
      rcases hg : g.2 with _ | value
      · simp [present, hg]
      · simp [present, hg, written?, sameName]
    have hothers : written? (present groups) g.1 = none := by
      refine written?_eq_none fun p hp => ?_
      obtain ⟨g', hg', hname⟩ := exists_of_mem_present hp
      rw [← hname]
      exact (hfirst g'.1 (List.mem_map_of_mem hg')).2
    refine List.forall_mem_cons.mpr ⟨?_, fun g' hg' => ?_⟩
    · rw [hsplit, written?_append, hself, hothers, Option.or_none]
    · have hnone : written? (present [g]) g'.1 = none := by
        refine written?_eq_none fun p hp => ?_
        obtain ⟨g'', hg'', hname⟩ := exists_of_mem_present hp
        rw [← hname, List.mem_singleton.mp hg'']
        exact (hfirst g'.1 (List.mem_map_of_mem hg')).1
      rw [hsplit, written?_append, hnone, Option.none_or, ih hrest g' hg']

/-! ## The properties of a control -/

/-- The properties of a control that are no extra values, each with the text it is written as when
it is written at all. -/
def fixedProperties (kind : ControlKind) (p : Properties) : List (String × Option String) :=
  [((textProperties kind).1, p.text.map fun t => (Value.text t).toLegacy),
    ("Visible", if p.visible then none else some (Value.flag false).toLegacy),
    ("Enabled", if p.enabled then none else some (Value.flag false).toLegacy),
    ("ForeColor", p.style.foreColor.map fun c => Decimal.intText c.packed),
    ("BackColor", p.style.backColor.map fun c => Decimal.intText c.packed),
    ("FontName", p.style.fontName.map fun name => (Value.text name).toLegacy),
    ("FontSize", p.style.fontSize.map Decimal.plainText),
    ("FontBold", if p.style.fontBold then some (Value.flag true).toLegacy else none),
    ("FontItalic", if p.style.fontItalic then some (Value.flag true).toLegacy else none),
    ("RowSource",
      if p.items.isEmpty then none else some (Value.text (Text.join ";" p.items)).toLegacy)]

theorem ownProperties_eq (c : Control) : ownProperties c =
    present (fixedProperties c.kind c.props) ++ extraProperties c.props.extra := by
  have hoptional : ∀ {α : Type} (name : String) (write : α → String) (o : Option α),
      optionalProperty name write o = present [(name, o.map write)] := by
    intro α name write o
    cases o <;> rfl
  have hcleared : ∀ (name : String) (b : Bool), flagProperty name b false =
      present [(name, if b then none else some (Value.flag false).toLegacy)] := by
    intro name b
    cases b <;> rfl
  have hset : ∀ (name : String) (b : Bool), flagProperty name b true =
      present [(name, if b then some (Value.flag true).toLegacy else none)] := by
    intro name b
    cases b <;> rfl
  have hitems : (if c.props.items.isEmpty then []
      else [textProperty "RowSource" (Text.join ";" c.props.items)]) =
      present [("RowSource", if c.props.items.isEmpty then none
        else some (Value.text (Text.join ";" c.props.items)).toLegacy)] := by
    split <;> rfl
  unfold ownProperties styleProperties
  dsimp only
  rw [hitems]
  simp only [hoptional, hcleared, hset, present, ← List.filterMap_append]
  rfl

/-- The names of these properties. -/
def fixedNames (kind : ControlKind) : List String :=
  [(textProperties kind).1, "Visible", "Enabled", "ForeColor", "BackColor", "FontName", "FontSize",
    "FontBold", "FontItalic", "RowSource"]

theorem map_fst_fixedProperties (kind : ControlKind) (p : Properties) :
    (fixedProperties kind p).map Prod.fst = fixedNames kind := rfl

theorem pairwise_fixedNames (kind : ControlKind) : (fixedNames kind).Pairwise fun a b =>
    sameName a b = false ∧ sameName b a = false := by
  unfold fixedNames textProperties
  cases kind.textIsValue <;> decide +kernel

theorem plain_of_mem_fixedNames {kind : ControlKind} (h : name ∈ fixedNames kind) :
    Record.isWord name = true ∧ isMapped name = true := by
  have hall : ∀ name ∈ fixedNames kind, Record.isWord name = true ∧ isMapped name = true := by
    unfold fixedNames textProperties
    cases kind.textIsValue <;> decide +kernel
  exact hall name h

/-! ## Extra values -/

section extra

variable {kind : ControlKind} {key : String} {extra : SortedMap Value}

theorem plain_of_mem_extraNames {e : String × String} (h : e ∈ extraNames) :
    e.1 ≠ ExtraKey.pageFrame ∧ Record.isWord e.2 = true ∧ isMapped e.2 = true := by
  revert e
  decide +kernel

theorem extraName_cases (h : IsExtraKey kind key) : (key, extraName key) ∈ extraNames ∨
    key ∉ extraNames.map Prod.fst ∧ extraName key = key ∧ Record.isWord key = true ∧
      key ≠ ExtraKey.pageFrame ∧ isMapped key = false := by
  unfold extraName
  rcases hfind : extraNames.find? fun e => e.1 == key with _ | e
  · have hfresh : key ∉ extraNames.map Prod.fst := by
      intro hmem
      obtain ⟨e, he, rfl⟩ := List.mem_map.mp hmem
      exact absurd (List.find?_eq_none.mp hfind e he) (by simp)
    cases h with
    | keyed name h hvalue => exact absurd (List.mem_map_of_mem (f := Prod.fst) h) hfresh
    | unmapped hword hframe hmapped =>
      rw [hfind]
      exact .inr ⟨hfresh, rfl, hword, hframe, hmapped⟩
  · obtain rfl : e.1 = key := by simpa using List.find?_some hfind
    rw [hfind]
    exact .inl (List.mem_of_find?_eq_some hfind)

theorem isWord_extraName (h : IsExtraKey kind key) : Record.isWord (extraName key) = true := by
  rcases extraName_cases h with hkeyed | ⟨-, hname, hword, -, -⟩
  · exact (plain_of_mem_extraNames hkeyed).2.1
  · rw [hname]
    exact hword

/-- Under a mapped name an extra value is found only if its key stands for that name. -/
theorem sameName_extraName (h : IsExtraKey kind key) (hname : isMapped name = true) :
    sameName (extraName key) name = true ↔ ∃ e ∈ extraNames, e.1 = key ∧ sameName e.2 name := by
  rcases extraName_cases h with hkeyed | ⟨hfresh, heq, -, -, hmapped⟩
  · refine ⟨fun hsame => ⟨_, hkeyed, rfl, hsame⟩, ?_⟩
    rintro ⟨e, he, hkey, hsame⟩
    -- a key stands for one name only
    have hdistinct : ∀ a ∈ extraNames, ∀ b ∈ extraNames, a.1 = b.1 → a = b := by decide
    rwa [hdistinct e he _ hkeyed hkey] at hsame
  · constructor
    · intro hsame
      rw [heq] at hsame
      rw [isMapped_congr hsame, hname] at hmapped
      cases hmapped
    · rintro ⟨e, he, rfl, -⟩
      exact absurd (List.mem_map_of_mem he) hfresh

/-- What is found among written extra values under the name that a key stands for. -/
theorem written?_extraProperties (hkeys : ∀ e ∈ extra.entries, IsExtraKey kind e.1)
    (h : (key, name) ∈ extraNames) :
    written? (extraProperties extra) name = (extra.get? key).map Value.toLegacy := by
  obtain ⟨hframe, -, hmapped⟩ := plain_of_mem_extraNames h
  dsimp only at hframe hmapped
  have hdistinct : ∀ a ∈ extraNames, ∀ b ∈ extraNames, sameName a.2 b.2 = true → a.1 = b.1 := by
    decide +kernel
  have hsame : ∀ e ∈ extra.entries,
      decide ((e.1 != ExtraKey.pageFrame) = true ∧ sameName (extraName e.1) name = true) =
        (e.1 == key) := by
    intro e he
    rw [Bool.eq_iff_iff, decide_eq_true_iff, sameName_extraName (hkeys e he) hmapped, beq_iff_eq]
    constructor
    · rintro ⟨-, e', he', hkey, hsame⟩
      rw [← hkey, hdistinct e' he' _ h hsame]
    · rintro rfl
      exact ⟨by simpa using hframe, _, h, rfl, by simp [sameName]⟩
  unfold written? extraProperties SortedMap.get?
  rw [List.find?_map, List.find?_filter]
  simp only [Function.comp_apply]
  rw [List.find?_congr hsame]
  cases extra.entries.find? fun e => e.1 == key <;> rfl

/-- Under any other mapped name no extra value is found. -/
theorem written?_extraProperties_eq_none (hkeys : ∀ e ∈ extra.entries, IsExtraKey kind e.1)
    (hname : isMapped name = true)
    (h : ∀ e ∈ extraNames, e.1 ∈ extra.keys → sameName e.2 name = false) :
    written? (extraProperties extra) name = none := by
  refine written?_eq_none fun p hp => ?_
  obtain ⟨e, he, rfl⟩ := List.mem_map.mp hp
  have hmem := List.mem_of_mem_filter he
  refine Bool.eq_false_iff.mpr fun hsame => ?_
  obtain ⟨e', he', hkey, hfound⟩ := (sameName_extraName (hkeys e hmem) hname).mp hsame
  rw [h e' he' (hkey ▸ List.mem_map_of_mem hmem)] at hfound
  cases hfound

end extra

end RecordWriter

end ScreenForms
