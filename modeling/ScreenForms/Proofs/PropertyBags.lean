import ScreenForms.Proofs.RecordTexts
import ScreenForms.Proofs.Splitting
import ScreenForms.Proofs.Writable
import ScreenForms.Proofs.WrittenNames
import ScreenForms.Proofs.WrittenNumbers

/-!
# Properties that are written and read

Which properties a control has in a legacy record and which of them the control of that record has
are two tables. They are inverse to each other on the properties that can be written at all
(`Properties.Representable`): reading the written properties gives the same text, flags, style,
items and extra values (`properties_survive`). Numbers are the same when they are equal as floats;
that the digits of a float read back is assumed of the numbers that occur.
-/

namespace ScreenForms

open Text RecordWriter PropertyTable

/-! ## Properties that can be written -/

namespace Value

/-- Equality of values, of numbers as floats. -/
def Same : Value → Value → Prop
  | .number x, .number y => (x == y) = true
  | v, w => v = w

/-- The number of a value that is one. -/
def amount? : Value → Option Float
  | .number x => some x
  | _ => none

/-- The text of an expression. -/
def source? : Value → Option String
  | .expr s => some s
  | _ => none

/-- A value that is written on one line and is not taken for another one. -/
structure Representable (v : Value) : Prop where
  oneLine : ∀ t ∈ v.asText?, IsOneLine t
  finite : ∀ x ∈ v.amount?, x.isFinite = true
  expr : ∀ s ∈ v.source?, trim s.toList = s.toList ∧ sniff s = .expr s

instance (v : Value) : Decidable v.Representable :=
  decidable_of_iff ((∀ t ∈ v.asText?, IsOneLine t) ∧ (∀ x ∈ v.amount?, x.isFinite = true) ∧
      ∀ s ∈ v.source?, trim s.toList = s.toList ∧ sniff s = .expr s)
    ⟨fun ⟨h₁, h₂, h₃⟩ => ⟨h₁, h₂, h₃⟩, fun ⟨h₁, h₂, h₃⟩ => ⟨h₁, h₂, h₃⟩⟩

/-- What is read of a written value. -/
def reread (v : Value) : Value := sniff v.toLegacy

/-- A value comes back as the same value, if the numbers in it do. -/
theorem same_reread {v : Value} (h : v.Representable)
    (hround : ∀ x ∈ v.amount?, Decimal.RoundTrips x) : Same v.reread v := by
  cases v with
  | text t =>
    rw [reread, sniff_toLegacy_text]
    rfl
  | flag b =>
    rw [reread, sniff_toLegacy_flag]
    rfl
  | number x =>
    obtain ⟨y, hsniff, heq⟩ := exists_sniff_plainText (h.finite x rfl) (hround x rfl)
    rw [reread, toLegacy, hsniff]
    exact heq
  | expr s =>
    rw [reread, toLegacy, (h.expr s rfl).2]
    rfl

end Value

namespace Properties

/-- Equality of properties, of numbers as floats; the columns of grids are left aside. -/
structure Same (p q : Properties) : Prop where
  text : p.text = q.text
  visible : p.visible = q.visible
  enabled : p.enabled = q.enabled
  foreColor : p.style.foreColor = q.style.foreColor
  backColor : p.style.backColor = q.style.backColor
  fontName : p.style.fontName = q.style.fontName
  fontSize : Option.Rel (fun x y => (x == y) = true) p.style.fontSize q.style.fontSize
  fontBold : p.style.fontBold = q.style.fontBold
  fontItalic : p.style.fontItalic = q.style.fontItalic
  items : p.items = q.items
  extra : ∀ key, Option.Rel Value.Same (p.extra.get? key) (q.extra.get? key)

/-- What is asked of the properties of a control so that they can be written and read. -/
structure Representable (kind : ControlKind) (p : Properties) : Prop where
  text : ∀ t ∈ p.text, IsOneLine t
  fontName : ∀ t ∈ p.style.fontName, IsOneLine t
  fontSize : ∀ x ∈ p.style.fontSize, x.isFinite = true
  items : ∀ t ∈ p.items, t ≠ "" ∧ trim t.toList = t.toList ∧ ';' ∉ t.toList ∧ IsOneLine t
  single : p.items.length = 1 → ∀ t ∈ p.items, ',' ∉ t.toList
  keys : ∀ e ∈ p.extra.entries, IsExtraKey kind e.1
  values : ∀ e ∈ p.extra.entries, e.2.Representable

instance (kind : ControlKind) (p : Properties) : Decidable (p.Representable kind) :=
  decidable_of_iff ((∀ t ∈ p.text, IsOneLine t) ∧ (∀ t ∈ p.style.fontName, IsOneLine t) ∧
      (∀ x ∈ p.style.fontSize, x.isFinite = true) ∧
      (∀ t ∈ p.items, t ≠ "" ∧ trim t.toList = t.toList ∧ ';' ∉ t.toList ∧ IsOneLine t) ∧
      (p.items.length = 1 → ∀ t ∈ p.items, ',' ∉ t.toList) ∧
      (∀ e ∈ p.extra.entries, IsExtraKey kind e.1) ∧ ∀ e ∈ p.extra.entries, e.2.Representable)
    ⟨fun ⟨text, fontName, fontSize, items, single, keys, values⟩ =>
        ⟨text, fontName, fontSize, items, single, keys, values⟩,
      fun ⟨text, fontName, fontSize, items, single, keys, values⟩ =>
        ⟨text, fontName, fontSize, items, single, keys, values⟩⟩

/-- The numbers among the properties of a control. -/
def numbers (p : Properties) : List Float :=
  p.style.fontSize.toList ++ p.extra.values.filterMap Value.amount?

variable {kind : ControlKind} {p : Properties}

/-! ## Items -/

/-- Items are separated by semicolons, so that a list whose items have none is split where it was
joined. -/
theorem Representable.splitItems_join (h : p.Representable kind) :
    splitItems (Text.join ";" p.items) = p.items := by
  -- the separator is a semicolon, or there is one item at most and nothing to separate
  have hsplit : ∀ sep, (∀ t ∈ p.items, sep ∉ t.toList) → (sep = ';' ∨ p.items.length < 2) →
      ((trimmedPieces sep (Text.join ";" p.items).toList).map String.ofList) = p.items := by
    intro sep hsep hone
    have hjoin : (Text.join ";" p.items).toList =
        joinWith [sep] (p.items.map String.toList) := by
      rw [toList_join]
      rcases hone with rfl | hone
      · rfl
      · rcases hitems : p.items with _ | ⟨t, _ | ⟨u, rest⟩⟩
        · rfl
        · rfl
        · rw [hitems] at hone
          simp at hone
    rw [hjoin, trimmedPieces_joinWith List.not_mem_nil (fun c hc => absurd hc List.not_mem_nil)]
    · rw [List.map_map]
      simp [Function.comp_def]
    · intro l hl
      obtain ⟨t, ht, rfl⟩ := List.mem_map.mp hl
      obtain ⟨hne, htrim, -, -⟩ := h.items t ht
      exact ⟨fun hnil => hne (String.toList_injective hnil), htrim, hsep t ht⟩
  unfold splitItems
  dsimp only
  split
  · exact hsplit ';' (fun t ht => (h.items t ht).2.2.1) (.inl rfl)
  · next hnone =>
    rcases hitems : p.items with _ | ⟨t, _ | ⟨u, rest⟩⟩
    · rfl
    · have hcomma := hsplit ',' (fun t' ht => ?_) (.inr (by rw [hitems]; simp))
      · rw [hitems] at hcomma
        exact hcomma
      · exact h.single (by rw [hitems]; rfl) t' ht
    · refine absurd ?_ hnone
      rw [hitems, Text.join]
      · simp
      · exact List.cons_ne_nil u rest

end Properties

/-! ## Lookups in the record that is read -/

namespace WrittenRecord

variable {w : WrittenRecord}

/-- Properties whose names are words are read as they are written. -/
theorem asRead_properties (h : ∀ p ∈ w.properties, Record.isWord p.1 = true) :
    w.asRead.properties = w.properties.map fun p => (p.1, Value.sniff p.2) := by
  rw [← List.filterMap_eq_map]
  exact List.filterMap_congr fun p hp => Record.propertyOf?_word (h p hp) p.2

/-- A property is read as the value that its written text stands for. -/
theorem property?_asRead_eq_written (h : ∀ p ∈ w.properties, Record.isWord p.1 = true)
    (name : String) :
    w.asRead.property? name = (written? w.properties name).map Value.sniff := by
  rw [Record.property?, asRead_properties h, List.find?_map, written?, Option.map_map,
    Option.map_map]
  rfl

theorem isWord_of_mem_geometryNames {key : String} (h : key ∈ geometryNames) :
    Record.isWord key = true := by
  revert key
  decide +kernel

/-- The names for extra values are plain keys themselves. -/
theorem isPlainKey_of_mem_extraNames {e : String × String} (h : e ∈ extraNames) :
    IsPlainKey e.1 := by
  revert e
  decide +kernel

/-- A record with the properties of a control and nothing but position and size in front of
them. -/
structure Carries (w : WrittenRecord) (c : Control) (front : List (String × String)) : Prop where
  geometry : ∀ p ∈ front, p.1 ∈ geometryNames
  properties : w.properties = front ++ ownProperties c
  representable : c.props.Representable c.kind

namespace Carries

variable {c : Control} {front : List (String × String)} {name : String} (h : w.Carries c front)
include h

/-- Every key of the record is a word, whichever part of the bag it is from. -/
theorem isWord_of_mem : ∀ p ∈ w.properties, Record.isWord p.1 = true := by
  rw [h.properties, ownProperties_eq, List.forall_mem_append, List.forall_mem_append]
  refine ⟨fun p hp => ?_, fun p hp => ?_, fun p hp => ?_⟩
  · exact isWord_of_mem_geometryNames (h.geometry p hp)
  · obtain ⟨g, hg, hname⟩ := exists_of_mem_present hp
    rw [← hname]
    exact (plain_of_mem_fixedNames (List.mem_map_of_mem (f := Prod.fst) hg)).1
  · obtain ⟨e, he, rfl⟩ := List.mem_map.mp hp
    exact isWord_extraName (h.representable.keys e (List.mem_of_mem_filter he))

theorem property?_eq (name : String) :
    w.asRead.property? name = (written? w.properties name).map Value.sniff :=
  property?_asRead_eq_written h.isWord_of_mem name

/-- A name that is none of position and size is looked up behind them. -/
theorem written?_eq (hname : ∀ key ∈ geometryNames, sameName key name = false) :
    written? w.properties name =
      (written? (present (fixedProperties c.kind c.props)) name).or
        (written? (extraProperties c.props.extra) name) := by
  rw [h.properties, written?_append, written?_eq_none fun p hp => hname _ (h.geometry p hp),
    Option.none_or, ownProperties_eq, written?_append]

/-- The key for a value is kept only when the text of the control is its caption. -/
theorem textIsValue_eq_false (hvalue : ExtraKey.value ∈ c.props.extra.keys) :
    c.kind.textIsValue = false := by
  obtain ⟨e, he, hkey⟩ := List.mem_map.mp hvalue
  cases h.representable.keys e he with
  | keyed name hname hcaption => exact hcaption hkey
  | unmapped hword hframe hmapped =>
    rw [hkey] at hmapped
    cases hmapped

/-- The properties that are no extra values are read as they are written. -/
theorem property?_fixed : ∀ g ∈ fixedProperties c.kind c.props,
    w.asRead.property? g.1 = g.2.map Value.sniff := by
  intro g hg
  have hmem : g.1 ∈ fixedNames c.kind := List.mem_map_of_mem (f := Prod.fst) hg
  have hgeometry : ∀ name ∈ fixedNames c.kind, ∀ key ∈ geometryNames,
      sameName key name = false := by
    unfold fixedNames textProperties
    cases c.kind.textIsValue <;> decide
  have hextra : ∀ name ∈ fixedNames c.kind, ∀ e ∈ extraNames, e.1 ∈ c.props.extra.keys →
      sameName e.2 name = false := by
    intro name hname e he hkey
    by_cases hvalue : e.1 = ExtraKey.value
    · have hcaption := h.textIsValue_eq_false (hvalue ▸ hkey)
      have hnames : ∀ name ∈ fixedNames c.kind, ∀ e ∈ extraNames, sameName e.2 name = false := by
        unfold fixedNames textProperties
        rw [hcaption]
        decide
      exact hnames name hname e he
    · have hnames : ∀ name ∈ fixedNames c.kind, ∀ e ∈ extraNames, e.1 ≠ ExtraKey.value →
          sameName e.2 name = false := by
        unfold fixedNames textProperties
        cases c.kind.textIsValue <;> decide
      exact hnames name hname e he hvalue
  rw [h.property?_eq, h.written?_eq (hgeometry _ hmem),
    written?_extraProperties_eq_none h.representable.keys (plain_of_mem_fixedNames hmem).2
      (hextra _ hmem), Option.or_none,
    written?_present (map_fst_fixedProperties c.kind c.props ▸ pairwise_fixedNames c.kind) g hg]

/-- A name that no property in front of the extra values has is looked up among these. -/
theorem property?_behind (hgeometry : ∀ key ∈ geometryNames, sameName key name = false)
    (hfixed : ∀ key ∈ fixedNames c.kind, sameName key name = false) :
    w.asRead.property? name =
      (written? (extraProperties c.props.extra) name).map Value.sniff := by
  have hnone : written? (present (fixedProperties c.kind c.props)) name = none := by
    refine written?_eq_none fun p hp => ?_
    obtain ⟨g, hg, hp⟩ := exists_of_mem_present hp
    rw [← hp]
    exact hfixed _ (List.mem_map_of_mem (f := Prod.fst) hg)
  rw [h.property?_eq, h.written?_eq hgeometry, hnone, Option.none_or]

/-- An extra value with a key of its own is read as it is written. -/
theorem property?_keyed {key : String} (hname : (key, name) ∈ extraNames)
    (hvalue : key = ExtraKey.value → c.kind.textIsValue = false) :
    w.asRead.property? name = (c.props.extra.get? key).map Value.reread := by
  have hgeometry : ∀ e ∈ extraNames, ∀ key ∈ geometryNames, sameName key e.2 = false := by decide
  have hfixed : ∀ n ∈ fixedNames c.kind, sameName n name = false := by
    by_cases hkey : key = ExtraKey.value
    · have hnames : ∀ e ∈ extraNames, ∀ n ∈ fixedNames c.kind, sameName n e.2 = false := by
        unfold fixedNames textProperties
        rw [hvalue hkey]
        decide
      exact hnames _ hname
    · have hnames : ∀ e ∈ extraNames, e.1 ≠ ExtraKey.value → ∀ n ∈ fixedNames c.kind,
          sameName n e.2 = false := by
        unfold fixedNames textProperties
        cases c.kind.textIsValue <;> decide
      exact hnames _ hname hkey
  rw [h.property?_behind (hgeometry _ hname) hfixed,
    written?_extraProperties h.representable.keys hname, Option.map_map]
  rfl

/-- The older spellings are not written. -/
theorem property?_older : ∀ e ∈ olderNames, w.asRead.property? e.1 = none := by
  intro e he
  have hgeometry : ∀ e ∈ olderNames, ∀ key ∈ geometryNames, sameName key e.1 = false := by decide
  have hfixed : ∀ e ∈ olderNames, ∀ n ∈ fixedNames c.kind, sameName n e.1 = false := by
    unfold fixedNames textProperties
    cases c.kind.textIsValue <;> decide
  have hextra : ∀ e ∈ olderNames, ∀ e' ∈ extraNames, sameName e'.2 e.1 = false := by decide
  have hmapped : ∀ e ∈ olderNames, isMapped e.1 = true := by decide
  rw [h.property?_behind (hgeometry e he) (hfixed e he), written?_extraProperties_eq_none
    h.representable.keys (hmapped e he) fun e' he' _ => hextra e he e' he', Option.map_none]

/-- A control whose text is its value has no caption. -/
theorem property?_caption (hvalue : c.kind.textIsValue = true) :
    w.asRead.property? "Caption" = none := by
  have hfixed : ∀ n ∈ fixedNames c.kind, sameName n "Caption" = false := by
    unfold fixedNames textProperties
    rw [hvalue]
    decide
  have hextra : ∀ e ∈ extraNames, sameName e.2 "Caption" = false := by decide
  rw [h.property?_behind (by decide) hfixed, written?_extraProperties_eq_none
    h.representable.keys (by decide) fun e he _ => hextra e he, Option.map_none]

end Carries

end WrittenRecord

/-! ## Extra values -/

namespace PropertyTable

/-- Where the text is the value, it is read from `Value` first. -/
theorem textProperties_of_value {kind : ControlKind} (h : kind.textIsValue = true) :
    textProperties kind = ("Value", "Caption") := by
  rw [textProperties, if_pos h]

/-- Elsewhere it is read from `Caption` first. -/
theorem textProperties_of_caption {kind : ControlKind} (h : kind.textIsValue = false) :
    textProperties kind = ("Caption", "Value") := by
  rw [textProperties, if_neg (by simp [h])]

/-- The entries that the extra values of a record without older spellings are made of. -/
def extraEntries (r : Record) (kind : ControlKind) : List (String × Value) :=
  ((r.property? (textProperties kind).2).map
    ((if (textProperties kind).2 = "Value" then ExtraKey.value else (textProperties kind).2), ·)
      ).toList ++
  ((extraNames.filter fun e => e.1 != ExtraKey.value).filterMap fun e =>
    (r.property? e.2).map (e.1, ·)) ++
  r.properties.filter fun p => !isMapped p.1

/-- Setting what a table finds is inserting the entries found, in their order. -/
theorem foldl_put (r : Record) (names : List (String × String)) (m : SortedMap Value) :
    names.foldl (fun m e => match r.property? e.2 with
      | some v => m.insert e.1 v
      | none => m) m =
    (names.filterMap fun e => (r.property? e.2).map (e.1, ·)).foldl
      (fun m e => m.insert e.1 e.2) m := by
  induction names generalizing m with
  | nil => rfl
  | cons e names ih =>
    rw [List.foldl_cons, ih]
    rcases hread : r.property? e.2 with _ | v
    · rw [List.filterMap_cons_none (by rw [hread]; rfl)]
    · rw [List.filterMap_cons_some (by rw [hread]; rfl), List.foldl_cons]

/-- A record without older spellings has nothing to fill a gap with. -/
theorem foldl_older {r : Record} (h : ∀ e ∈ olderNames, r.property? e.1 = none)
    (m : SortedMap Value) :
    olderNames.foldl (fun m e => if (m.get? e.2).isSome then m else
      match r.property? e.1 with
      | some v => m.insert e.2 v
      | none => m) m = m := by
  refine List.foldlRecOn (motive := fun m' => m' = m) _ _ rfl ?_
  rintro m' rfl e he
  rw [h e he, ite_self]

/-- The extra values are read key by key, and the older names add nothing where none is written. -/
theorem extraValues_eq_ofList {r : Record} (h : ∀ e ∈ olderNames, r.property? e.1 = none)
    (kind : ControlKind) : extraValues r kind = SortedMap.ofList (extraEntries r kind) := by
  unfold extraValues extraEntries SortedMap.ofList
  dsimp only
  rw [List.foldl_append, List.foldl_append, ← foldl_put]
  rcases r.property? (textProperties kind).2 with _ | v
  · exact congrArg (fun m => List.foldl _ m _) (foldl_older h _)
  · exact congrArg (fun m => List.foldl _ m _) (foldl_older h _)

end PropertyTable

namespace WrittenRecord.Carries

variable {w : WrittenRecord} {c : Control} {front : List (String × String)}
  (h : w.Carries c front)
include h

/-- Every entry that is read is the one that was written. An entry has one of three origins: the
property for texts, a property with a key of its own, or one whose name marks it as extra. -/
theorem get?_of_mem_extraEntries {key : String} {value : Value}
    (hmem : (key, value) ∈ extraEntries w.asRead c.kind) :
    (c.props.extra.get? key).map Value.reread = some value := by
  rcases List.mem_append.mp hmem with hmem | hmem
  · rcases List.mem_append.mp hmem with hmem | hmem
    · -- the property for texts that holds no text
      obtain ⟨value', hread, heq⟩ := Option.map_eq_some_iff.mp (Option.mem_toList.mp hmem)
      rcases hkind : c.kind.textIsValue with _ | _
      · rw [textProperties_of_caption hkind] at hread heq
        obtain ⟨rfl, rfl⟩ := Prod.mk.inj heq
        rw [← hread]
        exact (h.property?_keyed (by decide) fun _ => hkind).symm
      · rw [textProperties_of_value hkind, h.property?_caption hkind] at hread
        cases hread
    · obtain ⟨e, he, hread⟩ := List.mem_filterMap.mp hmem
      obtain ⟨value', hvalue, heq⟩ := Option.map_eq_some_iff.mp hread
      obtain ⟨rfl, rfl⟩ := Prod.mk.inj heq
      obtain ⟨he, hne⟩ := List.mem_filter.mp he
      rw [← hvalue]
      exact (h.property?_keyed he fun heq => absurd heq (by simpa using hne)).symm
  · obtain ⟨hmem, hmapped⟩ := List.mem_filter.mp hmem
    rw [asRead_properties h.isWord_of_mem, h.properties, ownProperties_eq] at hmem
    obtain ⟨p, hp, heq⟩ := List.mem_map.mp hmem
    obtain ⟨rfl, rfl⟩ := Prod.mk.inj heq
    -- position, size and the properties with names of their own are mapped
    have hunmapped : isMapped p.1 = false := by simpa using hmapped
    rcases List.mem_append.mp hp with hp | hp
    · have hall : ∀ name ∈ geometryNames, isMapped name = true := by decide
      rw [hall _ (h.geometry p hp)] at hunmapped
      cases hunmapped
    rcases List.mem_append.mp hp with hp | hp
    · obtain ⟨g, hg, hname⟩ := exists_of_mem_present hp
      rw [← hname, (plain_of_mem_fixedNames (List.mem_map_of_mem (f := Prod.fst) hg)).2]
        at hunmapped
      cases hunmapped
    obtain ⟨e, he, rfl⟩ := List.mem_map.mp hp
    have hentry := List.mem_of_mem_filter he
    rcases extraName_cases (h.representable.keys e hentry) with hkeyed | ⟨-, hname, -⟩
    · have hall : ∀ e ∈ extraNames, isMapped e.2 = true := by decide
      rw [hall _ hkeyed] at hunmapped
      cases hunmapped
    · dsimp only
      rw [hname, SortedMap.get?_eq_some_iff.mpr hentry]
      rfl

/-- Every extra value is read. The cases are the three ways in which the writer names a key, and
each name leads back to its key. -/
theorem key_mem_extraEntries {key : String} (hkey : key ∈ c.props.extra.keys) :
    key ∈ (extraEntries w.asRead c.kind).map Prod.fst := by
  obtain ⟨⟨key, value⟩, he, rfl⟩ := List.mem_map.mp hkey
  have hget := SortedMap.get?_eq_some_iff.mpr he
  refine List.mem_map.mpr ⟨(key, value.reread), ?_, rfl⟩
  unfold extraEntries
  rw [List.mem_append, List.mem_append]
  rcases extraName_cases (h.representable.keys _ he) with
    hname | ⟨-, hname, hword, hframe, hmapped⟩
  · have hvalue : key = ExtraKey.value → c.kind.textIsValue = false := fun heq =>
      h.textIsValue_eq_false (heq ▸ hkey)
    have hread : w.asRead.property? (extraName key) = some value.reread := by
      rw [h.property?_keyed hname hvalue, hget]
      rfl
    by_cases hkey : key = ExtraKey.value
    · obtain rfl := hkey
      refine .inl (.inl ?_)
      rw [textProperties_of_caption (hvalue rfl)]
      exact Option.mem_toList.mpr (Option.map_eq_some_iff.mpr ⟨_, hread, rfl⟩)
    · exact .inl (.inr (List.mem_filterMap.mpr ⟨_, List.mem_filter.mpr ⟨hname, by simpa using hkey⟩,
        Option.map_eq_some_iff.mpr ⟨_, hread, rfl⟩⟩))
  · refine .inr (List.mem_filter.mpr ⟨?_, by simp [hmapped]⟩)
    rw [asRead_properties h.isWord_of_mem, h.properties, ownProperties_eq]
    refine List.mem_map.mpr ⟨(key, value.toLegacy), ?_, rfl⟩
    refine List.mem_append_right _ (List.mem_append_right _ ?_)
    exact List.mem_map.mpr ⟨(key, value), List.mem_filter.mpr ⟨he, by simpa using hframe⟩,
      by rw [hname]⟩

/-- The extra values are those that were written, as they are read. -/
theorem get?_extraValues (key : String) :
    (extraValues w.asRead c.kind).get? key = (c.props.extra.get? key).map Value.reread := by
  rw [extraValues_eq_ofList h.property?_older]
  refine SortedMap.get?_ofList_eq (fun value hmem => h.get?_of_mem_extraEntries hmem) fun hkey => ?_
  rcases hget : c.props.extra.get? key with _ | value
  · rfl
  · have hmem : key ∈ c.props.extra.keys :=
      List.mem_map_of_mem (f := Prod.fst) (SortedMap.get?_eq_some_iff.mp hget)
    exact absurd (h.key_mem_extraEntries hmem) hkey

/-! ## The whole of the properties -/

/-- Every extra value comes back, and no other. -/
theorem rel_extra (hround : ∀ x ∈ c.props.numbers, Decimal.RoundTrips x) (key : String) :
    Option.Rel Value.Same ((extraValues w.asRead c.kind).get? key) (c.props.extra.get? key) := by
  rw [h.get?_extraValues]
  rcases hget : c.props.extra.get? key with _ | value
  · exact .none
  · have hentry := SortedMap.get?_eq_some_iff.mp hget
    refine .some (Value.same_reread (h.representable.values _ hentry) fun x hx => hround x ?_)
    have hvalue : value ∈ c.props.extra.values := List.mem_map_of_mem (f := Prod.snd) hentry
    exact List.mem_append_right _ (List.mem_filterMap.mpr ⟨value, hvalue, hx⟩)

/-- The font size is a float and comes back as an equal one. -/
theorem rel_fontSize (hround : ∀ x ∈ c.props.numbers, Decimal.RoundTrips x) :
    Option.Rel (fun x y => (x == y) = true) (w.asRead.number? ["FontSize"])
      c.props.style.fontSize := by
  have hread := h.property?_fixed ("FontSize", c.props.style.fontSize.map Decimal.plainText)
    (by simp [fixedProperties])
  rw [Record.number?, List.findSome?_singleton, hread]
  rcases hsize : c.props.style.fontSize with _ | x
  · exact .none
  · have hmem : x ∈ c.props.numbers := List.mem_append_left _ (by simp [hsize])
    obtain ⟨y, hsniff, heq⟩ :=
      Value.exists_sniff_plainText (h.representable.fontSize x hsize) (hround x hmem)
    rw [Option.map_some, Option.map_some, hsniff]
    exact .some heq

/-- The items come back in their order. -/
theorem items_read :
    ((w.asRead.text? "RowSource").map splitItems).getD [] = c.props.items := by
  have hread := h.property?_fixed ("RowSource", if c.props.items.isEmpty then none
    else some (Value.text (Text.join ";" c.props.items)).toLegacy) (by simp [fixedProperties])
  rw [Record.text?, hread]
  rcases hitems : c.props.items.isEmpty with _ | _
  · rw [if_neg Bool.false_ne_true, Option.map_some, Value.sniff_toLegacy_text, Option.map_some,
      Option.map_some]
    exact h.representable.splitItems_join
  · exact (List.isEmpty_iff.mp hitems).symm

/-- A text among the fixed properties is read as it was written, and is absent where it was. -/
theorem text?_fixed (name : String) (o : Option String)
    (hmem : (name, o.map fun t => (Value.text t).toLegacy) ∈ fixedProperties c.kind c.props) :
    w.asRead.text? name = o := by
  rw [Record.text?, h.property?_fixed (name, _) hmem]
  cases o with
  | none => rfl
  | some t =>
    simp only [Option.map_some, Value.sniff_toLegacy_text]
    rfl

/-- A color is written as one number, which holds all three of its parts. -/
theorem color_fixed (name : String) (o : Option Color)
    (hmem : (name, o.map fun c => Decimal.intText c.packed) ∈ fixedProperties c.kind c.props) :
    (w.asRead.property? name).bind Color.ofValue? = o := by
  rw [h.property?_fixed (name, _) hmem]
  cases o with
  | none => rfl
  | some color =>
    rw [Option.map_some, Option.map_some, Option.bind_some, color.ofValue?_sniff_packed]

/-- A flag that is only written where it is cleared. -/
theorem cleared_fixed (name : String) (flag : Bool)
    (hmem : (name, if flag then none else some (Value.flag false).toLegacy) ∈
      fixedProperties c.kind c.props) :
    (w.asRead.flag? name).getD true = flag := by
  rw [Record.flag?, h.property?_fixed (name, _) hmem]
  cases flag with
  | true => rfl
  | false =>
    rw [if_neg Bool.false_ne_true, Option.map_some, Value.sniff_toLegacy_flag]
    rfl

/-- A flag that is only written where it is set. -/
theorem set_fixed (name : String) (flag : Bool)
    (hmem : (name, if flag then some (Value.flag true).toLegacy else none) ∈
      fixedProperties c.kind c.props) :
    (w.asRead.flag? name).getD false = flag := by
  rw [Record.flag?, h.property?_fixed (name, _) hmem]
  cases flag with
  | true =>
    rw [if_pos rfl, Option.map_some, Value.sniff_toLegacy_flag]
    rfl
  | false => rfl

/-- The properties of a control are read as they are written. -/
theorem same_read (hround : ∀ x ∈ c.props.numbers, Decimal.RoundTrips x) :
    (PropertyTable.read w.asRead c.kind).Same c.props where
  text := h.text?_fixed _ _ (by simp [fixedProperties])
  visible := h.cleared_fixed _ _ (by simp [fixedProperties])
  enabled := h.cleared_fixed _ _ (by simp [fixedProperties])
  foreColor := h.color_fixed _ _ (by simp [fixedProperties])
  backColor := h.color_fixed _ _ (by simp [fixedProperties])
  fontName := h.text?_fixed _ _ (by simp [fixedProperties])
  fontSize := h.rel_fontSize hround
  fontBold := h.set_fixed _ _ (by simp [fixedProperties])
  fontItalic := h.set_fixed _ _ (by simp [fixedProperties])
  items := h.items_read
  extra := h.rel_extra hround

end WrittenRecord.Carries

namespace Properties

/-- Properties that can be written stand on one line each. -/
theorem Representable.plain_ownProperties {c : Control} (h : c.props.Representable c.kind) :
    ∀ p ∈ ownProperties c, IsPlainProperty p := by
  have hkey : ∀ {key : String}, IsExtraKey c.kind key → WrittenRecord.IsPlainKey key := by
    intro key hkey
    cases hkey with
    | keyed name hname hvalue => exact WrittenRecord.isPlainKey_of_mem_extraNames hname
    | unmapped hword hframe hmapped => exact Record.isPlainKey_of_isWord hword
  -- the columns are not among the own properties
  have honeLine : Control.OnOneLine { c with props := { c.props with columns := [] } } :=
    { text := h.text
      font := h.fontName
      items := fun t ht => (h.items t ht).2.2.2
      columns := fun column hcolumn => absurd hcolumn List.not_mem_nil
      extra := fun e he => ⟨hkey (h.keys e he), (h.values e he).oneLine⟩ }
  exact honeLine.plain_ownProperties

end Properties

open WrittenRecord in
/-- The properties that are written for a control, with nothing but position and size in front of
them, are read as the same properties. -/
theorem properties_survive {c : Control} (hc : c.props.Representable c.kind)
    (hround : ∀ x ∈ c.props.numbers, Decimal.RoundTrips x) {w : WrittenRecord} (hw : w.Readable)
    (hname : trim w.name.toList ≠ []) (hfront : ∀ p ∈ w.properties, p.1 ∈ geometryNames) :
    ∃ r, (Record.readAll (unlines
        { w with properties := w.properties ++ ownProperties c }.lines)).records = [r] ∧
      (PropertyTable.read r c.kind).Same c.props := by
  have hcarries : { w with properties := w.properties ++ ownProperties c }.Carries c w.properties :=
    ⟨hfront, rfl, hc⟩
  have hreadable : { w with properties := w.properties ++ ownProperties c }.Readable :=
    { hw with properties := List.forall_mem_append.mpr ⟨hw.properties, hc.plain_ownProperties⟩ }
  have hall := readAll_unlines (List.forall_mem_singleton.mpr ⟨hreadable, hname⟩)
  rw [List.flatMap_singleton] at hall
  obtain ⟨r, rest, ⟨line, methods, id, rfl⟩, hrest, hrecords⟩ :=
    List.forall₂_cons_left_iff.mp hall
  rw [List.forall₂_nil_left_iff.mp hrest] at hrecords
  exact ⟨_, hrecords, hcarries.same_read hround⟩

/-- A spinner with every kind of property; two of its extra values differ in case only. -/
def dressedSpinner : Control :=
  { id := "w1"
    kind := .spinner
    name := "spnCount"
    props :=
      { text := some "it's \"5\""
        visible := false
        style :=
          { foreColor := some ⟨255, 128, 0⟩
            fontName := some "Arial"
            fontSize := some 9.5
            fontItalic := true }
        items := ["one, two", "three"]
        extra := SortedMap.ofList
          [(ExtraKey.minimum, .number (-0.25)), (ExtraKey.controlSource, .text "items.count"),
            ("Tag", .expr "DATE() + 1"), ("tag", .flag true), ("ToolTipText", .text " [x] ")] } }

/-- A record with nothing but a position. -/
def placedSpinner : WrittenRecord :=
  { className := "spinner"
    name := "spnCount"
    parent := "Form1"
    uniqueId := "_0000000W1"
    properties := [("Left", "10"), ("Top", "20")] }

open WrittenRecord in
theorem properties_survive_dressedSpinner :
    dressedSpinner.props.Representable dressedSpinner.kind ∧
      (∀ x ∈ dressedSpinner.props.numbers, Decimal.RoundTrips x) ∧ placedSpinner.Readable ∧
      ∃ r, (Record.readAll (unlines { placedSpinner with
          properties := placedSpinner.properties ++ ownProperties dressedSpinner }.lines)).records =
            [r] ∧
        (PropertyTable.read r dressedSpinner.kind).Same dressedSpinner.props := by
  have hrepresentable : dressedSpinner.props.Representable dressedSpinner.kind := by
    decide +kernel
  have hround : ∀ x ∈ dressedSpinner.props.numbers, Decimal.RoundTrips x := by
    have hnumbers : dressedSpinner.props.numbers = [9.5, -0.25] := by decide +kernel
    rw [hnumbers]
    refine List.forall_mem_cons.mpr ⟨⟨9.5, by decide +kernel, by decide +kernel⟩,
      List.forall_mem_singleton.mpr ⟨-0.25, by decide +kernel, by decide +kernel⟩⟩
  have hreadable : placedSpinner.Readable :=
    { uniqueId := by decide
      className := by decide
      name := by decide
      parent := by decide
      properties := by decide
      methods := fun m hm => absurd hm List.not_mem_nil }
  exact ⟨hrepresentable, hround, hreadable,
    properties_survive hrepresentable hround hreadable (by decide) (by decide)⟩

end ScreenForms
