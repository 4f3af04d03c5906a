import Mathlib.Data.List.Induction
import ScreenForms.Proofs.Lists
import ScreenForms.SortedMap

/-!
# Maps by their answers

In a map in key order every entry has one place, so a map is known by its answers
(`SortedMap.ext_get?`). What operations do is therefore stated for the answers, key by key, and
equations of maps follow: values of different keys can be set in any order, and a map is the map of
its own entries.
-/

namespace ScreenForms

/-- A new key adds one entry. -/
theorem insertEntry_perm {α : Type} {key : String} (value : α) {l : List (String × α)}
    (h : key ∉ l.map Prod.fst) : (insertEntry key value l).Perm ((key, value) :: l) := by
  induction l with
  | nil => exact .refl _
  | cons entry rest ih =>
    rw [List.map_cons, List.mem_cons, not_or] at h
    rw [insertEntry]
    split
    · exact .refl _
    · rw [if_neg h.1]
      exact ((ih h.2).cons entry).trans (.swap _ _ _)

namespace SortedMap

variable {α : Type} {m m' : SortedMap α} {key : String} {value : α}

/-! ## Entries and answers -/

theorem nodup_keys (m : SortedMap α) : m.keys.Nodup := by
  apply List.Pairwise.map _ _ m.sorted
  intro a b hab heq
  exact String.lt_irrefl _ (heq ▸ hab)

theorem get?_eq_some_iff : m.get? key = some value ↔ (key, value) ∈ m.entries := by
  constructor
  · intro h
    obtain ⟨⟨k, v⟩, he, rfl⟩ := Option.map_eq_some_iff.mp h
    obtain rfl : k = key := by simpa using List.find?_some he
    exact List.mem_of_find?_eq_some he
  · intro h
    rw [get?, find?_key Prod.fst m.nodup_keys h]
    rfl

/-- Maps with the same answers are equal. -/
theorem ext_get? (h : ∀ key, m.get? key = m'.get? key) : m = m' := by
  have hmem : ∀ e, e ∈ m.entries ↔ e ∈ m'.entries := fun e => by
    rw [← get?_eq_some_iff, ← get?_eq_some_iff, h]
  have hperm : m.entries.Perm m'.entries :=
    (List.perm_ext_iff_of_nodup m.nodup_keys.of_map m'.nodup_keys.of_map).mpr hmem
  -- of two sorted lists with the same members neither can have another one first
  have hentries : m.entries = m'.entries := by
    refine hperm.eq_of_pairwise (fun a b _ _ hab hba => ?_) m.sorted m'.sorted
    exact absurd (String.lt_trans hab hba) (String.lt_irrefl _)
  obtain ⟨l, hl⟩ := m
  obtain ⟨l', hl'⟩ := m'
  obtain rfl : l = l' := hentries
  rfl

theorem isEmpty_iff : m.isEmpty ↔ m = empty := by
  obtain ⟨l, hl⟩ := m
  simp [isEmpty, empty]

/-! ## Operations by their answers -/

theorem get?_insert (m : SortedMap α) (key other : String) (value : α) :
    (m.insert key value).get? other = if key = other then some value else m.get? other := by
  split
  · next h => rw [h, get?_insert_self]
  · next h => exact get?_insert_of_ne m value h

theorem get?_retain (m : SortedMap α) (keep : α → Bool) (key : String) :
    (m.retain keep).get? key = (m.get? key).filter keep := by
  apply Option.ext
  intro v
  simp [get?_eq_some_iff, Option.filter_eq_some_iff, retain]

theorem get?_erase (m : SortedMap α) (key other : String) :
    (m.erase key).get? other = if key = other then none else m.get? other := by
  apply Option.ext
  intro v
  by_cases h : key = other
  · simp [get?_eq_some_iff, erase, h]
  · simp [get?_eq_some_iff, erase, h, Ne.symm h]

/-- Values of different keys can be set in any order. -/
theorem insert_comm {key key' : String} (hne : key ≠ key') (value value' : α) (m : SortedMap α) :
    (m.insert key value).insert key' value' = (m.insert key' value').insert key value := by
  apply ext_get?
  intro other
  simp only [get?_insert]
  by_cases h : key = other
  · have h' : key' ≠ other := fun h' => hne (h.trans h'.symm)
    rw [if_pos h, if_neg h', if_pos h]
  · rw [if_neg h, if_neg h]

/-- Setting a value is forgotten when its key is taken out. -/
theorem erase_insert (m : SortedMap α) (key : String) (value : α) :
    (m.insert key value).erase key = m.erase key := by
  apply ext_get?
  intro other
  simp only [get?_erase, get?_insert]
  split <;> rfl

/-! ## Maps of lists -/

/-- A list of entries with distinct keys is a map with these answers. -/
theorem get?_ofList {l : List (String × α)} (h : (l.map Prod.fst).Nodup) :
    (ofList l).get? key = some value ↔ (key, value) ∈ l := by
  induction l using List.reverseRecOn with
  | nil => simp [ofList]
  | append_singleton l e ih =>
    rw [List.map_append, List.nodup_append] at h
    obtain ⟨hl, -, hlast⟩ := h
    have hrun : ofList (l ++ [e]) = (ofList l).insert e.1 e.2 := by simp [ofList]
    -- the last entry is set last, and no other one has its key
    rw [hrun, get?_insert, List.mem_append, List.mem_singleton]
    by_cases he : e.1 = key
    · have hfresh : (key, value) ∉ l := fun hmem =>
        hlast key (List.mem_map_of_mem hmem) e.1 (by simp) he.symm
      simp [he, hfresh, Prod.ext_iff, eq_comm]
    · simp [he, ih hl, Prod.ext_iff, Ne.symm he]

/-- A map has the answer that all entries with the key agree on, when the key has an answer only if
it has an entry. -/
theorem get?_ofList_eq {l : List (String × α)} {answer : Option α}
    (h : ∀ value, (key, value) ∈ l → answer = some value)
    (hkey : key ∉ l.map Prod.fst → answer = none) : (ofList l).get? key = answer := by
  induction l using List.reverseRecOn with
  | nil => exact (hkey List.not_mem_nil).symm
  | append_singleton l e ih =>
    have hrun : ofList (l ++ [e]) = (ofList l).insert e.1 e.2 := by simp [ofList]
    rw [hrun, get?_insert]
    split
    · next he => exact (h e.2 (by simp [← he])).symm
    · next he =>
      refine ih (fun value hmem => h value (List.mem_append_left _ hmem)) fun hmem => hkey ?_
      rw [List.map_append, List.mem_append]
      exact not_or.mpr ⟨hmem, by simpa using Ne.symm he⟩

/-- A map is the map of its entries. -/
theorem ofList_entries (m : SortedMap α) : ofList m.entries = m := by
  apply ext_get?
  intro key
  apply Option.ext
  intro value
  rw [get?_ofList m.nodup_keys, get?_eq_some_iff]

end SortedMap

end ScreenForms
