/-!
# Maps in key order

A finite map from strings, kept as a list of entries whose keys ascend strictly. Keys are
compared code point by code point, so the order of the entries is a property of the keys alone
and two maps with the same answers are equal.
-/

namespace ScreenForms

/-- Puts an entry at its place in a list of entries, over an entry with the same key. -/
def insertEntry {α : Type} (key : String) (value : α) : List (String × α) → List (String × α)
  | [] => [(key, value)]
  | entry :: rest =>
    if key < entry.1 then (key, value) :: entry :: rest
    else if key = entry.1 then (key, value) :: rest
    else entry :: insertEntry key value rest

theorem mem_insertEntry {α : Type} {key : String} {value : α} {l : List (String × α)}
    {e : String × α} (h : e ∈ insertEntry key value l) : e = (key, value) ∨ e ∈ l := by
  induction l with
  | nil => simpa [insertEntry] using h
  | cons entry rest ih =>
    rw [insertEntry] at h
    split at h
    · simpa using h
    · split at h
      · rcases List.mem_cons.mp h with h | h
        · exact .inl h
        · exact .inr (List.mem_cons_of_mem _ h)
      · rcases List.mem_cons.mp h with h | h
        · exact .inr (h ▸ List.mem_cons_self)
        · rcases ih h with h | h
          · exact .inl h
          · exact .inr (List.mem_cons_of_mem _ h)

/-- Inserting keeps the keys in strict order. -/
theorem pairwise_insertEntry {α : Type} (key : String) (value : α) {l : List (String × α)}
    (h : l.Pairwise fun a b => a.1 < b.1) :
    (insertEntry key value l).Pairwise fun a b => a.1 < b.1 := by
  induction l with
  | nil => simp [insertEntry]
  | cons entry rest ih =>
    rw [List.pairwise_cons] at h
    rw [insertEntry]
    split
    · next hlt =>
      refine List.pairwise_cons.mpr ⟨fun e he => ?_, List.pairwise_cons.mpr h⟩
      rcases List.mem_cons.mp he with he | he
      · exact he ▸ hlt
      · exact String.lt_trans hlt (h.1 e he)
    · next hlt =>
      split
      · next heq =>
        refine List.pairwise_cons.mpr ⟨fun e he => ?_, h.2⟩
        simpa [heq] using h.1 e he
      · next hne =>
        refine List.pairwise_cons.mpr ⟨fun e he => ?_, ih h.2⟩
        rcases mem_insertEntry he with he | he
        · exact he ▸ Std.lt_of_le_of_ne (String.not_lt.mp hlt) (Ne.symm hne)
        · exact h.1 e he

/-- A finite map from strings with its entries in ascending order of the keys. -/
structure SortedMap (α : Type) where
  entries : List (String × α) := []
  /-- the keys ascend strictly -/
  sorted : entries.Pairwise fun a b => a.1 < b.1 := by exact List.Pairwise.nil
  deriving DecidableEq, Repr

namespace SortedMap

variable {α β : Type}

/-- The map without entries. -/
def empty : SortedMap α := ⟨[], List.Pairwise.nil⟩

instance : Inhabited (SortedMap α) := ⟨empty⟩

/-- Sets the value of a key. -/
def insert (m : SortedMap α) (key : String) (value : α) : SortedMap α :=
  ⟨insertEntry key value m.entries, pairwise_insertEntry key value m.sorted⟩

/-- The value of a key. -/
def get? (m : SortedMap α) (key : String) : Option α :=
  (m.entries.find? fun e => e.1 == key).map Prod.snd

/-- The values in the order of their keys. -/
def values (m : SortedMap α) : List α := m.entries.map Prod.snd

/-- The keys in ascending order. -/
def keys (m : SortedMap α) : List String := m.entries.map Prod.fst

/-- The number of entries. -/
def size (m : SortedMap α) : Nat := m.entries.length

/-- Whether there are no entries. -/
def isEmpty (m : SortedMap α) : Bool := m.entries.isEmpty

/-- Only the entries whose value passes the test. -/
def retain (m : SortedMap α) (keep : α → Bool) : SortedMap α :=
  ⟨m.entries.filter fun e => keep e.2, m.sorted.sublist List.filter_sublist⟩

/-- Takes a key out. -/
def erase (m : SortedMap α) (key : String) : SortedMap α :=
  ⟨m.entries.filter fun e => e.1 != key, m.sorted.sublist List.filter_sublist⟩

/-- Changes every value and keeps the keys. -/
def mapValues (f : α → β) (m : SortedMap α) : SortedMap β :=
  ⟨m.entries.map fun e => (e.1, f e.2), by
    rw [List.pairwise_map]
    exact m.sorted⟩

/-- The map of a list of entries; of two entries with one key the later counts. -/
def ofList (l : List (String × α)) : SortedMap α :=
  l.foldl (fun m e => m.insert e.1 e.2) empty

@[simp] theorem get?_empty (key : String) : (empty : SortedMap α).get? key = none := rfl

@[simp] theorem get?_insert_self (m : SortedMap α) (key : String) (value : α) :
    (m.insert key value).get? key = some value := by
  obtain ⟨l, hl⟩ := m
  simp only [insert, get?]
  clear hl
  induction l with
  | nil => simp [insertEntry]
  | cons entry rest ih =>
    rw [insertEntry]
    split
    · simp
    · split
      · simp
      · next hne => simpa [Ne.symm hne] using ih

theorem get?_insert_of_ne (m : SortedMap α) {key other : String} (value : α)
    (h : key ≠ other) : (m.insert key value).get? other = m.get? other := by
  obtain ⟨l, hl⟩ := m
  simp only [insert, get?]
  clear hl
  induction l with
  | nil => simp [insertEntry, h]
  | cons entry rest ih =>
    rw [insertEntry]
    split
    · simp [h]
    · split
      · next heq => simp [h, ← heq]
      · by_cases he : entry.1 = other
        · simp [he]
        · simpa [he] using ih

end SortedMap

end ScreenForms
