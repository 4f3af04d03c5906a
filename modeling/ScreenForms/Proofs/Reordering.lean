import ScreenForms.Proofs.Blanks
import ScreenForms.Proofs.Folding
import ScreenForms.Proofs.PixelNesting

/-!
# Records in another order

Parents, roles, containers and positions are found by indices, and an index is nothing but the
place of a record. Where the records have distinct names, all of these are the same for the same
records in another order, up to the places (`exists_reorders`): a path and a name then stand for one
record only, whichever comes first.
-/

namespace ScreenForms.PixelScreen

open Text NameRegistry

/-! ## Places in a reordered list -/

section places

variable {α : Type} {l l' : List α} {σ : Nat → Nat}

/-- Where the members of a list stand after reordering. Behind the end everything stays behind the
end. -/
theorem exists_places (h : l.Perm l') :
    ∃ σ : Nat → Nat, σ.Injective ∧ ∀ i, l'[σ i]? = l[i]? := by
  induction h with
  | nil => exact ⟨id, fun _ _ h => h, fun _ => rfl⟩
  | cons a _ ih =>
    obtain ⟨σ, hinjective, hσ⟩ := ih
    refine ⟨fun | 0 => 0 | i + 1 => σ i + 1, ?_, ?_⟩
    · rintro (_ | i) (_ | j) hij
      · rfl
      · cases hij
      · cases hij
      · exact congrArg _ (hinjective (Nat.succ.inj hij))
    · rintro (_ | i)
      · rfl
      · exact hσ i
  | swap a b l =>
    refine ⟨Equiv.swap 0 1, Equiv.injective _, ?_⟩
    rintro (_ | _ | i)
    · rfl
    · rfl
    · rw [Equiv.swap_apply_of_ne_of_ne (by omega) (by omega)]
      rfl
  | trans _ _ ih ih' =>
    obtain ⟨σ, hinjective, hσ⟩ := ih
    obtain ⟨τ, hinjective', hτ⟩ := ih'
    exact ⟨τ ∘ σ, hinjective'.comp hinjective, fun i => (hτ (σ i)).trans (hσ i)⟩

/-- A test that at most one place passes finds the same member in any order. -/
theorem findIdx?_reordered {p : α → Bool} (hperm : l.Perm l') (hσ : ∀ i, l'[σ i]? = l[i]?)
    (hunique : ∀ (i j : Nat) (a b : α), l'[i]? = some a → l'[j]? = some b → p a → p b → i = j) :
    l'.findIdx? p = (l.findIdx? p).map σ := by
  rcases hfound : l.findIdx? p with _ | i
  · rw [List.findIdx?_eq_none_iff] at hfound
    exact List.findIdx?_eq_none_iff.mpr fun a ha => hfound a (hperm.mem_iff.mpr ha)
  · obtain ⟨hi, hpi, -⟩ := List.findIdx?_eq_some_iff_getElem.mp hfound
    have hplace : l'[σ i]? = some l[i] := (hσ i).trans (List.getElem?_eq_getElem hi)
    rcases hfound' : l'.findIdx? p with _ | j
    · rw [List.findIdx?_eq_none_iff] at hfound'
      rw [hfound' _ (List.mem_of_getElem? hplace)] at hpi
      cases hpi
    · obtain ⟨hj, hpj, -⟩ := List.findIdx?_eq_some_iff_getElem.mp hfound'
      exact congrArg some
        (hunique j (σ i) _ _ (List.getElem?_eq_getElem hj) hplace hpj hpi)

/-- An injective map of the places below a bound into themselves leaves out none of them. -/
theorem map_range_perm (hinjective : σ.Injective) {n : Nat} (h : ∀ i < n, σ i < n) :
    ((List.range n).map σ).Perm (List.range n) := by
  refine List.Subperm.perm_of_length_le (List.subperm_of_subset ?_ ?_) (by simp)
  · exact List.nodup_range.map hinjective
  · intro j hj
    obtain ⟨i, hi, rfl⟩ := List.mem_map.mp hj
    exact List.mem_range.mpr (h i (List.mem_range.mp hi))

end places

/-! ## Names and paths -/

/-- Names are compared without blanks at their ends, which trimming beforehand cannot change. -/
theorem fold_trimmed (s : String) : fold (trimmed s) = foldName s := by
  rw [fold, foldName, trimmed, onChars, onChars, onChars, String.toList_ofList]

/-- Folding a name brings no dot into it, so that paths have the parts of the names they are made
of. -/
theorem dot_not_mem_foldName {s : String} (h : '.' ∉ s.toList) : '.' ∉ (foldName s).toList := by
  intro hmem
  rw [foldName, toList_onChars] at hmem
  exact h (mem_of_mem_trim (mem_of_mem_lower (by decide) hmem))

/-- A path ends in the name of its record, behind a dot unless it has no parent. -/
theorem toList_path (r : Record) :
    (path r).toList = (foldName r.objName).toList ∨
      ∃ front, (path r).toList = front ++ '.' :: (foldName r.objName).toList := by
  unfold path
  split
  · exact .inl rfl
  · refine .inr ⟨(foldName r.parent).toList, ?_⟩
    rw [String.toList_append, String.toList_append, List.append_assoc]
    rfl

/-- The name of an object without dots is read off from its path. -/
theorem foldName_eq_of_path_eq {r s : Record} (hr : '.' ∉ r.objName.toList)
    (hs : '.' ∉ s.objName.toList) (h : path r = path s) :
    foldName r.objName = foldName s.objName := by
  have hr' := dot_not_mem_foldName hr
  have hs' := dot_not_mem_foldName hs
  have hlists : (path r).toList = (path s).toList := congrArg _ h
  apply String.toList_injective
  rcases toList_path r with hown | ⟨front, hown⟩ <;>
    rcases toList_path s with hother | ⟨front', hother⟩ <;> rw [hown, hother] at hlists
  · exact hlists
  · rw [hlists] at hr'
    exact absurd (List.mem_append_right _ List.mem_cons_self) hr'
  · rw [← hlists] at hs'
    exact absurd (List.mem_append_right _ List.mem_cons_self) hs'
  · exact (eq_of_append_last_separator hr' hs' hlists).2

/-! ## Nestings of the same records -/

/-- What a record contributes, when the records stand elsewhere. -/
def Role.moved (σ : Nat → Nat) : Role → Role
  | .column i => .column (σ i)
  | .header i => .header (σ i)
  | role => role

namespace Nesting

/-- A nesting is that of the same records at other places. -/
structure Reorders (σ : Nat → Nat) (t t' : Nesting) : Prop where
  injective : σ.Injective
  record : ∀ i, t'.record (σ i) = t.record i
  parent : ∀ i, t'.parent? (σ i) = (t.parent? i).map σ
  form : t'.form = t.form.map σ
  indices : (t.indices.map σ).Perm t'.indices

/-- The parent of a record is found by its path and only then by its name, in the order of the
records. -/
theorem parent?_ofRecords (records : List Record) (i : Nat) :
    (ofRecords records).parent? i = records[i]?.bind fun r =>
      if (trim r.parent.toList).isEmpty then none
      else (records.findIdx? fun s => path s == foldName r.parent).orElse fun _ =>
        records.findIdx? fun s => foldName s.objName == foldName r.immediateParent := by
  rw [parent?, ofRecords, List.getElem?_map]
  rcases records[i]? with _ | r
  · rfl
  · rw [Option.map_some, Option.bind_some, Option.join_some, parentIndex?, List.findIdx?_map,
      List.findIdx?_map]
    rfl

section

variable {records records' : List Record} {σ : Nat → Nat}

/-- Where the records have different values, at most one of them meets a condition that fixes the
value. This is what makes a search find the same record in any order. -/
theorem unique_of_nodup {α : Type} {f : Record → α} (h : (records.map f).Nodup)
    (p : Record → Bool) (hp : ∀ r ∈ records, ∀ s ∈ records, p r → p s → f r = f s) :
    ∀ (i j : Nat) (r s : Record), records[i]? = some r → records[j]? = some s → p r → p s →
      i = j := by
  intro i j r s hi hj hpr hps
  have hlength : i < (records.map f).length := by
    rw [List.length_map]
    exact (List.getElem?_eq_some_iff.mp hi).1
  refine (List.getElem?_inj hlength h).mp ?_
  rw [List.getElem?_map, List.getElem?_map, hi, hj, Option.map_some, Option.map_some,
    hp r (List.mem_of_getElem? hi) s (List.mem_of_getElem? hj) hpr hps]

/-- The same records in another order are nested alike, if their names are distinct and without
dots and one of them is the form. -/
theorem exists_reorders (hperm : records.Perm records')
    (hnames : (records.map fun r => foldName r.objName).Nodup)
    (hdots : ∀ r ∈ records, '.' ∉ r.objName.toList)
    (hform : ∃! r, r ∈ records ∧ baseClass r = "form") :
    ∃ σ, Reorders σ (ofRecords records) (ofRecords records') := by
  obtain ⟨σ, hinjective, hσ⟩ := exists_places hperm
  have hnames' : (records'.map fun r => foldName r.objName).Nodup :=
    (hperm.map _).nodup_iff.mp hnames
  have hmem : ∀ r ∈ records', r ∈ records := fun r hr => hperm.mem_iff.mpr hr
  have hsearch : ∀ p : Record → Bool,
      (∀ r ∈ records, ∀ s ∈ records, p r → p s → foldName r.objName = foldName s.objName) →
        records'.findIdx? p = (records.findIdx? p).map σ := by
    intro p hp
    refine findIdx?_reordered hperm hσ (unique_of_nodup hnames' p fun r hr s hs => ?_)
    exact hp r (hmem r hr) s (hmem s hs)
  refine ⟨σ, hinjective, fun i => ?_, fun i => ?_, ?_, ?_⟩
  · rw [record, record, ofRecords_records, ofRecords_records, hσ]
  · rw [parent?_ofRecords, parent?_ofRecords, hσ]
    rcases hi : records[i]? with _ | r
    · rfl
    · rw [Option.bind_some, Option.bind_some, hsearch, hsearch]
      · split
        · rfl
        · rcases records.findIdx? fun s => path s == foldName r.parent <;> rfl
      · intro s _ s' _ hs hs'
        exact (eq_of_beq hs).trans (eq_of_beq hs').symm
      · intro s hsmem s' hsmem' hs hs'
        exact foldName_eq_of_path_eq (hdots s hsmem) (hdots s' hsmem')
          ((eq_of_beq hs).trans (eq_of_beq hs').symm)
  · refine hsearch _ fun r hr s hs hr' hs' => ?_
    rw [hform.unique ⟨hr, eq_of_beq hr'⟩ ⟨hs, eq_of_beq hs'⟩]
  · have hlength : records'.length = records.length := hperm.length_eq.symm
    rw [indices, indices, ofRecords_records, ofRecords_records, hlength]
    refine map_range_perm hinjective fun i hi => ?_
    have hplace := (hσ i).trans (List.getElem?_eq_getElem hi)
    exact hlength ▸ (List.getElem?_eq_some_iff.mp hplace).1

end

/-! ## What follows the places -/

namespace Reorders

variable {σ : Nat → Nat} {t t' : Nesting} (h : Reorders σ t t')
include h

/-- The form is moved to the form. -/
theorem eq_form_iff (i : Nat) : some (σ i) = t'.form ↔ some i = t.form := by
  rw [h.form]
  rcases t.form with _ | f
  · simp
  · simp [h.injective.eq_iff]

/-- Both nestings have as many records. -/
theorem length_eq : t'.records.length = t.records.length := by
  have hlength := h.indices.length_eq
  simpa [Nesting.indices] using hlength.symm

theorem lt_length {i : Nat} (hi : i < t.records.length) : σ i < t'.records.length :=
  List.mem_range.mp (h.indices.mem_iff.mp (List.mem_map_of_mem (List.mem_range.mpr hi)))

/-- The container of a moved record is its moved container. -/
theorem container? (i : Nat) : t'.container? (σ i) = (t.container? i).map σ := by
  rw [Nesting.container?, Nesting.container?, h.parent]
  rcases t.parent? i with _ | p
  · rfl
  · have hform : (some (σ p) ≠ t'.form) ↔ (some p ≠ t.form) := not_congr (h.eq_form_iff p)
    by_cases hp : some p ≠ t.form <;> simp [Option.filter, hform, hp]

/-- Roles are moved along: the grid that a column names is moved as well. -/
theorem role (i : Nat) : t'.role (σ i) = (t.role i).moved σ := by
  have hparent : (t'.parent? (σ i)).map (fun p => baseClass (t'.record p)) =
      (t.parent? i).map fun p => baseClass (t.record p) := by
    rw [h.parent, Option.map_map]
    exact Option.map_congr fun p _ => congrArg baseClass (h.record p)
  have hholder : (t'.parent? (σ i)).getD (σ i) = σ ((t.parent? i).getD i) := by
    rw [h.parent]
    rcases t.parent? i <;> rfl
  unfold Nesting.role
  dsimp only
  rw [hparent, hholder, h.record]
  simp only [h.eq_form_iff]
  split_ifs
  iterate 4 rfl
  rcases ControlKind.ofLegacyBaseClass? (baseClass (t.record i)) <;> rfl

theorem kind? (i : Nat) : t'.kind? (σ i) = t.kind? i := by
  rw [Nesting.kind?, Nesting.kind?, h.role]
  rcases t.role i <;> rfl

theorem role_eq_column_iff (i grid : Nat) :
    t'.role (σ i) = .column (σ grid) ↔ t.role i = .column grid := by
  rw [h.role]
  rcases t.role i <;> simp [Role.moved, h.injective.eq_iff]

/-- The chain of containers is moved link by link, for any number of steps. -/
theorem containers (n i : Nat) : t'.containers n (σ i) = (t.containers n i).map σ := by
  induction n generalizing i with
  | zero => rfl
  | succ n ih =>
    rw [Nesting.containers, Nesting.containers, h.container?]
    rcases t.container? i with _ | p
    · rfl
    · exact congrArg _ (ih p)

/-- Hence a moved record is in a circle exactly if it was in one. -/
theorem inCycle (i : Nat) : t'.inCycle (σ i) = t.inCycle i := by
  rw [Nesting.inCycle, Nesting.inCycle, h.length_eq, h.containers]
  simp [List.mem_map_of_injective h.injective]

/-- What a record says of its own place does not depend on where it stands in the list. -/
theorem ownOffset (i : Nat) : t'.ownOffset (σ i) = t.ownOffset i := by
  rw [Nesting.ownOffset, Nesting.ownOffset, h.record]

/-- Sums start at the same record and go through the same containers, so they are equal. -/
theorem place (n i : Nat) : (t'.place n (σ i)).1 = (t.place n i).1 := by
  induction n generalizing i with
  | zero => exact h.ownOffset i
  | succ n ih =>
    rw [Nesting.place, Nesting.place, h.ownOffset, h.inCycle, h.container?]
    dsimp only
    split
    · rfl
    · rcases t.container? i with _ | p
      · rfl
      · simp only [Option.map_some, ih p]

/-- Places on the screen are sums of own offsets along the chain, and are kept. -/
theorem absolute (i : Nat) : (t'.absolute (σ i)).1 = (t.absolute i).1 := by
  rw [Nesting.absolute, Nesting.absolute, h.length_eq, h.place]

/-- The record to which a place is relative is moved along. -/
theorem relativeParent? (i : Nat) : t'.relativeParent? (σ i) = (t.relativeParent? i).map σ := by
  rw [Nesting.relativeParent?, Nesting.relativeParent?, h.container?]
  rcases t.container? i with _ | p
  · rfl
  · rw [Option.map_some, h.inCycle]
    simp only [Option.filter, h.kind?]
    split <;> rfl

/-- So is the page frame of a page. -/
theorem pageFrame? (i : Nat) : t'.pageFrame? (σ i) = (t.pageFrame? i).map σ := by
  rw [Nesting.pageFrame?, Nesting.pageFrame?, h.container?]
  rcases t.container? i with _ | p
  · rfl
  · simp only [Option.map_some, Option.filter, h.kind?]
    split <;> rfl

theorem sizeFallback (i : Nat) (kind : ControlKind) :
    t'.sizeFallback (σ i) kind = t.sizeFallback i kind := by
  unfold Nesting.sizeFallback
  rw [h.container?]
  rcases t.container? i with _ | p
  · cases kind <;> rfl
  · cases kind <;> simp only [Option.map_some, h.record]

/-- The window is that of the form, which is the same record in both. -/
theorem window : t'.window = t.window := by
  have hform : t'.form.map t'.record = t.form.map t.record := by
    rw [h.form, Option.map_map]
    exact Option.map_congr fun f _ => h.record f
  rw [Nesting.window, Nesting.window, hform]

/-- So are the methods of the form. -/
theorem formMethods : t'.formMethods = t.formMethods := by
  have hform : t'.form.map t'.record = t.form.map t.record := by
    rw [h.form, Option.map_map]
    exact Option.map_congr fun f _ => h.record f
  rw [Nesting.formMethods, Nesting.formMethods, hform]

end Reorders

end Nesting

end ScreenForms.PixelScreen
