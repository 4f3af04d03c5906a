import ScreenForms.Proofs.EventRuns
import ScreenForms.Proofs.Ids
import ScreenForms.Proofs.Reordering

/-!
# Events of records in another order

Code is kept under keys, and the order in which it is stored counts only for code under the same
key (`EventMap.foldl_bind_comm`). Different controls can come to one key, as the key runs owner and
event together: then the code of one of them is lost, and which one is lost depends on the order of
the records. So the events of a screen are the same for every order exactly where no two controls
bind code under one key (`Nesting.events_reordered_iff`).
-/

namespace ScreenForms

open Text NameRegistry

/-! ## Storing in another order -/

namespace EventMap

theorem bind_comm {b b' : EventBinding} (hne : b.key ≠ b'.key) (m : EventMap) :
    (m.bind b).bind b' = (m.bind b').bind b :=
  SortedMap.insert_comm hne b b' m

theorem foldl_bind_bind {b : EventBinding} {bs : List EventBinding}
    (h : ∀ b' ∈ bs, b.key ≠ b'.key) (m : EventMap) :
    bs.foldl bind (m.bind b) = (bs.foldl bind m).bind b := by
  induction bs generalizing m with
  | nil => rfl
  | cons b' bs ih =>
    obtain ⟨hb', hbs⟩ := List.forall_mem_cons.mp h
    rw [List.foldl_cons, List.foldl_cons, bind_comm hb', ih hbs]

/-- Bindings can be stored before or after others that have other keys. -/
theorem foldl_bind_comm {bs bs' : List EventBinding} (h : ∀ b ∈ bs, ∀ b' ∈ bs', b.key ≠ b'.key)
    (m : EventMap) : bs'.foldl bind (bs.foldl bind m) = bs.foldl bind (bs'.foldl bind m) := by
  induction bs generalizing m with
  | nil => rfl
  | cons b bs ih =>
    obtain ⟨hb, hbs⟩ := List.forall_mem_cons.mp h
    rw [List.foldl_cons, List.foldl_cons, ih hbs, foldl_bind_bind hb]

/-- Of the bindings under one key the last one is kept. -/
theorem exists_get?_foldl_bind {bs : List EventBinding} {key : String}
    (h : ∃ b ∈ bs, b.key = key) (m : EventMap) :
    ∃ b ∈ bs, (bs.foldl bind m).get? key = some b := by
  induction bs generalizing m with
  | nil =>
    obtain ⟨b, hb, -⟩ := h
    cases hb
  | cons b bs ih =>
    by_cases hlater : ∃ b' ∈ bs, b'.key = key
    · obtain ⟨b', hb', hget⟩ := ih hlater (m.bind b)
      exact ⟨b', List.mem_cons_of_mem _ hb', hget⟩
    · have hother : ∀ b' ∈ bs, b.key ≠ b'.key := by
        obtain ⟨b', hb', rfl⟩ := h
        rcases List.mem_cons.mp hb' with rfl | hb'
        · exact fun b'' hb'' heq => hlater ⟨b'', hb'', heq.symm⟩
        · exact absurd ⟨b', hb', rfl⟩ hlater
      have hkey : b.key = key := by
        obtain ⟨b', hb', heq⟩ := h
        rcases List.mem_cons.mp hb' with rfl | hb'
        · exact heq
        · exact absurd ⟨b', hb', heq⟩ hlater
      refine ⟨b, List.mem_cons_self, ?_⟩
      rw [List.foldl_cons, foldl_bind_bind hother, bind, hkey, SortedMap.get?_insert_self]

end EventMap

namespace PixelScreen.Nesting

variable {t : Nesting}

/-! ## Code of controls -/

/-- The bindings of the control that a record becomes. -/
def bindingsAt (t : Nesting) (i : Nat) : List EventBinding :=
  (t.record i).methods.map fun m => ⟨(t.record i).id, EventName.normalize m.name, m.body⟩

/-- No two controls bind code under the same key. -/
def KeysApart (t : Nesting) : Prop :=
  ∀ i ∈ t.indices, ∀ j ∈ t.indices, i ≠ j → (t.kind? i).isSome → (t.kind? j).isSome →
    ∀ b ∈ t.bindingsAt i, ∀ b' ∈ t.bindingsAt j, b.key ≠ b'.key

theorem events_eq (t : Nesting) :
    t.document.events = (t.indices.filter fun i => (t.kind? i).isSome).foldl
      (fun m i => (t.bindingsAt i).foldl EventMap.bind m)
      ((t.formMethods.filterMap fun m =>
        (EventName.known? m.name).map fun event => ⟨formOwner, event, m.body⟩).foldl
          EventMap.bind SortedMap.empty) := by
  show t.bindings.foldl EventMap.bind SortedMap.empty = _
  rw [bindings, List.foldl_append, List.foldl_flatMap]
  rfl

/-- Code of the control that comes last is found under all of its keys, whatever controls in front of
it have stored there. -/
theorem exists_get?_events {front : List Record} {r : Record}
    (hkind : ((ofRecords (front ++ [r])).kind? front.length).isSome) {key : String}
    (hkey : ∃ b ∈ (ofRecords (front ++ [r])).bindingsAt front.length, b.key = key) :
    ∃ b, (ofRecords (front ++ [r])).document.events.get? key = some b ∧ b.owner = r.id := by
  have hlast : (ofRecords (front ++ [r])).indices = List.range front.length ++ [front.length] := by
    rw [indices, ofRecords_records, List.length_append, List.length_singleton, List.range_succ]
  have hrecord : (ofRecords (front ++ [r])).record front.length = r := by
    rw [record, ofRecords_records, List.getElem?_concat_length]
    rfl
  have hcontrols : [front.length].filter (fun i => ((ofRecords (front ++ [r])).kind? i).isSome) =
      [front.length] := List.filter_eq_self.mpr (by simpa using hkind)
  rw [events_eq, hlast, List.filter_append, List.foldl_append, hcontrols]
  obtain ⟨b, hb, hget⟩ := EventMap.exists_get?_foldl_bind hkey _
  refine ⟨b, hget, ?_⟩
  obtain ⟨m, -, rfl⟩ := List.mem_map.mp hb
  rw [hrecord]

theorem Reorders.bindingsAt {σ : Nat → Nat} {t t' : Nesting} (h : Reorders σ t t') (i : Nat) :
    t'.bindingsAt (σ i) = t.bindingsAt i := by
  rw [Nesting.bindingsAt, Nesting.bindingsAt, h.record]

theorem Reorders.events {σ : Nat → Nat} {t t' : Nesting} (h : Reorders σ t t')
    (hkeys : t.KeysApart) : t'.document.events = t.document.events := by
  have hcontrols : (t'.indices.filter fun i => (t'.kind? i).isSome).Perm
      ((t.indices.filter fun i => (t.kind? i).isSome).map σ) := by
    refine (h.indices.symm.filter _).trans (.of_eq ?_)
    rw [List.filter_map]
    refine congrArg _ (List.filter_congr fun i _ => ?_)
    rw [Function.comp_apply, h.kind?]
  rw [events_eq, events_eq, h.formMethods, ← hcontrols.symm.foldl_eq', List.foldl_map]
  · simp only [h.bindingsAt]
  · -- the code of two controls can be stored in either order
    intro x hx y hy m
    obtain ⟨i, hi, rfl⟩ := List.mem_map.mp hx
    obtain ⟨j, hj, rfl⟩ := List.mem_map.mp hy
    obtain ⟨hi, hkind⟩ := List.mem_filter.mp hi
    obtain ⟨hj, hkind'⟩ := List.mem_filter.mp hj
    by_cases hij : i = j
    · rw [hij]
    · rw [h.bindingsAt, h.bindingsAt]
      exact EventMap.foldl_bind_comm (hkeys i hi j hj hij hkind hkind') m

section

variable {records : List Record} (hnames : (records.map fun r => foldName r.objName).Nodup)
  (hdots : ∀ r ∈ records, '.' ∉ r.objName.toList)
  (hform : ∃! r, r ∈ records ∧ baseClass r = "form")
include hnames hdots hform

/-- The record of a control can come last, so its code can be the code that is found. This makes the
condition on keys necessary: of two controls with one key, either can win. -/
theorem exists_last {i : Nat} (hi : i < records.length)
    (hkind : ((ofRecords records).kind? i).isSome) {b : EventBinding}
    (hb : b ∈ (ofRecords records).bindingsAt i) : ∃ records', records.Perm records' ∧
      ∃ b', (ofRecords records').document.events.get? b.key = some b' ∧
        b'.owner = ((ofRecords records).record i).id := by
  have hperm : records.Perm (records.eraseIdx i ++ [records[i]]) :=
    (List.getElem_cons_eraseIdx_perm hi).symm.trans (List.perm_append_singleton _ _).symm
  obtain ⟨σ, h⟩ := exists_reorders hperm hnames hdots hform
  have hrecord : (ofRecords records).record i = records[i] := by
    rw [record, ofRecords_records, List.getElem?_eq_getElem hi]
    rfl
  have hlast : σ i = (records.eraseIdx i).length := by
    refine index_eq_of_nodup ((hperm.map _).nodup_iff.mp hnames) (h.lt_length hi) (by simp) ?_
    rw [h.record, hrecord, record, ofRecords_records, List.getElem?_concat_length]
    rfl
  refine ⟨_, hperm, ?_⟩
  rw [hrecord]
  refine exists_get?_events ?_ ⟨b, ?_, rfl⟩
  · rw [← hlast, h.kind?]
    exact hkind
  · rw [← hlast, h.bindingsAt]
    exact hb

/-- The events are the same for every order of the records exactly where no two controls bind code
under the same key. -/
theorem events_reordered_iff (hids : (records.map Record.id).Nodup) :
    (∀ records', records.Perm records' →
        (ofRecords records').document.events = (ofRecords records).document.events) ↔
      (ofRecords records).KeysApart := by
  constructor
  · intro hsame i hi j hj hij hkind hkind' b hb b' hb' hkey
    rw [indices, List.mem_range] at hi hj
    obtain ⟨_, hperm, c, hget, howner⟩ := exists_last hnames hdots hform hi hkind hb
    obtain ⟨_, hperm', c', hget', howner'⟩ := exists_last hnames hdots hform hj hkind' hb'
    rw [hsame _ hperm] at hget
    rw [hsame _ hperm', ← hkey, hget] at hget'
    obtain rfl := Option.some.inj hget'
    exact hij (index_eq_of_nodup hids hi hj (howner.symm.trans howner'))
  · intro hkeys records' hperm
    obtain ⟨σ, h⟩ := exists_reorders hperm hnames hdots hform
    exact h.events hkeys

end

end PixelScreen.Nesting

/-! ## Ids made from contents -/

namespace PixelScreen

/-- Ids that are made from contents keep the code of different controls apart. They have no
underscore, so that a key is cut at the first one into the id and the event. -/
theorem keysApart_of_contentIds {records : List Record} (hids : (records.map Record.id).Nodup)
    (hmade : ∀ r ∈ records, ∃ content, r.id = contentId content) :
    (Nesting.ofRecords records).KeysApart := by
  intro i hi j hj hij _ _ b hb b' hb' hkey
  obtain ⟨m, -, rfl⟩ := List.mem_map.mp hb
  obtain ⟨m', -, rfl⟩ := List.mem_map.mp hb'
  rw [Nesting.indices, List.mem_range] at hi hj
  have hplain : ∀ {k}, k < records.length →
      '_' ∉ ((Nesting.ofRecords records).record k).id.toList := by
    intro k hk
    have hmem : (Nesting.ofRecords records).record k ∈ records := Nesting.record_mem hk
    obtain ⟨content, hcontent⟩ := hmade _ hmem
    rw [hcontent]
    exact underscore_not_mem_contentId content
  have hpair := @EventMap.Separated.eq_of_key_eq _ EventMap.separated_plainOwners (_, _) (_, _)
    (hplain hi) (hplain hj) hkey
  exact hij (Nesting.index_eq_of_nodup hids hi hj (congrArg Prod.fst hpair))

end PixelScreen

end ScreenForms
