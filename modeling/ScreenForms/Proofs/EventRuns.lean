import Mathlib.Data.Set.Card
import ScreenForms.Proofs.Renaming

/-!
# Runs of changes of an event map

A map of events is asked for pairs of an owner and an event, but it is kept under the text
`owner_event`. `EventMap.get?_after` says what a run of changes leaves under a key, whatever the
changes are. As the separator can stand in an owner and in an event too, two pairs can have one
key (`eventKey_eq_iff`). On a set of pairs where this does not happen the map is a finite map from
pairs, and on no other set (`EventMap.isPairMap_iff`).
-/

namespace ScreenForms

/-! ## Keys -/

/-- Two pairs have one key exactly where they are the same, or where the owner of one is the owner
of the other together with the beginning of its event. -/
theorem eventKey_eq_iff {owner owner' : ControlId} {event event' : String} :
    eventKey owner event = eventKey owner' event' ↔
      (owner = owner' ∧ event = event') ∨
        (∃ stem, owner' = owner ++ "_" ++ stem ∧ event = stem ++ "_" ++ event') ∨
        ∃ stem, owner = owner' ++ "_" ++ stem ∧ event' = stem ++ "_" ++ event := by
  have htext : ∀ s t : String, (s ++ "_" ++ t).toList = s.toList ++ '_' :: t.toList := by
    intro s t
    simp
  have hfront : ∀ {s t : String} {cs : List Char},
      s.toList = t.toList ++ '_' :: cs ↔ s = t ++ "_" ++ String.ofList cs := by
    intro s t cs
    rw [← String.toList_inj, htext, String.toList_ofList]
  have hback : ∀ {s t : String} {cs : List Char},
      s.toList = cs ++ '_' :: t.toList ↔ s = String.ofList cs ++ "_" ++ t := by
    intro s t cs
    rw [← String.toList_inj, htext, String.toList_ofList]
  have hstem : ∀ {P : String → Prop}, (∃ cs : List Char, P (String.ofList cs)) ↔ ∃ s, P s := by
    intro P
    exact ⟨fun ⟨cs, h⟩ => ⟨_, h⟩, fun ⟨s, h⟩ => ⟨s.toList, by simpa using h⟩⟩
  rw [eventKey, eventKey, ← String.toList_inj, htext, htext, append_separator_eq_iff]
  simp only [String.toList_inj, hfront, hback]
  rw [hstem (P := fun s => owner' = owner ++ "_" ++ s ∧ event = s ++ "_" ++ event'),
    hstem (P := fun s => owner = owner' ++ "_" ++ s ∧ event' = s ++ "_" ++ event)]

/-- The owner and the event that a binding is for. -/
def EventBinding.pair (b : EventBinding) : ControlId × String := (b.owner, b.event)

namespace EventMap

/-! ## Runs -/

/-- A change of an event map. -/
inductive Change where
  | bind (b : EventBinding)
  /-- only the bindings that pass a test are kept -/
  | retain (keep : EventBinding → Bool)

/-- The map after a change. -/
def change (m : EventMap) : Change → EventMap
  | .bind b => m.bind b
  | .retain keep => m.retain keep

/-- The map after a run of changes from the empty map. -/
def after (changes : List Change) : EventMap := changes.foldl change SortedMap.empty

section lastKept

variable {κ : Type} [DecidableEq κ] (label : EventBinding → κ) (k : κ)

/-- What a change leaves of the binding with a label. -/
def track (found : Option EventBinding) : Change → Option EventBinding
  | .bind b => if label b = k then some b else found
  | .retain keep => found.filter keep

/-- The last binding of a run that has a label, unless a later test dropped it. -/
def lastKept (changes : List Change) : Option EventBinding := changes.foldl (track label k) none

theorem lastKept_concat (changes : List Change) (c : Change) :
    lastKept label k (changes ++ [c]) = track label k (lastKept label k changes) c := by
  simp [lastKept]

/-- A binding that is kept has the label and was stored in the run. -/
theorem label_of_lastKept {changes : List Change} {b : EventBinding}
    (h : lastKept label k changes = some b) : label b = k ∧ .bind b ∈ changes := by
  -- on the run from its end, as the last change is the one that counts
  induction changes using List.reverseRecOn with
  | nil => cases h
  | append_singleton changes c ih =>
    rw [lastKept_concat] at h
    cases c with
    | bind b' =>
      by_cases hb : label b' = k
      · obtain rfl : b' = b := by simpa [track, hb] using h
        simp [hb]
      · simpa [track, hb] using (ih (by simpa [track, hb] using h)).imp_right .inl
    | retain keep =>
      obtain ⟨hfound, -⟩ := Option.filter_eq_some_iff.mp h
      simpa using ih hfound

/-- A binding is kept under a label where nothing is dropped and some binding has the label. -/
theorem isSome_lastKept_bind {bs : List EventBinding} :
    (lastKept label k (bs.map .bind)).isSome ↔ ∃ b ∈ bs, label b = k := by
  induction bs using List.reverseRecOn with
  | nil => simp [lastKept]
  | append_singleton bs b ih =>
    rw [List.map_append, List.map_singleton, lastKept_concat]
    by_cases hb : label b = k
    · simp [track, hb]
    · simp [track, hb, ih]

theorem lastKept_bind_of_nodup {bs : List EventBinding} (hlabels : (bs.map label).Nodup)
    {b : EventBinding} (hb : b ∈ bs) : lastKept label (label b) (bs.map .bind) = some b := by
  induction bs using List.reverseRecOn with
  | nil => cases hb
  | append_singleton bs b' ih =>
    rw [List.map_append, List.nodup_append] at hlabels
    obtain ⟨hlabels, -, hlast⟩ := hlabels
    rw [List.map_append, List.map_singleton, lastKept_concat]
    rcases List.mem_append.mp hb with hb | hb
    · have hne : label b ≠ label b' := hlast _ (List.mem_map_of_mem hb) _ (by simp)
      simp [track, Ne.symm hne, ih hlabels hb]
    · obtain rfl := List.mem_singleton.mp hb
      simp [track]

end lastKept

theorem after_concat (changes : List Change) (c : Change) :
    after (changes ++ [c]) = (after changes).change c := by
  simp [after]

theorem after_append_bind (changes : List Change) (bs : List EventBinding) :
    after (changes ++ bs.map .bind) = bs.foldl EventMap.bind (after changes) := by
  rw [after, after, List.foldl_append, List.foldl_map]
  rfl

theorem isKeyed_after (changes : List Change) : (after changes).IsKeyed := by
  induction changes using List.reverseRecOn with
  | nil => exact nofun
  | append_singleton changes c ih =>
    rw [after_concat]
    cases c with
    | bind b => exact ih.bind b
    | retain keep => exact fun e he => ih e (List.mem_of_mem_filter he)

/-- The map keeps the last binding under every key. -/
theorem get?_after (changes : List Change) (key : String) :
    (after changes).get? key = lastKept EventBinding.key key changes := by
  induction changes using List.reverseRecOn with
  | nil => rfl
  | append_singleton changes c ih =>
    rw [after_concat, lastKept_concat, ← ih]
    cases c with
    | bind b => exact SortedMap.get?_insert _ b.key key b
    | retain keep => exact SortedMap.get?_retain _ keep key

theorem mem_values_iff {m : EventMap} (h : m.IsKeyed) {b : EventBinding} :
    b ∈ m.values ↔ m.get? b.key = some b := by
  rw [SortedMap.get?_eq_some_iff, SortedMap.values, List.mem_map]
  constructor
  · rintro ⟨e, he, rfl⟩
    rwa [← h e he]
  · exact fun he => ⟨_, he, rfl⟩

/-! ## Maps from pairs -/

/-- After a run the map answers like a finite map from pairs, as far as some pairs go. -/
structure IsPairMap (pairs : Set (ControlId × String)) (changes : List Change) : Prop where
  code : ∀ p ∈ pairs, (after changes).code? p.1 p.2 =
    (lastKept EventBinding.pair p changes).map EventBinding.code
  ofOwner : ∀ owner b, b ∈ (after changes).ofOwner owner ↔
    b.owner = owner ∧ lastKept EventBinding.pair b.pair changes = some b
  /-- a binding changes no answer for another pair -/
  code_bind : ∀ b, b.pair ∈ pairs → ∀ p ∈ pairs, p ≠ b.pair →
    ((after changes).bind b).code? p.1 p.2 = (after changes).code? p.1 p.2
  ofOwner_bind : ∀ b, b.pair ∈ pairs → ∀ owner,
    (((after changes).bind b).ofOwner owner).filter (fun other => other.pair ≠ b.pair) =
      ((after changes).ofOwner owner).filter fun other => other.pair ≠ b.pair
  size : (after changes).size = {p | (lastKept EventBinding.pair p changes).isSome}.ncard

/-- In a set of pairs, no owner with the beginning of its event is the owner of the rest. -/
def Separated (pairs : Set (ControlId × String)) : Prop :=
  ∀ owner stem event, (owner, stem ++ "_" ++ event) ∈ pairs → (owner ++ "_" ++ stem, event) ∉ pairs

/-- Owners without an underscore keep all their events apart. -/
theorem separated_plainOwners : Separated {p | '_' ∉ p.1.toList} := by
  intro owner stem event _ hp
  simp at hp

section Separated

variable {pairs : Set (ControlId × String)} (hpairs : Separated pairs)
include hpairs

theorem Separated.eq_of_key_eq {p q : ControlId × String} (hp : p ∈ pairs) (hq : q ∈ pairs)
    (h : eventKey p.1 p.2 = eventKey q.1 q.2) : p = q := by
  obtain ⟨owner, event⟩ := p
  obtain ⟨owner', event'⟩ := q
  dsimp only at h
  rcases eventKey_eq_iff.mp h with ⟨rfl, rfl⟩ | ⟨stem, rfl, rfl⟩ | ⟨stem, rfl, rfl⟩
  · rfl
  · exact absurd hq (hpairs owner stem event' hp)
  · exact absurd hp (hpairs owner' stem event hq)

/-- The bindings for other pairs are the ones under other keys. -/
theorem Separated.filter_values {m : EventMap} (hm : m.IsKeyed)
    (hmem : ∀ b ∈ m.values, b.pair ∈ pairs) {b : EventBinding} (hb : b.pair ∈ pairs) :
    m.values.filter (fun other => other.pair ≠ b.pair) = (m.erase b.key).values := by
  have hother : ∀ e ∈ m.entries, e.2.pair ≠ b.pair ↔ e.1 ≠ b.key := fun e he => by
    rw [hm e he]
    exact not_congr ⟨fun h => congrArg (fun p : ControlId × String => eventKey p.1 p.2) h,
      hpairs.eq_of_key_eq (hmem _ (List.mem_map_of_mem he)) hb⟩
  rw [SortedMap.values, List.filter_map]
  refine congrArg _ (List.filter_congr fun e he => ?_)
  rw [Bool.eq_iff_iff, Function.comp_apply, decide_eq_true_iff, hother e he, bne_iff_ne]

variable {changes : List Change} (hchanges : ∀ b, .bind b ∈ changes → b.pair ∈ pairs)
include hchanges

/-- The last binding under the key of a pair is the last one for the pair. -/
theorem Separated.lastKept_key {p : ControlId × String} (hp : p ∈ pairs) :
    lastKept EventBinding.key (eventKey p.1 p.2) changes =
      lastKept EventBinding.pair p changes := by
  induction changes using List.reverseRecOn with
  | nil => rfl
  | append_singleton changes c ih =>
    rw [lastKept_concat, lastKept_concat, ih fun b hb => hchanges b (List.mem_append_left _ hb)]
    cases c with
    | bind b =>
      -- here the pairs have to be separated: else another binding could take the key of `p`
      have hb : b.key = eventKey p.1 p.2 ↔ b.pair = p :=
        ⟨hpairs.eq_of_key_eq (hchanges b (by simp)) hp, fun h => h ▸ rfl⟩
      simp only [track, hb]
    | retain keep => rfl

theorem Separated.mem_values {b : EventBinding} :
    b ∈ (after changes).values ↔ lastKept EventBinding.pair b.pair changes = some b := by
  rw [mem_values_iff (isKeyed_after changes), get?_after]
  constructor
  · intro h
    obtain ⟨-, hb⟩ := label_of_lastKept _ _ h
    exact hpairs.lastKept_key hchanges (hchanges b hb) ▸ h
  · intro h
    obtain ⟨-, hb⟩ := label_of_lastKept _ _ h
    exact (hpairs.lastKept_key hchanges (hchanges b hb)).trans h

theorem Separated.pair_mem {b : EventBinding} (hb : b ∈ (after changes).values) :
    b.pair ∈ pairs :=
  hchanges b (label_of_lastKept _ _ ((hpairs.mem_values hchanges).mp hb)).2

/-- The bindings that are stored are for different pairs, as they have different keys. Where pairs
are separated, different pairs have different keys too, so that the two are counted alike. -/
theorem Separated.size_after :
    (after changes).size = {p | (lastKept EventBinding.pair p changes).isSome}.ncard := by
  have hkeys : ((after changes).values.map EventBinding.pair).Nodup := by
    apply List.Nodup.of_map fun p => eventKey p.1 p.2
    have hnodup := (after changes).nodup_keys
    rw [SortedMap.keys, (isKeyed_after changes).keys_eq] at hnodup
    rwa [List.map_map]
  -- every pair that is alive is the pair of just one of these bindings
  have hlive : {p | (lastKept EventBinding.pair p changes).isSome} =
      ((after changes).values.map EventBinding.pair).toFinset := by
    ext p
    simp only [Set.mem_ofPred_eq, Option.isSome_iff_exists, List.coe_toFinset, List.mem_map,
      hpairs.mem_values hchanges]
    constructor
    · rintro ⟨b, hb⟩
      obtain ⟨rfl, -⟩ := label_of_lastKept _ _ hb
      exact ⟨b, hb, rfl⟩
    · rintro ⟨b, hb, rfl⟩
      exact ⟨b, hb⟩
  rw [hlive, Set.ncard_coe_finset, List.toFinset_card_of_nodup hkeys]
  simp [SortedMap.size, SortedMap.values]

/-- Storing a binding leaves the bindings for other pairs as they are. -/
theorem Separated.filter_values_bind {b : EventBinding} (hb : b.pair ∈ pairs) :
    ((after changes).bind b).values.filter (fun other => other.pair ≠ b.pair) =
      (after changes).values.filter fun other => other.pair ≠ b.pair := by
  have hkeyed := isKeyed_after changes
  have hstored : ∀ other ∈ ((after changes).bind b).values, other.pair ∈ pairs := by
    intro other hother
    obtain ⟨e, he, rfl⟩ := List.mem_map.mp hother
    rcases mem_insertEntry he with rfl | he
    · exact hb
    · exact hpairs.pair_mem hchanges (List.mem_map_of_mem he)
  rw [hpairs.filter_values (hkeyed.bind b) hstored hb,
    hpairs.filter_values hkeyed (fun _ => hpairs.pair_mem hchanges) hb, bind,
    SortedMap.erase_insert]

/-- On separated pairs every run leaves a map from pairs. -/
theorem Separated.isPairMap : IsPairMap pairs changes where
  code p hp := by rw [code?, get?_after, hpairs.lastKept_key hchanges hp]
  ofOwner owner b := by
    simp only [EventMap.ofOwner, List.mem_filter, beq_iff_eq, hpairs.mem_values hchanges]
    exact and_comm
  code_bind b hb p hp hne := by
    have hkey : b.key ≠ eventKey p.1 p.2 := fun h => hne (hpairs.eq_of_key_eq hb hp h).symm
    simp only [code?, EventMap.bind, SortedMap.get?_insert_of_ne _ _ hkey]
  ofOwner_bind b hb owner := by
    rw [EventMap.ofOwner, EventMap.ofOwner, List.filter_comm,
      hpairs.filter_values_bind hchanges hb, List.filter_comm]
  size := hpairs.size_after hchanges

end Separated

/-- The runs on some pairs all leave a map from these pairs exactly where the pairs are separated:
no owner, an underscore and the beginning of its event make the owner of the rest of the event. -/
theorem isPairMap_iff (pairs : Set (ControlId × String)) :
    (∀ changes, (∀ b, .bind b ∈ changes → b.pair ∈ pairs) → IsPairMap pairs changes) ↔
      ∀ owner stem event, (owner, stem ++ "_" ++ event) ∈ pairs →
        (owner ++ "_" ++ stem, event) ∉ pairs := by
  constructor
  · intro h owner stem event hp hq
    -- code for the one pair alone is also found for the other
    have hanswer := (h [.bind ⟨owner, stem ++ "_" ++ event, ""⟩]
      (by simpa [EventBinding.pair] using hp)).code _ hq
    have hkey : eventKey owner (stem ++ "_" ++ event) = eventKey (owner ++ "_" ++ stem) event := by
      simp [eventKey, String.append_assoc]
    have hne : owner ≠ owner ++ "_" ++ stem := by
      intro heq
      have hlength := congrArg String.length heq
      have hseparator : "_".length = 1 := rfl
      simp only [String.length_append] at hlength
      omega
    simp [after, change, lastKept, track, code?, EventMap.bind, EventBinding.key, EventBinding.pair,
      hkey, hne] at hanswer
  · exact fun hpairs changes hchanges => Separated.isPairMap hpairs hchanges

/-- Code for the event `B_C` of `a` is lost to code for the event `C` of `a_B`. -/
theorem not_isPairMap : ¬ ∀ changes, IsPairMap Set.univ changes := by
  intro h
  have hcode := (h [.bind ⟨"a", "B_C", "1"⟩, .bind ⟨"a_B", "C", "2"⟩]).code ("a", "B_C") trivial
  revert hcode
  decide

end EventMap

end ScreenForms
