import Mathlib
import ScreenForms.Proofs.Blanks
import ScreenForms.Proofs.Names

/-!
# Default names over a run

While a document is built, names are reserved, claimed and made up in any order, with one registry
and one counter (`NameDesk`). The number of a default name is sought pass by pass
(`NameCounter.Search`); the search ends, since every number it passes over takes up a name of its
own, and it ends at the least number that will do. What carries a run is that every name that was
mentioned is in use and that the counter has the number of the latest default name of each kind
(`NameDesk.Keeps`). So every default name is new (`isFresh_next`).
-/

namespace ScreenForms

open NameRegistry

theorem NameRegistry.trim_fold_of_blank {name : String} (h : Text.trim name.toList = []) :
    Text.trim (fold name).toList = [] := by
  rw [Text.toList_onChars, Text.trim_eq_nil_iff]
  intro c hc
  obtain ⟨b, hb, rfl⟩ := List.mem_map.mp hc
  have hblank := Text.trim_eq_nil_iff.mp h b hb
  have hupper : ¬ b.isUpper = true := by
    intro hupper
    have hsolid := Text.not_isBlank_of_isAlphanum (c := b)
      (by rw [Char.isAlphanum, Char.isAlpha, hupper, Bool.true_or, Bool.true_or])
    rw [hblank] at hsolid
    cases hsolid
  rwa [Char.toLower_eq_of_not_isUpper hupper]

/-! ## The search for a number -/

namespace NameCounter

/-- The search for a free number above a given one, pass by pass. Being inductive, it comes to an
end. -/
inductive Search (kind : ControlKind) (names : NameRegistry) : Nat → Nat → Prop
  | free {n : Nat} (h : names.contains (nameAt kind (n + 1)) = false) : Search kind names n (n + 1)
  | used {n m : Nat} (h : names.contains (nameAt kind (n + 1)) = true)
      (rest : Search kind names (n + 1) m) : Search kind names n m

variable {kind : ControlKind} {names : NameRegistry} {n m : Nat}

/-- The numbers that a default name can have after the one with the number `n`. -/
def freeAbove (kind : ControlKind) (names : NameRegistry) (n : Nat) : Set Nat :=
  {k | n < k ∧ names.contains (nameAt kind k) = false}

theorem Search.isLeast (h : Search kind names n m) : IsLeast (freeAbove kind names n) m := by
  induction h with
  | free h => exact ⟨⟨Nat.lt_succ_self _, h⟩, fun k hk => hk.1⟩
  | @used n m h _ ih =>
    refine ⟨⟨Nat.lt_of_succ_lt ih.1.1, ih.1.2⟩, fun k hk => ih.2 ⟨?_, hk.2⟩⟩
    refine Nat.lt_of_le_of_ne hk.1 ?_
    rintro rfl
    rw [hk.2] at h
    cases h

/-- Every number that is passed over has a name in use, so there are no more passes than names. -/
theorem Search.le_card (h : Search kind names n m) :
    m ≤ n + names.used.toFinset.card + 1 := by
  have hpassed : (Finset.Ioo n m).image (fun k => fold (nameAt kind k)) ⊆ names.used.toFinset := by
    intro name hname
    obtain ⟨k, hk, rfl⟩ := Finset.mem_image.mp hname
    obtain ⟨hlow, hhigh⟩ := Finset.mem_Ioo.mp hk
    rw [List.mem_toFinset, ← contains_iff]
    by_contra hfree
    exact absurd (h.isLeast.2 ⟨hlow, by simpa using hfree⟩) (Nat.not_le.mpr hhigh)
  have hcard := Finset.card_le_card hpassed
  rw [Finset.card_image_of_injective _ fun _ _ => fold_nameAt_injective, Nat.card_Ioo] at hcard
  omega

theorem search_of_free {fuel : Nat}
    (h : names.contains (nameAt kind (firstFree kind names fuel n)) = false) :
    Search kind names n (firstFree kind names fuel n) := by
  induction fuel generalizing n with
  | zero => exact .free h
  | succ fuel ih =>
    rw [firstFree] at h ⊢
    split at h
    · next hused =>
      rw [if_pos hused]
      exact .used hused (ih h)
    · next hfree =>
      rw [if_neg hfree]
      exact .free h

/-- The number that is given out is the one where the search ends. -/
theorem search_firstFree (kind : ControlKind) (names : NameRegistry) (n : Nat) :
    Search kind names n (firstFree kind names names.used.length n) := by
  refine search_of_free ?_
  have hfree := not_mem_used_firstFree kind names n
  rw [← contains_iff] at hfree
  simpa using hfree

/-- A default name is not blank, since it ends with a digit. -/
theorem trim_fold_nameAt_ne_nil (kind : ControlKind) (n : Nat) :
    Text.trim (fold (nameAt kind n)).toList ≠ [] := by
  intro hblank
  obtain ⟨c, hc⟩ := List.exists_mem_of_ne_nil _ (Decimal.decimalText_ne_nil n)
  have hmem : c ∈ (fold (nameAt kind n)).toList := by
    simp only [Text.toList_onChars, nameAt, String.toList_append, Text.lower, List.map_append,
      Decimal.toList_intText_ofNat]
    refine List.mem_append_right _ ?_
    rwa [← Text.lower, Text.lower_decimalText]
  have hdigit := Decimal.isDigit_of_mem_decimalText hc
  have hsolid : Text.isBlank c = false :=
    Text.not_isBlank_of_isAlphanum (by rw [Char.isAlphanum, hdigit, Bool.or_true])
  rw [Text.trim_eq_nil_iff.mp hblank c hmem] at hsolid
  cases hsolid

end NameCounter

/-! ## Runs -/

/-- What a builder asks for. -/
inductive NameRequest where
  | reserve (name : String)
  | claim (name : String) (id : ControlId)
  | next (kind : ControlKind)
  deriving DecidableEq, Repr

/-- The names that a request brings along. -/
def NameRequest.given : NameRequest → List String
  | reserve name => [name]
  | claim name _ => [name]
  | next _ => []

/-- A request and the name that was answered; a name that is reserved is its own answer. -/
structure NameEntry where
  request : NameRequest
  answer : String
  deriving DecidableEq, Repr

/-- All names that an entry is about. -/
def NameEntry.names (e : NameEntry) : List String := e.answer :: e.request.given

/-- The last number that was given out in a default name of a kind, zero when none was. -/
def IsLastNumber (kind : ControlKind) (log : List NameEntry) (n : Nat) : Prop :=
  match (log.filter fun e => e.request = .next kind).getLast? with
  | none => n = 0
  | some e => e.answer = NameCounter.nameAt kind n

/-- A registry and the counter that is used with it. -/
structure NameDesk where
  names : NameRegistry
  counter : NameCounter := {}

namespace NameDesk

/-- The answer to a request and what is kept of it. -/
def serve (d : NameDesk) : NameRequest → String × NameDesk
  | .reserve name => (name, { d with names := d.names.reserve name })
  | .claim name id =>
    let (chosen, names) := d.names.claim name id
    (chosen, { d with names })
  | .next kind =>
    let (name, counter, names) := d.counter.next kind d.names
    (name, { counter, names })

/-- The entry that a request makes. -/
def entry (d : NameDesk) (request : NameRequest) : NameEntry := ⟨request, (d.serve request).1⟩

/-- The desk after a run of requests. -/
def after (d : NameDesk) (requests : List NameRequest) : NameDesk :=
  requests.foldl (fun d request => (d.serve request).2) d

/-- The entries of a run of requests. -/
def log : NameDesk → List NameRequest → List NameEntry
  | _, [] => []
  | d, request :: requests => d.entry request :: log (d.serve request).2 requests

variable {d : NameDesk} {entries : List NameEntry}

/-- Whatever is asked for, the answer is a name in use from then on. -/
theorem names_serve (d : NameDesk) (request : NameRequest) :
    (d.serve request).2.names = d.names.reserve (d.serve request).1 := by
  cases request <;> rfl

theorem contains_serve (d : NameDesk) (request : NameRequest) (name : String) :
    (d.serve request).2.names.contains name ↔
      fold name = fold (d.serve request).1 ∨ d.names.contains name := by
  rw [names_serve, contains_iff, contains_iff, reserve, List.mem_cons]

theorem contains_after {name : String} (h : d.names.contains name) (requests : List NameRequest) :
    (d.after requests).names.contains name := by
  induction requests generalizing d with
  | nil => exact h
  | cons request requests ih => exact ih ((contains_serve d request name).mpr (.inr h))

/-- What a desk keeps of the entries made so far. A blank name that was claimed is not in use
itself, since another one was answered. -/
structure Keeps (d : NameDesk) (entries : List NameEntry) : Prop where
  mentioned : ∀ e ∈ entries, ∀ name ∈ e.names,
    d.names.contains name ∨ Text.trim name.toList = []
  last : ∀ kind, IsLastNumber kind entries (d.counter.last kind)

theorem Keeps.init (names : NameRegistry) : Keeps ⟨names, {}⟩ [] :=
  ⟨fun _ he => absurd he List.not_mem_nil, fun _ => rfl⟩

theorem of_mem_given {request : NameRequest} {name : String} (h : name ∈ request.given) :
    (d.serve request).2.names.contains name ∨ Text.trim name.toList = [] := by
  rw [contains_serve]
  cases request with
  | reserve given =>
    obtain rfl := List.mem_singleton.mp h
    exact .inl (.inl rfl)
  | claim given id =>
    obtain rfl := List.mem_singleton.mp h
    show (fold name = fold (d.names.choose name id) ∨ _) ∨ _
    unfold choose
    split
    · next htaken =>
      rw [Bool.or_eq_true, List.isEmpty_iff] at htaken
      exact htaken.symm.imp_left .inr
    · exact .inl (.inl rfl)
  | next kind => cases h

/-- The step: an entry more, and what it is about is kept too. A name that was given stays
mentioned, and the last number of a kind changes for this kind only. -/
theorem Keeps.serve (h : Keeps d entries) (request : NameRequest) :
    Keeps (d.serve request).2 (entries ++ [d.entry request]) := by
  constructor
  · intro e he name hname
    rcases List.mem_append.mp he with he | he
    · refine (h.mentioned e he name hname).imp_left fun hused => ?_
      exact (contains_serve d request name).mpr (.inr hused)
    · obtain rfl := List.mem_singleton.mp he
      rcases List.mem_cons.mp hname with rfl | hgiven
      · exact .inl ((contains_serve d request _).mpr (.inl rfl))
      · exact of_mem_given hgiven
  · intro kind
    unfold IsLastNumber
    rw [List.filter_append]
    by_cases hkind : request = .next kind
    · subst hkind
      simp [entry, NameDesk.serve, NameCounter.next]
    · have hcounter : (d.serve request).2.counter.last kind = d.counter.last kind := by
        cases request with
        | reserve given => rfl
        | claim given id => rfl
        | next other => exact if_neg fun heq => hkind (by rw [heq])
      have hnone : [d.entry request].filter (fun e => e.request = .next kind) = [] := by
        simpa [entry] using hkind
      rw [hcounter, hnone, List.append_nil]
      exact h.last kind

theorem Keeps.run (h : Keeps d entries) (requests : List NameRequest) :
    Keeps (d.after requests) (entries ++ d.log requests) := by
  induction requests generalizing d entries with
  | nil => simpa [log, after] using h
  | cons request requests ih =>
    have := ih (h.serve request)
    rwa [List.append_assoc] at this

/-- What a default name has to be, given the entries before it and the names in use. -/
structure IsFresh (entries : List NameEntry) (names : NameRegistry) (kind : ControlKind)
    (answer : String) : Prop where
  /-- the search from the last number of the kind on ends, and ends at the least free number -/
  number : ∃ last n, IsLastNumber kind entries last ∧ answer = NameCounter.nameAt kind n ∧
    NameCounter.Search kind names last n ∧ IsLeast (NameCounter.freeAbove kind names last) n ∧
      n ≤ last + names.used.toFinset.card + 1
  /-- no name that was mentioned before is the same up to case -/
  new : ∀ e ∈ entries, ∀ name ∈ e.names, fold name ≠ fold answer

/-- In every run, a default name is the prefix of its kind with the least free number above the
last one, differs from all names before it, and is in use from then on. -/
theorem isFresh_next (names : NameRegistry) (before later : List NameRequest)
    (kind : ControlKind) :
    let desk : NameDesk := after ⟨names, {}⟩ before
    let answer := (desk.serve (.next kind)).1
    IsFresh (log ⟨names, {}⟩ before) desk.names kind answer ∧
      (after ⟨names, {}⟩ (before ++ .next kind :: later)).names.contains answer := by
  intro desk answer
  have hkeeps : Keeps desk (log ⟨names, {}⟩ before) := (Keeps.init names).run before
  have hsearch := NameCounter.search_firstFree kind desk.names (desk.counter.last kind)
  refine ⟨⟨⟨desk.counter.last kind, _, hkeeps.last kind, rfl, hsearch, hsearch.isLeast,
    hsearch.le_card⟩, fun e he name hname heq => ?_⟩, ?_⟩
  · rcases hkeeps.mentioned e he name hname with hused | hblank
    · have hfree := NameCounter.not_mem_used_firstFree kind desk.names (desk.counter.last kind)
      rw [contains_iff, heq] at hused
      exact hfree hused
    · have hanswer := trim_fold_of_blank hblank
      rw [heq] at hanswer
      exact NameCounter.trim_fold_nameAt_ne_nil kind _ hanswer
  · have hafter : after ⟨names, {}⟩ (before ++ .next kind :: later) =
        (desk.serve (.next kind)).2.after later := List.foldl_append
    rw [hafter]
    exact contains_after ((contains_serve desk _ answer).mpr (.inl rfl)) later

/-- The numbers of a kind go on where they stopped, past the names in use in any case. -/
example : (log ⟨{}, {}⟩ [.reserve "LABEL2", .next .label, .next .button, .claim "label3" "w1",
    .next .label]).map NameEntry.answer = ["LABEL2", "Label1", "Command1", "label3", "Label4"] := by
  decide

end NameDesk

end ScreenForms
