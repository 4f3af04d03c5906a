import Mathlib.Data.List.Forall2
import ScreenForms.Program.Handler
import ScreenForms.Proofs.EventRuns
import ScreenForms.Proofs.Folding

/-!
# Names that meet in a program

Names are made fit for programs character by character, and every character that is neither a
letter nor a numeral becomes an underscore. So names that differ in a document can be the same in
a program. `Code.identifier_eq_iff` says which do. Two controls have one member exactly where
their names are spelled alike or where the one gets the underscore that the other has already
(`Code.memberName_eq_iff`); two handlers have one name exactly where owner and event are spelled
alike or where an underscore inside of them is taken for the one between them
(`Code.handlerName_eq_iff`).
-/

namespace ScreenForms

open NameRegistry

namespace Code

/-! ## Spelling -/

/-- Two characters are the same in a program. -/
def Alike (c d : Char) : Prop :=
  c = d ∨ (Text.isLetterOrNumeral c = false ∧ Text.isLetterOrNumeral d = false)

/-- A name with an underscore in front where it is empty or starts with an ASCII digit. -/
def fronted : List Char → List Char
  | [] => ['_']
  | c :: cs => if c.isDigit then '_' :: c :: cs else c :: cs

/-- Two names are the same in a program, character by character. -/
def SpelledAlike (a b : String) : Prop := List.Forall₂ Alike (fronted a.toList) (fronted b.toList)

/-- What a character of a name becomes in a program. -/
def fit (c : Char) : Char := if Text.isLetterOrNumeral c || c == '_' then c else '_'

theorem fit_eq_iff {c d : Char} : fit c = fit d ↔ Alike c d := by
  have hunderscore : Text.isLetterOrNumeral '_' = false := by decide
  have hfit : ∀ c, fit c = if Text.isLetterOrNumeral c then c else '_' := by
    intro c
    by_cases h : c = '_' <;> simp [fit, h]
  rw [hfit, hfit, Alike]
  by_cases hc : Text.isLetterOrNumeral c <;> by_cases hd : Text.isLetterOrNumeral d
  · simp [hc, hd]
  · have hne : c ≠ '_' := by
      rintro rfl
      simp [hunderscore] at hc
    have hcd : c ≠ d := fun h => hd (h ▸ hc)
    simp [hc, hd, hne, hcd]
  · have hne : '_' ≠ d := by
      rintro rfl
      simp [hunderscore] at hd
    have hcd : c ≠ d := fun h => hc (h ▸ hd)
    simp [hc, hd, hne, hcd]
  · simp [hc, hd]

theorem isLetterOrNumeral_of_isDigit {c : Char} (h : c.isDigit = true) :
    Text.isLetterOrNumeral c = true :=
  Text.isLetterOrNumeral_of_isAlphanum (by simp [Char.isAlphanum, h])

theorem identifierChars_eq (cs : List Char) : identifierChars cs = (fronted cs).map fit := by
  have hdigit : ∀ c, (fit c).isDigit = c.isDigit := by
    intro c
    by_cases h : Text.isLetterOrNumeral c || c == '_'
    · simp [fit, h]
    · have hc : c.isDigit = false := by
        rw [Bool.eq_false_iff]
        intro hc
        simp [isLetterOrNumeral_of_isDigit hc] at h
      simp [fit, h, hc]
  cases cs with
  | nil => decide
  | cons c cs =>
    have hmap : identifierChars (c :: cs) =
        if (fit c).isDigit then '_' :: (c :: cs).map fit else (c :: cs).map fit := rfl
    have hfront : fit '_' = '_' := by decide
    -- the underscore in front can be put before or after the characters are made fit
    rw [hmap, hdigit, fronted]
    split <;> simp [hfront]

/-- Names become the same exactly where they are spelled alike. -/
theorem identifier_eq_iff {a b : String} : identifier a = identifier b ↔ SpelledAlike a b := by
  rw [identifier, identifier, Text.onChars, Text.onChars, String.ofList_inj, identifierChars_eq,
    identifierChars_eq, ← List.forall₂_eq_eq_eq, List.forall₂_map_left_iff,
    List.forall₂_map_right_iff, SpelledAlike]
  simp only [fit_eq_iff]

instance (a b : String) : Decidable (SpelledAlike a b) :=
  decidable_of_iff _ identifier_eq_iff

/-! ## Members -/

/-- Two controls become one member: their names are spelled alike, or one of them is spelled like
a member of the window, which gets an underscore behind it, and the other has the underscore
already. -/
def MembersMeet (target : Target) (a b : String) : Prop :=
  SpelledAlike a b ∨ ∃ w ∈ reservedMembers target,
    (SpelledAlike a w ∧ SpelledAlike b (w ++ "_")) ∨ (SpelledAlike b w ∧ SpelledAlike a (w ++ "_"))

instance (target : Target) (a b : String) : Decidable (MembersMeet target a b) :=
  inferInstanceAs (Decidable (_ ∨ _))

/-- The members of a window are names of programs, and none is another one with an underscore. -/
theorem reserved_spelling {target : Target} {w : String} (h : w ∈ reservedMembers target) :
    identifier w = w ∧ identifier (w ++ "_") = w ++ "_" ∧ w ++ "_" ∉ reservedMembers target := by
  have hall : ∀ target, ∀ w ∈ reservedMembers target, identifier w = w ∧
      identifier (w ++ "_") = w ++ "_" ∧ w ++ "_" ∉ reservedMembers target := by
    rintro (_ | _ | _ | _) <;> decide +kernel
  exact hall target w h

/-- Names meet in the terms of what they become. -/
theorem membersMeet_iff {target : Target} {a b : String} :
    MembersMeet target a b ↔ identifier a = identifier b ∨
      (identifier a ∈ reservedMembers target ∧ identifier b = identifier a ++ "_") ∨
        (identifier b ∈ reservedMembers target ∧ identifier a = identifier b ++ "_") := by
  rw [MembersMeet, ← identifier_eq_iff]
  refine or_congr_right ⟨?_, ?_⟩
  · rintro ⟨w, hw, h⟩
    obtain ⟨hself, hlonger, -⟩ := reserved_spelling hw
    simp only [← identifier_eq_iff, hself, hlonger] at h
    rcases h with ⟨rfl, h⟩ | ⟨rfl, h⟩
    · exact .inl ⟨hw, h⟩
    · exact .inr ⟨hw, h⟩
  · rintro (⟨hw, h⟩ | ⟨hw, h⟩)
    all_goals
      obtain ⟨hself, hlonger, -⟩ := reserved_spelling hw
      refine ⟨_, hw, ?_⟩
      simp only [← identifier_eq_iff, hself, hlonger, h, and_true, true_or, or_true]

/-- Two controls become one member exactly where their names meet. Only a reserved name is changed,
and what comes out of that is no reserved name, so that one change is enough. -/
theorem memberName_eq_iff {target : Target} {a b : String} :
    memberName target a = memberName target b ↔ MembersMeet target a b := by
  rw [membersMeet_iff]
  simp only [memberName]
  generalize identifier a = s
  generalize identifier b = t
  have hlonger : ∀ {w : String}, w ++ "_" ∈ reservedMembers target → w ∉ reservedMembers target :=
    fun h hw => (reserved_spelling hw).2.2 h
  -- only a name that is reserved gets an underscore, and the name that comes out is not reserved
  by_cases hs : s ∈ reservedMembers target <;> by_cases ht : t ∈ reservedMembers target
  · have hts : t ≠ s ++ "_" := by
      rintro rfl
      exact hlonger ht hs
    have hst : s ≠ t ++ "_" := by
      rintro rfl
      exact hlonger hs ht
    simp [hs, ht, hst, hts]
  · have hst : s ≠ t := fun h => ht (h ▸ hs)
    simp [hs, ht, hst, eq_comm]
  · have hst : s ≠ t := fun h => hs (h ▸ ht)
    simp [hs, ht, hst]
  · simp [hs, ht]

/-! ## Handlers -/

/-- The owner of a handler and the beginning of its event are together the owner of another one, for
the rest of the event. -/
def EventReachesOver (owner event owner' event' : String) : Prop :=
  ∃ stem, identifier owner' = identifier owner ++ "_" ++ stem ∧
    identifier event = stem ++ "_" ++ identifier event'

/-- Two handlers get one name. -/
def HandlersMeet (owner event owner' event' : String) : Prop :=
  (SpelledAlike owner owner' ∧ SpelledAlike event event') ∨
    EventReachesOver owner event owner' event' ∨ EventReachesOver owner' event' owner event

theorem handlerName_eq_iff {owner event owner' event' : String} :
    handlerName owner event = handlerName owner' event' ↔
      HandlersMeet owner event owner' event' := by
  rw [HandlersMeet, ← identifier_eq_iff, ← identifier_eq_iff]
  exact eventKey_eq_iff

end Code

namespace Document

/-- The name of the owner of a handler. -/
def ownerNameOf (doc : Document) (h : Handler) : String :=
  (h.owner.map Control.name).getD doc.window.name

theorem name_of_mem_handlers {doc : Document} {h : Handler} (hmem : h ∈ doc.handlers) :
    h.name = Code.handlerName (doc.ownerNameOf h) h.event := by
  have howner : ∀ {owner}, h ∈ doc.handlersOf owner →
      h.name = Code.handlerName (doc.ownerNameOf h) h.event := by
    intro owner hmem
    obtain ⟨b, -, rfl⟩ := List.mem_map.mp hmem
    rfl
  rcases List.mem_append.mp hmem with hmem | hmem
  · exact howner hmem
  · obtain ⟨p, -, hmem⟩ := List.mem_flatMap.mp hmem
    exact howner hmem

/-- Controls become different members exactly where no two names meet, and handlers for different
owners or events get different names exactly where no two of them meet. -/
theorem names_apart_iff (doc : Document) (target : Target) :
    ((doc.controls.Pairwise fun c d =>
        Code.memberName target c.name ≠ Code.memberName target d.name) ↔
          doc.controls.Pairwise fun c d => ¬ Code.MembersMeet target c.name d.name) ∧
      ((∀ h ∈ doc.handlers, ∀ h' ∈ doc.handlers, (h.owner, h.event) ≠ (h'.owner, h'.event) →
          h.name ≠ h'.name) ↔
        ∀ h ∈ doc.handlers, ∀ h' ∈ doc.handlers, (h.owner, h.event) ≠ (h'.owner, h'.event) →
          ¬ Code.HandlersMeet (doc.ownerNameOf h) h.event (doc.ownerNameOf h') h'.event) := by
  constructor
  · simp only [ne_eq, Code.memberName_eq_iff]
  · refine forall₂_congr fun h hmem => forall₂_congr fun h' hmem' => imp_congr_right fun _ => ?_
    rw [name_of_mem_handlers hmem, name_of_mem_handlers hmem', ne_eq, Code.handlerName_eq_iff]

/-- Two controls named like a member of the window, with and without an underscore, and two whose
names and events have an underscore in different places. -/
def meetingNames : Document where
  controls := [
    { id := "w1", kind := .textbox, name := "root" },
    { id := "w2", kind := .textbox, name := "root_" },
    { id := "w3", kind := .button, name := "a" }, { id := "w4", kind := .button, name := "a_B" }]
  events := SortedMap.ofList [
    ("w3_B_C", ⟨"w3", "B_C", "x = 1"⟩), ("w4_C", ⟨"w4", "C", "x = 2"⟩)]

/-- Names that differ in a document can be one name in a program. -/
theorem names_meet :
    meetingNames.validate = .ok () ∧
      ((meetingNames.window.name :: meetingNames.controls.map Control.name).map fold).Nodup ∧
      (meetingNames.events.values.map EventBinding.pair).Nodup ∧
      ¬ (meetingNames.controls.map fun c => Code.memberName .tkinter c.name).Nodup ∧
      ∃ h ∈ meetingNames.handlers, ∃ h' ∈ meetingNames.handlers,
        (h.owner, h.event) ≠ (h'.owner, h'.event) ∧ h.name = h'.name := by
  decide +kernel

end Document

end ScreenForms
