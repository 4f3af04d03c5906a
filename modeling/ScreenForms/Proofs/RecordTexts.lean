import Mathlib.Data.List.Forall2
import ScreenForms.Proofs.RecordLines

/-!
# Reading written records

The text of some written records is cut at their first lines and read section by section, so
there is one record for each of them, in the same order (`readAll_unlines`).
-/

namespace ScreenForms

open Text

namespace Record

/-! ## Sections -/

theorem cutAtDelimiters_append {body rest : List NumberedLine}
    (h : ∀ l ∈ body, isDelimiter l.1 = false) :
    cutAtDelimiters (body ++ rest) =
      (body ++ (cutAtDelimiters rest).1, (cutAtDelimiters rest).2) := by
  induction body with
  | nil => rfl
  | cons l body ih =>
    obtain ⟨hl, hbody⟩ := List.forall_mem_cons.mp h
    rw [List.cons_append, cutAtDelimiters, ih hbody]
    simp [hl]

/-- Sections that hold no delimiter are told apart by the delimiters in front of them. The induction
is on the sections, and the numbers of the lines play no part. -/
theorem cutAtDelimiters_sections {bodies : List (List (List Char))}
    (h : ∀ body ∈ bodies, ∀ l ∈ body, isDelimiter l = false) {numbered : List NumberedLine}
    (hlines : numbered.map Prod.fst = bodies.flatMap fun body => "[ RECORD]".toList :: body) :
    (cutAtDelimiters numbered).1 = [] ∧
      (cutAtDelimiters numbered).2.map (fun s => s.2.map Prod.fst) = bodies := by
  induction bodies generalizing numbered with
  | nil =>
    rw [List.map_eq_nil_iff.mp hlines]
    exact ⟨rfl, rfl⟩
  | cons body bodies ih =>
    obtain ⟨hbody, hbodies⟩ := List.forall_mem_cons.mp h
    rw [List.flatMap_cons, List.cons_append] at hlines
    obtain ⟨⟨line, n⟩, rest, rfl, hline, hrest⟩ := List.map_eq_cons_iff.mp hlines
    obtain ⟨own, others, rfl, hown, hothers⟩ := List.map_eq_append_iff.mp hrest
    obtain ⟨hnone, hsections⟩ := ih hbodies hothers
    have hdelimiter : isDelimiter line = true := by
      rw [show line = "[ RECORD]".toList from hline]
      decide
    have hcalm : ∀ l ∈ own, isDelimiter l.1 = false := by
      intro l hl
      exact hbody l.1 (hown ▸ List.mem_map_of_mem hl)
    rw [cutAtDelimiters, cutAtDelimiters_append hcalm, hnone]
    simp [hdelimiter, hsections, hown]

end Record

namespace WrittenRecord

open Record

/-- A record is what is read of a written one; its line, its methods and its id are open. -/
def ReadAs (w : WrittenRecord) (r : Record) : Prop :=
  ∃ line methods id, r = { w.asRead with line, methods, id }

namespace ReadAs

variable {w : WrittenRecord} {r : Record} (h : w.ReadAs r)
include h

theorem property?_eq (name : String) : r.property? name = w.asRead.property? name := by
  obtain ⟨line, methods, id, rfl⟩ := h
  rfl

theorem text?_eq (name : String) : r.text? name = w.asRead.text? name := by
  rw [text?, text?, h.property?_eq]

theorem flag?_eq (name : String) : r.flag? name = w.asRead.flag? name := by
  rw [flag?, flag?, h.property?_eq]

theorem number?_eq (names : List String) : r.number? names = w.asRead.number? names := by
  unfold number?
  simp only [h.property?_eq]

end ReadAs

theorem exists_readSection {w : WrittenRecord} (h : w.Readable) (line : Nat)
    {body : List NumberedLine} (hbody : body.map Prod.fst = writtenLines w.sectionTexts) :
    ∃ methods, (readSection (some { line }) body).record = some { w.asRead with line, methods } := by
  obtain ⟨hmode, methods, hrecord⟩ := (leads_sectionTexts h line).run body
    { record := some { line } } hbody ⟨rfl, [], rfl⟩
  refine ⟨methods, ?_⟩
  rw [readSection, Draft.finish, if_neg (by rw [hmode]; decide), hrecord]

theorem isNamed_asRead {w : WrittenRecord} (h : trim w.name.toList ≠ []) (line : Nat)
    (methods : List RecordMethod) : isNamed { w.asRead with line, methods } = true := by
  rw [isNamed]
  show (!(trim (trimmed w.name).toList).isEmpty) = true
  rw [toList_onChars, trim_trim]
  simpa using h

/-- What holds of the record that is read of the lines of a written one, holds of the records that
are read of all their sections. -/
theorem forall₂_readSections {Q : WrittenRecord → Record → Prop} {ws : List WrittenRecord}
    (h : ∀ w ∈ ws, ∀ line (body : List NumberedLine),
      body.map Prod.fst = writtenLines w.sectionTexts →
        ∃ r, (readSection (some { line }) body).record = some r ∧ isNamed r = true ∧ Q w r)
    {sections : List (Nat × List NumberedLine)}
    (hsections : sections.map (fun s => s.2.map Prod.fst) =
      ws.map fun w => writtenLines w.sectionTexts) :
    List.Forall₂ Q ws (((sections.map fun s => readSection (some { line := s.1 }) s.2).filterMap
      Draft.record).filter isNamed) := by
  induction ws generalizing sections with
  | nil =>
    rw [List.map_eq_nil_iff.mp hsections]
    exact .nil
  | cons w ws ih =>
    obtain ⟨hw, hws⟩ := List.forall_mem_cons.mp h
    obtain ⟨⟨line, body⟩, rest, rfl, hbody, hrest⟩ := List.map_eq_cons_iff.mp hsections
    obtain ⟨r, hread, hnamed, hr⟩ := hw line body hbody
    rw [List.map_cons, List.filterMap_cons_some hread, List.filter_cons_of_pos hnamed]
    exact .cons hr (ih hws hrest)

theorem writtenLines_flatMap_lines (ws : List WrittenRecord) :
    writtenLines (ws.flatMap WrittenRecord.lines) =
      (ws.map fun w => writtenLines w.sectionTexts).flatMap
        fun body => "[ RECORD]".toList :: body := by
  induction ws with
  | nil => rfl
  | cons w ws ih =>
    rw [List.flatMap_cons, writtenLines_append, ih, lines_eq]
    rfl

theorem forall₂_zipIdx {α β : Type} {R : α → β → Prop} {l : List α} {m : List β}
    (h : List.Forall₂ R l m) (n : Nat) : List.Forall₂ (fun a b => R a b.1) l (m.zipIdx n) := by
  induction h generalizing n with
  | nil => exact .nil
  | cons hab _ ih => exact .cons hab (ih (n + 1))

/-- The lines of a written text are those that were written. -/
theorem readAll_unlines_eq (texts : List String) :
    readAll (unlines texts) = readLines ((writtenLines texts).zipIdx 1) := by
  rw [readAll, numberedLines, lines_unlines]

/-- Every written record is read; what holds of it whatever its id holds of what is read. -/
theorem forall₂_readAll {Q : WrittenRecord → Record → Prop} {ws : List WrittenRecord}
    (hcalm : ∀ w ∈ ws, ∀ l ∈ writtenLines w.sectionTexts, isDelimiter l = false)
    (hread : ∀ w ∈ ws, ∀ line (body : List NumberedLine),
      body.map Prod.fst = writtenLines w.sectionTexts →
        ∃ r, (readSection (some { line }) body).record = some r ∧ isNamed r = true ∧ Q w r)
    (hid : ∀ w r id, Q w r → Q w { r with id }) :
    List.Forall₂ Q ws (readAll (unlines (ws.flatMap WrittenRecord.lines))).records := by
  have hlines : ((writtenLines (ws.flatMap WrittenRecord.lines)).zipIdx 1).map Prod.fst =
      (ws.map fun w => writtenLines w.sectionTexts).flatMap
        fun body => "[ RECORD]".toList :: body := by
    rw [List.zipIdx_map_fst, writtenLines_flatMap_lines]
  have hcalm' : ∀ body ∈ ws.map fun w => writtenLines w.sectionTexts,
      ∀ l ∈ body, isDelimiter l = false := by
    intro body hbody
    obtain ⟨w, hw, rfl⟩ := List.mem_map.mp hbody
    exact hcalm w hw
  obtain ⟨hnone, hsections⟩ := cutAtDelimiters_sections hcalm' hlines
  have hall := forall₂_readSections hread hsections
  rw [readAll_unlines_eq]
  unfold readLines
  dsimp only
  rw [hnone, List.filterMap_cons_none (by rfl)]
  exact List.forall₂_map_right_iff.mpr ((forall₂_zipIdx hall 0).imp fun w r hr => hid w r.1 _ hr)

/-- Every written record is read. -/
theorem readAll_unlines {ws : List WrittenRecord}
    (h : ∀ w ∈ ws, w.Readable ∧ trim w.name.toList ≠ []) :
    List.Forall₂ ReadAs ws (readAll (unlines (ws.flatMap WrittenRecord.lines))).records := by
  refine forall₂_readAll (fun w hw => (leads_sectionTexts (h w hw).1 0).calm) ?_ ?_
  · intro w hw line body hbody
    obtain ⟨methods, hread⟩ := exists_readSection (h w hw).1 line hbody
    exact ⟨_, hread, isNamed_asRead (h w hw).2 line methods, line, methods, _, rfl⟩
  · rintro w r id ⟨line, methods, _, rfl⟩
    exact ⟨line, methods, id, rfl⟩

end WrittenRecord

end ScreenForms
