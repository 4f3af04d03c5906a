import ScreenForms.Proofs.Drafts
import ScreenForms.Proofs.LineBreaks

/-!
# Reading records part by part

`readLines` cuts its lines at the delimiters and reads every section on its own. A reader that goes
through the lines once, and carries its records, its mode and its open block of methods over from
line to line, reads the same (`scan_eq_readLines`): nothing it carries has a part in what follows a
delimiter. So the records of a text that opens with a delimiter are read alike behind any other
text; only their lines and ids follow their place (`readLines_append`).
-/

namespace ScreenForms

open Text

namespace Record

/-! ## Records with their ids -/

/-- The records with the ids they have when `position` records stand before them. -/
def withIds (position : Nat) (records : List Record) : List Record :=
  (records.zipIdx position).map fun r => { r.1 with id := contentId (identity r.2 r.1) }

theorem withIds_cons (position : Nat) (r : Record) (records : List Record) :
    withIds position (r :: records) =
      { r with id := contentId (identity position r) } :: withIds (position + 1) records := rfl

/-- Identities depend on the position, so that later records are numbered after the earlier ones. -/
theorem withIds_append (position : Nat) (records others : List Record) :
    withIds position (records ++ others) =
      withIds position records ++ withIds (position + records.length) others := by
  rw [withIds, List.zipIdx_append, List.map_append]
  rfl

@[simp] theorem length_withIds (position : Nat) (records : List Record) :
    (withIds position records).length = records.length := by
  rw [withIds, List.length_map, List.length_zipIdx]

/-- Ids are given last: what does not read them is not changed by them. -/
theorem map_withIds {α : Type} {f : Record → α} (hf : ∀ r id, f { r with id := id } = f r)
    (position : Nat) (records : List Record) :
    (withIds position records).map f = records.map f := by
  induction records generalizing position with
  | nil => rfl
  | cons r records ih => rw [withIds_cons, List.map_cons, List.map_cons, hf, ih]

/-- The drafts of a source whose first lines go on with a draft: that draft when it is finished,
and one for each delimiter. -/
def draftsFrom (d : Draft) (source : List NumberedLine) : List Draft :=
  ((cutAtDelimiters source).1.foldl Draft.step d).finish ::
    (cutAtDelimiters source).2.map fun s => readSection (some { line := s.1 }) s.2

/-- The draft of the section that a delimiter on a line opens. -/
def opened (line : Nat) : Draft := { record := some { line } }

/-- A line either starts a new draft or is taken into the open one. -/
theorem draftsFrom_cons (d : Draft) (l : NumberedLine) (source : List NumberedLine) :
    draftsFrom d (l :: source) =
      if isDelimiter l.1 then d.finish :: draftsFrom (opened l.2) source
      else draftsFrom (d.step l) source := by
  rw [draftsFrom, cutAtDelimiters]
  dsimp only
  split_ifs <;> rfl

/-- The records of some drafts that name their object. -/
def namedRecords (ds : List Draft) : List Record := (ds.filterMap Draft.record).filter isNamed

/-- Reading lines means dividing them into drafts, keeping those with a name and numbering them. -/
theorem readLines_eq (source : List NumberedLine) :
    readLines source =
      ⟨withIds 0 (namedRecords (draftsFrom { record := none } source)),
        (draftsFrom { record := none } source).flatMap Draft.diagnostics⟩ := rfl

theorem namedRecords_cons (d : Draft) (ds : List Draft) :
    namedRecords (d :: ds) = d.record.toList.filter isNamed ++ namedRecords ds := by
  rw [namedRecords, List.filterMap_cons]
  rcases d.record with _ | r
  · rfl
  · exact List.filter_append [r] _

/-- Drafts without a name are dropped one by one. -/
theorem namedRecords_append (ds others : List Draft) :
    namedRecords (ds ++ others) = namedRecords ds ++ namedRecords others := by
  rw [namedRecords, List.filterMap_append, List.filter_append]
  rfl

/-- A section gives one record when it acquires a name, and none otherwise. -/
theorem line_objName_namedRecords (sections : List (Nat × List NumberedLine)) :
    (namedRecords (sections.map fun s => readSection (some { line := s.1 }) s.2)).map
        (fun r => (r.line, r.objName)) =
      (sections.map fun s => (s.1, acquiredName s.1 s.2)).filter
        fun s => !(trim s.2.toList).isEmpty := by
  induction sections with
  | nil => rfl
  | cons s sections ih =>
    obtain ⟨r, hrecord, hline, hname⟩ := hasName_readSection s.1 s.2
    have hnamed : isNamed r = !(trim (acquiredName s.1 s.2).toList).isEmpty := by
      rw [isNamed, hname]
    rw [List.map_cons, List.map_cons, namedRecords, List.filterMap_cons_some hrecord,
      List.filter_cons, List.filter_cons, hnamed]
    split
    · rw [List.map_cons, hline, hname]
      exact congrArg _ ih
    · exact ih

/-- The records of a source are those of the sections that acquire a name. -/
theorem line_objName_readLines (source : List NumberedLine) :
    (readLines source).records.map (fun r => (r.line, r.objName)) =
      ((cutAtDelimiters source).2.map fun s => (s.1, acquiredName s.1 s.2)).filter
        fun s => !(trim s.2.toList).isEmpty := by
  have hnone : namedRecords (draftsFrom { record := none } source) =
      namedRecords ((cutAtDelimiters source).2.map
        fun s => readSection (some { line := s.1 }) s.2) := by
    rw [draftsFrom, namedRecords_cons, ← readSection, record_readSection_none]
    rfl
  rw [readLines_eq, map_withIds fun _ _ => rfl, hnone, line_objName_namedRecords]

/-! ## One pass over the lines -/

/-- What a reader carries from line to line: the records it has finished and the draft of the
section it is in. -/
structure Scan where
  records : List Record := []
  draft : Draft := { record := none }

namespace Scan

/-- Finishes the section and keeps its record if that has a name. The remarks stay with the
reader. -/
def flush (s : Scan) : Scan :=
  let d := s.draft.finish
  { records := s.records ++ withIds s.records.length (d.record.toList.filter isNamed)
    draft := { d with record := none, mode := .header } }

/-- Opens a record on a line. -/
def openRecord (s : Scan) (line : Nat) : Scan :=
  { s with draft := { s.draft with record := some { line } } }

/-- Reads one line: a delimiter finishes the section and opens a record. -/
def step (s : Scan) (l : NumberedLine) : Scan :=
  if isDelimiter l.1 then s.flush.openRecord l.2 else { s with draft := s.draft.step l }

end Scan

/-- Reads the lines of a source one after another. -/
def scan (source : List NumberedLine) : Listing :=
  let s := (source.foldl Scan.step {}).flush
  { records := s.records, diagnostics := s.draft.diagnostics }

namespace Scan

/-- The drafts behind earlier remarks: they have the same records, and the remarks come first. -/
theorem draftsFrom_behind (before : List Diagnostic) (d : Draft) (source : List NumberedLine) :
    (draftsFrom (d.placed before 0) source).filterMap Draft.record =
        (draftsFrom d source).filterMap Draft.record ∧
      (draftsFrom (d.placed before 0) source).flatMap Draft.diagnostics =
        before ++ (draftsFrom d source).flatMap Draft.diagnostics := by
  have hbody : ∀ body : List NumberedLine, body.map (fun l => (l.1, l.2 + 0)) = body :=
    List.map_id
  have hfirst : ((cutAtDelimiters source).1.foldl Draft.step (d.placed before 0)).finish =
      (((cutAtDelimiters source).1.foldl Draft.step d).finish).placed before 0 := by
    rw [← Draft.finish_placed, ← Draft.foldl_step_placed, hbody]
  unfold draftsFrom
  rw [hfirst]
  constructor
  · simp [List.filterMap_cons]
  · simp [Draft.placed]

/-- The section that begins at a delimiter carries nothing over but the earlier remarks. -/
theorem openRecord_flush {s : Scan} (h : s.draft.IsTidy) (line : Nat) :
    s.flush.openRecord line =
      { records := s.records ++
          withIds s.records.length (s.draft.finish.record.toList.filter isNamed)
        draft := (opened line).placed s.draft.finish.diagnostics 0 } := by
  rw [openRecord, flush, h.methodLines_finish]
  simp [Draft.placed, opened, shifted]

/-- A run keeps the records it starts with and adds those of the sections it goes through. This
relates the one pass over the lines to the sections, for a scan in any state. -/
theorem flush_foldl_step {s : Scan} (h : s.draft.IsTidy) (source : List NumberedLine) :
    (source.foldl step s).flush =
      { records := s.records ++ withIds s.records.length (namedRecords (draftsFrom s.draft source))
        draft := { record := none
                   diagnostics := (draftsFrom s.draft source).flatMap Draft.diagnostics } } := by
  induction source generalizing s with
  | nil =>
    rw [draftsFrom, cutAtDelimiters, namedRecords_cons, List.foldl_nil, flush, h.methodLines_finish]
    simp [namedRecords]
  | cons l source ih =>
    rw [List.foldl_cons, draftsFrom_cons, step]
    split_ifs with hl
    · obtain ⟨hrecords, hdiagnostics⟩ :=
        draftsFrom_behind s.draft.finish.diagnostics (opened l.2) source
      rw [openRecord_flush h, ih fun _ => rfl, namedRecords, hrecords, ← namedRecords, hdiagnostics,
        namedRecords_cons, withIds_append, List.flatMap_cons]
      simp
    · exact ih (h.step l)

end Scan

/-- One pass over the lines reads what is read section by section. -/
theorem scan_eq_readLines (source : List NumberedLine) : scan source = readLines source := by
  rw [scan, Scan.flush_foldl_step fun _ => rfl, readLines_eq]
  simp

/-! ## Texts one after another -/

/-- A text that starts with a delimiter is cut as it would be alone. -/
theorem cutAtDelimiters_append_of_nil (source : List NumberedLine) {rest : List NumberedLine}
    (h : (cutAtDelimiters rest).1 = []) :
    cutAtDelimiters (source ++ rest) =
      ((cutAtDelimiters source).1, (cutAtDelimiters source).2 ++ (cutAtDelimiters rest).2) := by
  induction source with
  | nil => rw [List.nil_append, cutAtDelimiters, ← h, List.nil_append]
  | cons l source ih =>
    rw [List.cons_append, cutAtDelimiters, cutAtDelimiters, ih]
    dsimp only
    split_ifs <;> rfl

/-- Cutting does not look at the numbers of the lines. -/
theorem cutAtDelimiters_shifted (n : Nat) (source : List NumberedLine) :
    cutAtDelimiters (source.map fun l => (l.1, l.2 + n)) =
      ((cutAtDelimiters source).1.map fun l => (l.1, l.2 + n),
        (cutAtDelimiters source).2.map fun s => (s.1 + n, s.2.map fun l => (l.1, l.2 + n))) := by
  induction source with
  | nil => rfl
  | cons l source ih =>
    rw [List.map_cons, cutAtDelimiters, cutAtDelimiters, ih]
    dsimp only
    split_ifs <;> rfl

/-- Nor does reading a section, apart from the numbers it hands on to the record and to the
diagnostics. -/
theorem readSection_shifted (n : Nat) (line : Nat) (body : List NumberedLine) :
    readSection (some { line := line + n }) (body.map fun l => (l.1, l.2 + n)) =
      (readSection (some { line }) body).placed [] n := by
  rw [readSection, readSection, ← Draft.finish_placed, ← Draft.foldl_step_placed]
  rfl

/-- The drafts of lines that open with a delimiter, behind other lines. -/
theorem draftsFrom_append (d : Draft) (source : List NumberedLine) {rest : List NumberedLine}
    (h : (cutAtDelimiters rest).1 = []) (n : Nat) :
    draftsFrom d (source ++ rest.map fun l => (l.1, l.2 + n)) =
      draftsFrom d source ++ (draftsFrom { record := none } rest).tail.map (Draft.placed [] n) := by
  have hshifted : (cutAtDelimiters (rest.map fun l => (l.1, l.2 + n))).1 = [] := by
    rw [cutAtDelimiters_shifted, h]
    rfl
  unfold draftsFrom
  rw [cutAtDelimiters_append_of_nil source hshifted, cutAtDelimiters_shifted, List.tail_cons,
    List.map_append, List.cons_append, List.map_map, List.map_map]
  refine congrArg _ (congrArg _ (List.map_congr_left fun s _ => ?_))
  exact readSection_shifted n s.1 s.2

/-- Drafts that stand further down give records that stand further down. -/
theorem namedRecords_placed (n : Nat) (ds : List Draft) :
    namedRecords (ds.map (Draft.placed [] n)) = (namedRecords ds).map (shifted n) := by
  induction ds with
  | nil => rfl
  | cons d ds ih =>
    rw [List.map_cons, namedRecords_cons, namedRecords_cons, ih, List.map_append, Draft.record_placed]
    rcases d.record with _ | r
    · rfl
    · have hnamed : isNamed (shifted n r) = isNamed r := rfl
      by_cases hr : isNamed r <;> simp [hr, hnamed]

/-- The same is true of their diagnostics. -/
theorem diagnostics_placed (n : Nat) (ds : List Draft) :
    (ds.map (Draft.placed [] n)).flatMap Draft.diagnostics =
      (ds.flatMap Draft.diagnostics).map (Diagnostic.shifted n) := by
  rw [List.flatMap_map, List.map_flatMap]
  rfl

/-- Ids are computed anew from the place of a record. -/
theorem withIds_shifted (n position other : Nat) (records : List Record) :
    withIds position ((withIds other records).map (shifted n)) =
      withIds position (records.map (shifted n)) := by
  induction records generalizing position other with
  | nil => rfl
  | cons r records ih =>
    rw [withIds_cons, List.map_cons, List.map_cons, withIds_cons, withIds_cons, ih]
    rfl

/-- Lines that open with a delimiter are read behind other lines as they are read alone. Only the
numbers of lines and the positions of records are shifted. -/
theorem readLines_append (source : List NumberedLine) {rest : List NumberedLine}
    (h : (cutAtDelimiters rest).1 = []) (n : Nat) :
    readLines (source ++ rest.map fun l => (l.1, l.2 + n)) =
      { records := (readLines source).records ++
          withIds (readLines source).records.length ((readLines rest).records.map (shifted n))
        diagnostics := (readLines source).diagnostics ++
          (readLines rest).diagnostics.map (Diagnostic.shifted n) } := by
  have hrest : draftsFrom { record := none } rest =
      { record := none } :: (draftsFrom { record := none } rest).tail := by
    rw [draftsFrom, h]
    rfl
  have hrecords : namedRecords (draftsFrom { record := none } rest).tail =
      namedRecords (draftsFrom { record := none } rest) := by
    rw [hrest]
    rfl
  have hdiagnostics : (draftsFrom { record := none } rest).tail.flatMap Draft.diagnostics =
      (draftsFrom { record := none } rest).flatMap Draft.diagnostics := by
    rw [hrest]
    rfl
  rw [readLines_eq, readLines_eq, readLines_eq, draftsFrom_append _ _ h, namedRecords_append,
    withIds_append, namedRecords_placed, List.flatMap_append, diagnostics_placed, hrecords,
    hdiagnostics]
  simp [withIds_shifted]

/-! ## Whole sources -/

/-- Lines of the second text are numbered from where the first one ended, which has to be the end of
a line. -/
theorem numberedLines_append {a b : String} (ha : a = "" ∨ a.toList.getLast? = some '\n') :
    numberedLines (a ++ b) =
      numberedLines a ++ (numberedLines b).map fun l => (l.1, l.2 + (lines a.toList).length) := by
  have hlines : lines (a ++ b).toList = lines a.toList ++ lines b.toList := by
    rw [String.toList_append]
    rcases ha with rfl | ha
    · rfl
    · obtain ⟨front, hfront⟩ := List.getLast?_eq_some_iff.mp ha
      rw [hfront, List.append_assoc]
      exact lines_append_append front b.toList
  rw [numberedLines, hlines, List.zipIdx_append, Nat.add_comm 1]
  exact congrArg _ (List.map_snd_add_zipIdx_eq_zipIdx).symm

/-- A text whose first line is a delimiter has nothing in front of its first section. -/
theorem cutAtDelimiters_numberedLines {b : String}
    (hb : (lines b.toList).head?.map trim = some "[ RECORD]".toList) :
    (cutAtDelimiters (numberedLines b)).1 = [] := by
  obtain ⟨first, hfirst, htrim⟩ := Option.map_eq_some_iff.mp hb
  obtain ⟨rest, hlines⟩ := List.head?_eq_some_iff.mp hfirst
  rw [numberedLines, hlines, List.zipIdx_cons, cutAtDelimiters]
  dsimp only
  rw [if_pos (by rw [isDelimiter, htrim]; exact beq_self_eq_true _)]

/-- Reading is compositional: a text that opens with a delimiter is read behind any other text as
it is read alone, in one pass over the lines as well as section by section. Only the lines of its
records and remarks and the ids of its records follow their place. A section gives one record when
it acquires an object name, and none otherwise. -/
theorem readAll_append {a b : String} (ha : a = "" ∨ a.toList.getLast? = some '\n')
    (hb : (lines b.toList).head?.map trim = some "[ RECORD]".toList) :
    readAll (a ++ b) =
        { records := (readAll a).records ++ withIds (readAll a).records.length
            ((readAll b).records.map (shifted (lines a.toList).length))
          diagnostics := (readAll a).diagnostics ++
            (readAll b).diagnostics.map (Diagnostic.shifted (lines a.toList).length) } ∧
      (∀ source, scan (numberedLines source) = readAll source) ∧
      ∀ source, (readAll source).records.map (fun r => (r.line, r.objName)) =
        ((cutAtDelimiters (numberedLines source)).2.map fun s => (s.1, acquiredName s.1 s.2)).filter
          fun s => !(trim s.2.toList).isEmpty := by
  refine ⟨?_, fun source => scan_eq_readLines _, fun source => line_objName_readLines _⟩
  rw [readAll, numberedLines_append ha]
  exact readLines_append _ (cutAtDelimiters_numberedLines hb) _

/-- An open block of methods before the delimiter and a section without a name behind it. -/
theorem readAll_append_openMethods :
    (readAll ("stray\n[ RECORD]\n[OBJNAME] cmdOk\n[START METHODS]\nPROCEDURE Click\n" ++
        "[ RECORD]\n[CLASS] dataenvironment\n[ RECORD]\n[OBJNAME] lbl\nstray")).records.map
          (fun r => (r.line, r.objName)) = [(2, "cmdOk"), (8, "lbl")] ∧
      (readAll ("stray\n[ RECORD]\n[OBJNAME] cmdOk\n[START METHODS]\nPROCEDURE Click\n" ++
        "[ RECORD]\n[CLASS] dataenvironment\n[ RECORD]\n[OBJNAME] lbl\nstray")).diagnostics.map
          Diagnostic.line = [some 1, some 10] := by
  rw [(readAll_append (.inr (by decide)) (by decide)).1]
  simp only [readAll, numberedLines]
  rw [String.toList_ofList, String.toList_ofList]
  constructor <;> decide +kernel

end Record

end ScreenForms
