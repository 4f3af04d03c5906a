import ScreenForms.Proofs.ScreenWords
import ScreenForms.Screen.Program

/-!
# Where the lines of a program belong

A line of a screen program is a header, an end, or plain. The nearest header or end above a plain
line says to whom the line belongs: to the procedure of that header, or to the main body where it
is an end or there is none (`headerOver?`). The division of a program puts its lines exactly there
(`PlacesLines`), whatever stands in which order: headers that follow each other, ends without a
header, and lines between the procedures.
-/

namespace ScreenForms

namespace Screen

open Record (NumberedLine isNameStart isWordChar)

/-! ## The patterns of lines -/

/-- The words that open a procedure or a function, in full and cut short. -/
def headerWords : List String :=
  ["PROCEDURE", "PROCEDUR", "PROCEDU", "PROCED", "PROCE", "PROC",
    "FUNCTION", "FUNCTIO", "FUNCTI", "FUNCT", "FUNC"]

/-- The words that end a procedure or a function. -/
def endWords : List String := ["ENDPROC", "ENDFUNC"]

/-- A text with which no word goes on. -/
def BeginsNoWord (cs : List Char) : Prop := ∀ c, cs.head? = some c → isWordChar c = false

/-- A header: one of the words in any case, blanks, and a name, with blanks allowed in front and
anything behind. -/
def IsHeader (line name : List Char) : Prop :=
  ∃ lead word gap rest, line = lead ++ (word ++ (gap ++ (name ++ rest))) ∧
    (∀ c ∈ lead, Text.isAsciiBlank c = true) ∧ String.ofList (Text.upper word) ∈ headerWords ∧
      gap ≠ [] ∧ (∀ c ∈ gap, Text.isAsciiBlank c = true) ∧ IsIdentifier name ∧ BeginsNoWord rest

/-- An end: one of the words in any case, with blanks allowed in front and anything behind that is
not part of the word. -/
def IsEnd (line : List Char) : Prop :=
  ∃ lead word rest, line = lead ++ (word ++ rest) ∧ (∀ c ∈ lead, Text.isAsciiBlank c = true) ∧
    String.ofList (Text.upper word) ∈ endWords ∧ BeginsNoWord rest

/-- Header words are compared in capitals. -/
theorem isHeaderWord_iff {word : List Char} :
    isHeaderWord word = true ↔ String.ofList (Text.upper word) ∈ headerWords := by
  have hwords : headerWords.Perm
      ((spellings "PROCEDURE" ++ spellings "FUNCTION").map String.ofList) := by decide +kernel
  have hmem : ∀ s, s ∈ spellings "PROCEDURE" ++ spellings "FUNCTION" ↔
      String.ofList s ∈ headerWords := fun s => by
    rw [hwords.mem_iff, List.mem_map_of_injective fun _ _ => String.ofList_injective]
  rw [isHeaderWord, Bool.or_eq_true, isKeyword_iff, isKeyword_iff, ← List.mem_append, hmem]

theorem capitals_headerWords : Capitals headerWords := by
  simp [Capitals, headerWords]

theorem capitals_endWords : Capitals endWords := by
  simp [Capitals, endWords]

theorem not_isAsciiBlank_of_mem_word {words : List String} (hwords : Capitals words)
    {word : List Char} (h : String.ofList (Text.upper word) ∈ words) {c : Char} (hc : c ∈ word) :
    Text.isAsciiBlank c = false := by
  have hupper : c.toUpper.isUpper = true := by
    refine (hwords _ h).2 c.toUpper ?_
    rw [String.toList_ofList]
    exact List.mem_map_of_mem hc
  rw [Char.isUpper_toUpper_eq_isAlpha] at hupper
  exact Text.not_isAsciiBlank_of_not_isBlank
    (Text.not_isBlank_of_isAlphanum (by simp [Char.isAlphanum, hupper]))

/-- A word that is spelled with capital letters only begins with no blank. -/
theorem head?_word_append {words : List String} (hwords : Capitals words) {word : List Char}
    (hword : String.ofList (Text.upper word) ∈ words) (rest : List Char) :
    ∀ c, (word ++ rest).head? = some c → Text.isAsciiBlank c = false := by
  intro c hc
  cases word with
  | nil => exact absurd rfl (hwords _ hword).1
  | cons d word =>
    obtain rfl := Option.some.inj hc
    exact not_isAsciiBlank_of_mem_word hwords hword List.mem_cons_self

/-- What is read of a line in parts: blanks, a word, blanks, and the rest. -/
theorem readHeader?_append {lead word gap back name : List Char}
    (hlead : ∀ c ∈ lead, Text.isAsciiBlank c = true)
    (hstart : ∀ c, (word ++ (gap ++ back)).head? = some c → Text.isAsciiBlank c = false)
    (hword : ∀ c ∈ word, (!Text.isAsciiBlank c) = true)
    (hend : ∀ c, (gap ++ back).head? = some c → (!Text.isAsciiBlank c) = false)
    (hgap : ∀ c ∈ gap, Text.isAsciiBlank c = true)
    (hback : ∀ c, back.head? = some c → Text.isAsciiBlank c = false) :
    readHeader? (lead ++ (word ++ (gap ++ back))) = some name ↔
      ∃ c cs, back = c :: cs ∧ (isHeaderWord word = true ∧ isNameStart c = true) ∧
        name = c :: cs.takeWhile isWordChar := by
  unfold readHeader?
  simp only [span_append_of_head? hlead hstart, span_append_of_head? hword hend,
    span_append_of_head? hgap hback]
  cases back with
  | nil => simp
  | cons c cs =>
    rw [Option.ite_none_right_eq_some, Bool.and_eq_true, Option.some.injEq]
    constructor
    · rintro ⟨hfound, rfl⟩
      exact ⟨c, cs, rfl, hfound, rfl⟩
    · rintro ⟨_, _, ⟨⟩, hfound, rfl⟩
      exact ⟨hfound, rfl⟩

/-- The reader of headers accepts what the pattern of headers says, and takes the same name. -/
theorem readHeader?_eq_some_iff {line name : List Char} :
    readHeader? line = some name ↔ IsHeader line name := by
  constructor
  · intro h
    obtain ⟨lead, start, rfl, hlead, hstart⟩ := exists_run Text.isAsciiBlank line
    obtain ⟨word, behind, rfl, hword, hend⟩ := exists_run (fun c => !Text.isAsciiBlank c) start
    obtain ⟨gap, back, rfl, hgap, hback⟩ := exists_run Text.isAsciiBlank behind
    obtain ⟨c, cs, rfl, hfound, rfl⟩ :=
      (readHeader?_append hlead hstart hword hend hgap hback).mp h
    obtain ⟨name, rest, rfl, hcs, hrest⟩ := exists_run isWordChar cs
    rw [(span_append_of_head? hcs hrest).1]
    refine ⟨lead, word, gap, rest, rfl, hlead, isHeaderWord_iff.mp hfound.1, ?_, hgap,
      ⟨c, name, rfl, hfound.2, hcs⟩, hrest⟩
    -- without blanks the name would go on with the word
    rintro rfl
    have hsolid := hback c rfl
    have hblank := hend c rfl
    rw [hsolid] at hblank
    cases hblank
  · rintro ⟨lead, word, gap, rest, rfl, hlead, hword, hne, hgap, ⟨c, cs, rfl, hc, hcs⟩, hrest⟩
    have hname : Text.isAsciiBlank c = false := Text.not_isAsciiBlank_of_not_isBlank
      (Text.isSolid_iff.mp (isSolid_of_isWordChar (isWordChar_of_isNameStart hc))).1
    obtain ⟨b, gap, rfl⟩ := List.exists_cons_of_ne_nil hne
    refine (readHeader?_append hlead (head?_word_append capitals_headerWords hword _) ?_ ?_ hgap
      (head?_cons_eq_false hname _)).mpr ⟨c, cs ++ rest, rfl, ⟨isHeaderWord_iff.mpr hword, hc⟩, ?_⟩
    · intro d hd
      rw [not_isAsciiBlank_of_mem_word capitals_headerWords hword hd, Bool.not_false]
    · exact head?_cons_eq_false (by simp [hgap b List.mem_cons_self]) _
    · rw [(span_append_of_head? hcs hrest).1]

/-- The end of a procedure or function is found behind the blanks. -/
theorem isEndMarker_append {lead start : List Char}
    (hlead : ∀ c ∈ lead, Text.isAsciiBlank c = true)
    (hstart : ∀ c, start.head? = some c → Text.isAsciiBlank c = false) :
    isEndMarker (lead ++ start) = true ↔ ∃ w ∈ ["endproc", "endfunc"], ∃ rest,
      Text.dropLeadNoCase? w.toList start = some rest ∧ BeginsNoWord rest := by
  unfold isEndMarker
  simp only [span_append_of_head? hlead hstart, List.any_eq_true]
  refine exists_congr fun w => and_congr_right fun _ => ?_
  rcases Text.dropLeadNoCase? w.toList start with _ | _ | ⟨c, rest⟩ <;> simp [BeginsNoWord]

/-- The same is true of the lines that end a program. -/
theorem isEndMarker_iff {line : List Char} : isEndMarker line = true ↔ IsEnd line := by
  have hwords : ∀ w ∈ ["endproc", "endfunc"], String.ofList (Text.upper w.toList) ∈ endWords := by
    decide +kernel
  constructor
  · intro h
    obtain ⟨lead, start, rfl, hlead, hstart⟩ := exists_run Text.isAsciiBlank line
    obtain ⟨w, hw, rest, hrest, hends⟩ := (isEndMarker_append hlead hstart).mp h
    obtain ⟨word, rfl, hword⟩ := Text.dropLeadNoCase?_eq_some_iff.mp hrest
    exact ⟨lead, word, rest, rfl, hlead, Text.upper_eq_upper_iff.mpr hword ▸ hwords w hw, hends⟩
  · rintro ⟨lead, word, rest, rfl, hlead, hword, hends⟩
    have hback : ∃ w ∈ ["endproc", "endfunc"], Text.upper word = Text.upper w.toList := by
      simp only [endWords, List.mem_cons, List.not_mem_nil, or_false] at hword
      have hupper : Text.upper word = (String.ofList (Text.upper word)).toList :=
        String.toList_ofList.symm
      rcases hword with hword | hword
      · exact ⟨"endproc", by simp, hupper.trans (by rw [hword]; rfl)⟩
      · exact ⟨"endfunc", by simp, hupper.trans (by rw [hword]; rfl)⟩
    obtain ⟨w, hw, heq⟩ := hback
    exact (isEndMarker_append hlead (head?_word_append capitals_endWords hword _)).mpr
      ⟨w, hw, rest, Text.dropLeadNoCase?_eq_some_iff.mpr
        ⟨word, rfl, Text.upper_eq_upper_iff.mp heq⟩, hends⟩

/-- A text behind a word of capital letters begins, but for the case, as the word does. -/
theorem head?_upper_word_append {words : List String} (hwords : Capitals words) {word : List Char}
    (hword : String.ofList (Text.upper word) ∈ words) (rest : List Char) :
    ∃ w ∈ words, (Text.upper (word ++ rest)).head? = w.toList.head? := by
  refine ⟨_, hword, ?_⟩
  cases word with
  | nil => exact absurd rfl (hwords _ hword).1
  | cons c word => simp [Text.upper]

/-- Headers and ends begin with different letters. -/
theorem not_isEnd_of_isHeader {line name : List Char} (h : IsHeader line name) : ¬IsEnd line := by
  rintro ⟨lead', word', rest', heq, hlead', hword', -⟩
  obtain ⟨lead, word, gap, rest, rfl, hlead, hword, -⟩ := h
  have hstart := congrArg (List.dropWhile Text.isAsciiBlank) heq
  rw [(span_append_of_head? hlead (head?_word_append capitals_headerWords hword _)).2,
    (span_append_of_head? hlead' (head?_word_append capitals_endWords hword' _)).2] at hstart
  obtain ⟨w, hw, hhead⟩ :=
    head?_upper_word_append capitals_headerWords hword (gap ++ (name ++ rest))
  obtain ⟨w', hw', hhead'⟩ := head?_upper_word_append capitals_endWords hword' rest'
  rw [hstart, hhead'] at hhead
  have hdiffer : ∀ w ∈ headerWords, ∀ w' ∈ endWords, w'.toList.head? ≠ w.toList.head? := by
    simp [headerWords, endWords]
  exact hdiffer w hw w' hw' hhead

theorem lineKind_eq_header_iff {line name : List Char} :
    lineKind line = .header name ↔ IsHeader line name := by
  rw [← readHeader?_eq_some_iff]
  unfold lineKind
  rcases readHeader? line with _ | found
  · rcases isEndMarker line with _ | _ <;> simp
  · simp

theorem lineKind_eq_endMarker_iff {line : List Char} : lineKind line = .endMarker ↔ IsEnd line := by
  rw [← isEndMarker_iff]
  unfold lineKind
  rcases hheader : readHeader? line with _ | found
  · rcases isEndMarker line with _ | _ <;> simp
  · have hend := not_isEnd_of_isHeader (readHeader?_eq_some_iff.mp hheader)
    rw [← isEndMarker_iff] at hend
    simp [hend]

/-! ## Owners -/

/-- The name and the number of a header. -/
def header? (l : NumberedLine) : Option (List Char × Nat) :=
  (readHeader? l.1).map fun name => (name, l.2)

/-- Whether a line is neither a header nor an end. -/
def isPlain (l : NumberedLine) : Bool := lineKind l.1 == .plain

/-- The nearest header or end above the line with a number. -/
def dividerAbove? (lines : List NumberedLine) (number : Nat) : Option NumberedLine :=
  (lines.filter fun l => l.2 < number && !isPlain l).getLast?

/-- The header of the procedure to which the line with a number belongs. -/
def headerOver? (lines : List NumberedLine) (number : Nat) : Option (List Char × Nat) :=
  (dividerAbove? lines number).bind header?

/-- The plain lines that belong to the procedure of a header, or to none. -/
def linesUnder (lines : List NumberedLine) (header : Option (List Char × Nat)) :
    List NumberedLine :=
  lines.filter fun l => headerOver? lines l.2 == header && isPlain l

/-- The plain lines for whose nearest divider a test holds. -/
def linesBehind (lines : List NumberedLine) (test : Option NumberedLine → Bool) :
    List NumberedLine :=
  lines.filter fun l => test (dividerAbove? lines l.2) && isPlain l

/-- Every header opens a procedure with its name and number, and the plain lines are where they
belong: in the source of the procedure whose header is the nearest divider above them, or in the
main body. -/
structure PlacesLines (lines : List NumberedLine) (program : Program) : Prop where
  headers : program.procedures.map (fun p => (p.name.toList, p.line)) = lines.filterMap header?
  source : ∀ p ∈ program.procedures, p.source = linesUnder lines (some (p.name.toList, p.line))
  body : program.body = linesUnder lines none

/-- The numbers of lines increase. -/
def Increasing (lines : List NumberedLine) : Prop := lines.Pairwise fun l m => l.2 < m.2

section cons

variable {line : NumberedLine} {lines : List NumberedLine}

/-- What the next line changes for the lines below it. -/
theorem dividerAbove?_cons {number : Nat} (h : line.2 < number) :
    dividerAbove? (line :: lines) number =
      (dividerAbove? lines number).or (if isPlain line then none else some line) := by
  unfold dividerAbove?
  rcases hplain : isPlain line with _ | _
  · rw [List.filter_cons_of_pos (by simp [h, hplain]), List.getLast?_cons]
    rcases (lines.filter fun l => l.2 < number && !isPlain l).getLast? with _ | d <;> simp
  · rw [List.filter_cons_of_neg (by simp [hplain])]
    simp

/-- Nothing divides above the first line. -/
theorem dividerAbove?_self (h : Increasing (line :: lines)) :
    dividerAbove? (line :: lines) line.2 = none := by
  have hbelow := (List.pairwise_cons.mp h).1
  rw [dividerAbove?, List.filter_eq_nil_iff.mpr, List.getLast?_nil]
  refine List.forall_mem_cons.mpr ⟨by simp, fun l hl => ?_⟩
  have := hbelow l hl
  simp only [Bool.and_eq_true, decide_eq_true_iff, not_and]
  omega

/-- The first line belongs to what stands above, and as a divider it is above all lines that have
none of their own. -/
theorem linesBehind_cons (h : Increasing (line :: lines)) (test : Option NumberedLine → Bool) :
    linesBehind (line :: lines) test =
      if isPlain line then (if test none then [line] else []) ++ linesBehind lines test
      else linesBehind lines fun d => test (d.or (some line)) := by
  have hbelow := (List.pairwise_cons.mp h).1
  have hrest : lines.filter (fun l => test (dividerAbove? (line :: lines) l.2) && isPlain l) =
      lines.filter fun l => test ((dividerAbove? lines l.2).or
        (if isPlain line then none else some line)) && isPlain l :=
    List.filter_congr fun l hl => by rw [dividerAbove?_cons (hbelow l hl)]
  rcases hplain : isPlain line with _ | _
  · rw [linesBehind, List.filter_cons_of_neg (by simp [hplain]), hrest]
    simp [linesBehind, hplain]
  · rw [linesBehind, List.filter_cons, dividerAbove?_self h, hrest]
    cases htest : test none <;> simp [linesBehind, hplain]

end cons

/-- Dividers are lines. -/
theorem mem_of_dividerAbove? {lines : List NumberedLine} {number : Nat} {d : NumberedLine}
    (h : dividerAbove? lines number = some d) : d ∈ lines :=
  List.mem_of_mem_filter (List.mem_of_getLast? h)

/-- Only the lines count as dividers. -/
theorem linesBehind_congr {lines : List NumberedLine} {test test' : Option NumberedLine → Bool}
    (hnone : test none = test' none) (hsome : ∀ d ∈ lines, test (some d) = test' (some d)) :
    linesBehind lines test = linesBehind lines test' := by
  refine List.filter_congr fun l _ => ?_
  rcases hd : dividerAbove? lines l.2 with _ | d
  · rw [hnone]
  · rw [hsome d (mem_of_dividerAbove? hd)]

/-- The lines under a header are those whose nearest mark above is that header. -/
theorem linesUnder_eq_linesBehind (lines : List NumberedLine) (header : Option (List Char × Nat)) :
    linesUnder lines header = linesBehind lines fun d => d.bind header? == header := rfl

/-! ## The division -/

/-- Every line is a header, an end or a plain line, and no two of these. -/
theorem lineKind_cases (l : NumberedLine) :
    (∃ name, lineKind l.1 = .header name ∧ header? l = some (name, l.2) ∧ isPlain l = false) ∨
      (lineKind l.1 = .endMarker ∧ header? l = none ∧ isPlain l = false) ∨
        (lineKind l.1 = .plain ∧ header? l = none ∧ isPlain l = true) := by
  unfold header? isPlain lineKind
  rcases readHeader? l.1 with _ | name
  · rcases isEndMarker l.1 with _ | _ <;> simp
  · simp

/-- Headers keep the numbers of their lines. -/
theorem snd_eq_of_header? {l : NumberedLine} {header : List Char × Nat}
    (h : header? l = some header) : header.2 = l.2 := by
  obtain ⟨name, -, rfl⟩ := Option.map_eq_some_iff.mp h
  rfl

/-- What a division says of lines: which have no divider above them, which have an end above them,
which are in no procedure, and what the procedures hold. -/
structure Divides (lines own : List NumberedLine) (program : Program) : Prop where
  undivided : own = linesBehind lines Option.isNone
  ended : program.body = linesBehind lines fun d => d.any fun d => (header? d).isNone
  free : own ++ program.body = linesUnder lines none
  headers : program.procedures.map (fun p => (p.name.toList, p.line)) = lines.filterMap header?
  source : ∀ p ∈ program.procedures, p.source = linesUnder lines (some (p.name.toList, p.line))

section step

variable {line : NumberedLine} {lines own : List NumberedLine} {program : Program}

/-- The step for a plain line: it joins the lines that have no divider above them. The lines below
it belong where they belonged before. -/
theorem Divides.plain (hincreasing : Increasing (line :: lines)) (h : Divides lines own program)
    (hheader : header? line = none) (hplain : isPlain line = true) :
    Divides (line :: lines) (line :: own) program := by
  have hcons := linesBehind_cons hincreasing
  simp only [hplain, if_true] at hcons
  have hunder : ∀ header, linesUnder (line :: lines) header =
      (if none == header then [line] else []) ++ linesUnder lines header := fun header =>
    hcons fun d => d.bind header? == header
  refine ⟨?_, ?_, ?_, ?_, fun p hp => ?_⟩
  · rw [hcons, h.undivided]
    rfl
  · rw [hcons, h.ended]
    rfl
  · rw [hunder, List.cons_append, h.free]
    rfl
  · rw [List.filterMap_cons_none hheader]
    exact h.headers
  · rw [hunder, h.source p hp]
    rfl

/-- The step for an end: the lines that have no divider above them are now behind this end, and
belong to the main body. -/
theorem Divides.endMarker (hincreasing : Increasing (line :: lines)) (h : Divides lines own program)
    (hheader : header? line = none) (hplain : isPlain line = false) :
    Divides (line :: lines) [] { program with body := own ++ program.body } := by
  have hcons := linesBehind_cons hincreasing
  simp only [hplain, Bool.false_eq_true, if_false] at hcons
  -- below an end lines belong where they belong without it
  have hunder : ∀ header, linesUnder (line :: lines) header = linesUnder lines header := by
    intro header
    rw [linesUnder_eq_linesBehind, hcons, linesUnder_eq_linesBehind]
    exact linesBehind_congr (by simp [hheader]) fun d _ => by simp
  refine ⟨?_, ?_, ?_, ?_, fun p hp => ?_⟩
  · rw [hcons]
    simp [linesBehind]
  · rw [hcons]
    refine (h.free.trans (linesUnder_eq_linesBehind lines none)).trans (linesBehind_congr ?_ ?_)
    · simp [hheader]
    · intro d _
      cases hd : header? d <;> simp [hd]
  · rw [hunder]
    exact h.free
  · rw [List.filterMap_cons_none hheader]
    exact h.headers
  · rw [hunder]
    exact h.source p hp

/-- The step for a header: it takes the lines that have no divider above them for its procedure.
Lines are numbered upward, so that no other header is mistaken for it. -/
theorem Divides.header (hincreasing : Increasing (line :: lines)) (h : Divides lines own program)
    {name : List Char} (hheader : header? line = some (name, line.2))
    (hplain : isPlain line = false) :
    Divides (line :: lines) [] { program with
      procedures := ⟨String.ofList name, line.2, own⟩ :: program.procedures } := by
  have hcons := linesBehind_cons hincreasing
  simp only [hplain, Bool.false_eq_true, if_false] at hcons
  -- no header below has the number of this one
  have hnumber : ∀ d ∈ lines, ∀ header, header? d = some header → header ≠ (name, line.2) := by
    rintro d hd header hheader rfl
    have hbelow := (List.pairwise_cons.mp hincreasing).1 d hd
    have hsnd := snd_eq_of_header? hheader
    omega
  refine ⟨?_, ?_, ?_, ?_, List.forall_mem_cons.mpr ⟨?_, fun p hp => ?_⟩⟩
  · rw [hcons]
    simp [linesBehind]
  · rw [hcons, h.ended]
    exact linesBehind_congr (by simp [hheader]) fun d _ => by simp
  · rw [linesUnder_eq_linesBehind, hcons, List.nil_append, h.ended]
    exact linesBehind_congr (by simp [hheader]) fun d _ => by cases hd : header? d <;> simp [hd]
  · rw [List.filterMap_cons_some hheader, List.map_cons, h.headers, String.toList_ofList]
  · rw [linesUnder_eq_linesBehind, hcons, h.undivided, String.toList_ofList]
    refine linesBehind_congr (by simp [hheader]) fun d hd => ?_
    simpa using fun hsame => hnumber d hd _ hsame rfl
  · rw [linesUnder_eq_linesBehind, hcons, h.source p hp, linesUnder_eq_linesBehind]
    refine linesBehind_congr ?_ fun d _ => by simp
    have hmem : (p.name.toList, p.line) ∈ lines.filterMap header? := by
      rw [← h.headers]
      exact List.mem_map_of_mem hp
    obtain ⟨d, hd, hheader'⟩ := List.mem_filterMap.mp hmem
    simpa [hheader] using (hnumber d hd _ hheader').symm

end step

/-- The one pass of the reader gives the division that the marks describe. -/
theorem divides_divide {lines : List NumberedLine} (h : Increasing lines) :
    Divides lines (divide lines).1 (divide lines).2 := by
  induction lines with
  | nil => exact ⟨rfl, rfl, rfl, rfl, nofun⟩
  | cons line lines ih =>
    have hrest := ih (List.pairwise_cons.mp h).2
    rcases lineKind_cases line with ⟨name, hkind, hheader, hplain⟩ | ⟨hkind, hheader, hplain⟩ |
      ⟨hkind, hheader, hplain⟩
    · simp only [divide, hkind]
      exact hrest.header h hheader hplain
    · simp only [divide, hkind]
      exact hrest.endMarker h hheader hplain
    · simp only [divide, hkind]
      exact hrest.plain h hheader hplain

/-- The lines of a text are numbered from one. -/
theorem programLines_eq_zipIdx (text : String) : programLines text =
    ((Text.lines text.toList).map (Text.dropEndWhile (· == '\r'))).zipIdx 1 := by
  rw [programLines, Record.numberedLines, List.zipIdx_map]
  rfl

/-- Lines are numbered upward, so that a header is known by its number. -/
theorem increasing_programLines (text : String) : Increasing (programLines text) := by
  have hnumbers : (programLines text).map Prod.snd =
      List.range' 1 (Text.lines text.toList).length := by
    rw [programLines_eq_zipIdx, List.zipIdx_map_snd, List.length_map]
  refine List.pairwise_map.mp ?_
  rw [hnumbers]
  exact List.pairwise_lt_range'

/-- Every plain line belongs to the main body or to one of the headers. -/
theorem headerOver?_mem {lines : List NumberedLine} (number : Nat) :
    headerOver? lines number ∈ none :: (lines.filterMap header?).map some := by
  rcases hheader : headerOver? lines number with _ | header
  · exact List.mem_cons_self
  · obtain ⟨d, hd, hsome⟩ := Option.bind_eq_some_iff.mp hheader
    exact List.mem_cons_of_mem _ (List.mem_map_of_mem
      (List.mem_filterMap.mpr ⟨d, mem_of_dividerAbove? hd, hsome⟩))

/-- Headers of different lines differ. -/
theorem nodup_filterMap_header? {lines : List NumberedLine} (h : Increasing lines) :
    (lines.filterMap header?).Nodup := by
  refine List.Pairwise.filterMap _ (fun l m hlt a ha b hb hsame => ?_) h
  have hl := snd_eq_of_header? ha
  have hm := snd_eq_of_header? hb
  rw [hsame] at hl
  omega

/-- No plain line is lost or doubled. Every line has one nearest divider above it, and the places
are sorted by these dividers. -/
theorem PlacesLines.perm {lines : List NumberedLine} {program : Program}
    (hincreasing : Increasing lines) (h : PlacesLines lines program) :
    (program.body ++ program.procedures.flatMap Procedure.source).Perm (lines.filter isPlain) := by
  have hsources : program.procedures.flatMap Procedure.source =
      ((lines.filterMap header?).map some).flatMap (linesUnder lines) := by
    rw [← h.headers, List.map_map, List.flatMap_map]
    exact List.flatMap_congr h.source
  have hkeys : (none :: (lines.filterMap header?).map some).Nodup :=
    List.nodup_cons.mpr
      ⟨by simp, (nodup_filterMap_header? hincreasing).map (Option.some_injective _)⟩
  rw [h.body, hsources, ← List.flatMap_cons]
  have hfiltered : linesUnder lines = fun header =>
      (lines.filter isPlain).filter fun l => headerOver? lines l.2 == header := by
    funext header
    rw [linesUnder, List.filter_filter]
  rw [hfiltered]
  refine (flatMap_filter_perm _ hkeys _).trans (.of_eq (List.filter_eq_self.mpr fun l _ => ?_))
  exact decide_eq_true (headerOver?_mem l.2)

theorem placesLines_divide {lines : List NumberedLine} (h : Increasing lines) :
    PlacesLines lines
      { (divide lines).2 with body := (divide lines).1 ++ (divide lines).2.body } where
  headers := (divides_divide h).headers
  source := (divides_divide h).source
  body := (divides_divide h).free

/-- The lines of a program are numbered from one, headers and ends are found by their patterns, and
every other line is in exactly one place: in the source of the procedure whose header is the
nearest header or end above it, or in the main body. -/
theorem placesLines_read (text : String) :
    (programLines text =
        ((Text.lines text.toList).map (Text.dropEndWhile (· == '\r'))).zipIdx 1 ∧
      (∀ line name, lineKind line = .header name ↔ IsHeader line name) ∧
      ∀ line, lineKind line = .endMarker ↔ IsEnd line) ∧
    PlacesLines (programLines text) (Program.read text) ∧
    ((Program.read text).body ++ (Program.read text).procedures.flatMap Procedure.source).Perm
      ((programLines text).filter isPlain) := by
  have hincreasing := increasing_programLines text
  have hplaces : PlacesLines (programLines text) (Program.read text) :=
    placesLines_divide hincreasing
  exact ⟨⟨programLines_eq_zipIdx text, fun _ _ => lineKind_eq_header_iff,
    fun _ => lineKind_eq_endMarker_iff⟩, hplaces, hplaces.perm hincreasing⟩

end Screen

end ScreenForms
