import ScreenForms.Code.Translate
import ScreenForms.Proofs.ScreenWords

/-!
# Lines that open and continue blocks

A line of code is classified by the word in front of it, and what stands behind the word is taken
apart at further keywords. Here the lines of blocks are put together from the texts in them: the
condition of a branch (`read_ifLine`, `read_elseIfLine`, `read_caseLine`), the counter and the
bounds of a counted loop (`read_forLine`, `read_forLine_step`), element and collection
(`read_forEachLine`) and the condition of a loop (`read_doWhile`). Keywords are spelled in any
case. The texts in between are arbitrary, as long as no keyword stands in them where it would be
taken for the next one.
-/

namespace ScreenForms

/-! ## Words of a text -/

namespace Text

variable {cs ds : List Char}

/-- A blank ends a word. -/
theorem blankWords_append_blank {b : Char} (hb : isBlank b = true) (cs ds : List Char) :
    blankWords (cs ++ b :: ds) = blankWords cs ++ blankWords ds := by
  have hgo : ∀ word, blankWords.go (cs ++ b :: ds) word =
      blankWords.go cs word ++ blankWords ds := by
    induction cs with
    | nil =>
      intro word
      rcases word with _ | ⟨c, word⟩ <;> simp [blankWords, blankWords.go, hb]
    | cons c cs ih =>
      intro word
      rw [List.cons_append, blankWords.go, blankWords.go]
      split
      · split
        · exact ih []
        · exact congrArg _ (ih [])
      · exact ih (c :: word)
  exact hgo []

/-- What stands between a blank and another blank or the end of the text is a word of it. -/
theorem mem_blankWords (front : List Char) {word back : List Char} {b : Char}
    (hb : isBlank b = true) (hne : word ≠ []) (hword : ∀ c ∈ word, isBlank c = false)
    (hback : ∀ c, back.head? = some c → isBlank c = true) :
    word ∈ blankWords (front ++ b :: (word ++ back)) := by
  rw [blankWords_append_blank hb]
  refine List.mem_append_right _ ?_
  cases back with
  | nil =>
    rw [List.append_nil, blankWords_of_forall hne hword]
    exact List.mem_singleton_self word
  | cons c back =>
    rw [blankWords_append_blank (hback c rfl), blankWords_of_forall hne hword]
    exact List.mem_append_left _ (List.mem_singleton_self word)

/-- A text that is not empty and has no blanks at its ends. -/
structure IsTrimmed (cs : List Char) : Prop where
  ne_nil : cs ≠ []
  trim_eq : trim cs = cs

instance (cs : List Char) : Decidable (IsTrimmed cs) :=
  decidable_of_iff (cs ≠ [] ∧ trim cs = cs)
    ⟨fun ⟨h, h'⟩ => ⟨h, h'⟩, fun h => ⟨h.ne_nil, h.trim_eq⟩⟩

namespace IsTrimmed

/-- A trimmed text does not start with a blank. -/
theorem head?_eq (h : IsTrimmed cs) {c : Char} (hc : cs.head? = some c) : isBlank c = false :=
  (trim_eq_self_iff.mp h.trim_eq).1 c hc

theorem getLast?_eq (h : IsTrimmed cs) {c : Char} (hc : cs.getLast? = some c) :
    isBlank c = false :=
  (trim_eq_self_iff.mp h.trim_eq).2 c hc

/-- ASCII blanks are blanks, so none stands in front. -/
theorem isAsciiBlank_head? (h : IsTrimmed cs) {c : Char} (hc : cs.head? = some c) :
    isAsciiBlank c = false :=
  not_isAsciiBlank_of_not_isBlank (h.head?_eq hc)

/-- The line reader skips fewer blanks than trimming takes away, and so finds none. -/
theorem dropWhile_isAsciiBlank (h : IsTrimmed cs) : cs.dropWhile isAsciiBlank = cs :=
  (span_append_of_head? (List.forall_mem_nil _) fun _ => h.isAsciiBlank_head?).2

/-- A text behind another one ends as it does on its own. -/
theorem getLast?_behind (h : IsTrimmed cs) (front : List Char) :
    (front ++ ' ' :: cs).getLast? = cs.getLast? := by
  have hlast := List.getLast?_eq_some_getLast h.ne_nil
  rw [List.getLast?_append_of_ne_nil _ (List.cons_ne_nil _ _), List.getLast?_cons, hlast]
  rfl

/-- A text behind another one with a blank between them. -/
theorem behind {front : List Char} (h : IsTrimmed cs) (hne : front ≠ [])
    (hfront : ∀ c, front.head? = some c → isBlank c = false) :
    IsTrimmed (front ++ ' ' :: cs) := by
  refine ⟨by simp [hne], trim_eq_self_iff.mpr ⟨fun c hc => ?_, fun c hc => ?_⟩⟩
  · rw [List.head?_append_of_ne_nil _ hne] at hc
    exact hfront c hc
  · rw [h.getLast?_behind] at hc
    exact h.getLast?_eq hc

end IsTrimmed

end Text

namespace Code

open Text

/-! ## Lines as they stand in the source -/

/-- A line of a body that stands for itself: it is not blank and continues on no other line. -/
structure IsSourceLine (raw : List Char) : Prop where
  noBreak : '\n' ∉ raw
  notBlank : trim raw ≠ []
  complete : (lineContinuation raw).2 = false

instance (raw : List Char) : Decidable (IsSourceLine raw) :=
  decidable_of_iff ('\n' ∉ raw ∧ trim raw ≠ [] ∧ (lineContinuation raw).2 = false)
    ⟨fun ⟨h, h', h''⟩ => ⟨h, h', h''⟩, fun h => ⟨h.noBreak, h.notBlank, h.complete⟩⟩

/-- A line of code without a remark. -/
structure IsCodeLine (raw : List Char) : Prop extends IsSourceLine raw where
  notComment : commentLine? (trim raw) = none
  noRemark : dropRemark (trim raw) = trim raw

instance (raw : List Char) : Decidable (IsCodeLine raw) :=
  decidable_of_iff
    (IsSourceLine raw ∧ commentLine? (trim raw) = none ∧ dropRemark (trim raw) = trim raw)
    ⟨fun ⟨h, h', h''⟩ => ⟨h, h', h''⟩, fun h => ⟨h.toIsSourceLine, h.notComment, h.noRemark⟩⟩

/-- A line of code that is read in a given way. -/
structure CodeLine (line : Line) where
  raw : List Char
  isCode : IsCodeLine raw
  reads : Line.read (trim raw) = line

variable {lead word rest cs : List Char} {name : String}

/-- Whether a line continues on the next one does not depend on blanks in front of it: the sign for
it stands at the other end, and the comment mark is looked for behind the blanks. -/
theorem lineContinuation_blanks_append {indent raw : List Char}
    (hindent : ∀ c ∈ indent, isBlank c = true) (hraw : trim raw ≠ []) :
    (lineContinuation (indent ++ raw)).2 = (lineContinuation raw).2 := by
  obtain ⟨c, cs, hend⟩ : ∃ c cs, (trimEnd raw).reverse = c :: cs := by
    refine List.exists_cons_of_ne_nil fun h => hraw ?_
    rw [← trimStart_trimEnd, List.reverse_eq_nil_iff.mp h]
    rfl
  obtain ⟨d, hd, hfull⟩ : ∃ d ∈ raw, isBlank d = false := by
    simpa [trim_eq_nil_iff] using hraw
  unfold lineContinuation
  dsimp only
  rw [trimEnd_append_of_mem hd hfull, trimStart_blanks_append hindent]
  split
  · rfl
  · rw [dropTail?, dropTail?, List.reverse_append, hend]
    rcases eq_or_ne ';' c with rfl | hc
    · simp [dropLead?]
    · simp [dropLead?, hc]

/-- A line of code may be indented. -/
def CodeLine.indented {line : Line} (depth : Nat) (code : CodeLine line) : CodeLine line :=
  have hindent : ∀ c ∈ List.replicate depth ' ', isBlank c = true := fun c hc =>
    List.eq_of_mem_replicate hc ▸ rfl
  have htrim : trim (List.replicate depth ' ' ++ code.raw) = trim code.raw :=
    trim_blanks_append hindent code.raw
  { raw := List.replicate depth ' ' ++ code.raw
    isCode := by
      refine ⟨⟨fun hmem => ?_, htrim ▸ code.isCode.notBlank, ?_⟩, ?_, ?_⟩
      · rcases List.mem_append.mp hmem with hmem | hmem
        · exact absurd (List.eq_of_mem_replicate hmem) (by decide)
        · exact code.isCode.noBreak hmem
      · rw [lineContinuation_blanks_append hindent code.isCode.notBlank, code.isCode.complete]
      · rw [htrim, code.isCode.notComment]
      · rw [htrim, code.isCode.noRemark]
    reads := by rw [htrim, code.reads] }

/-! ## Words in front and between -/

theorem not_isBlank_of_isWordPart {c : Char} (h : isWordPart c = true) : isBlank c = false := by
  rcases (Bool.or_eq_true _ _).mp h with h | h
  · exact not_isBlank_of_isAlphanum h
  · rw [beq_iff_eq.mp h]
    decide

/-- The word in front of a line ends where the next character belongs to no word. -/
theorem wordThen?_append (hlead : ∀ c ∈ lead, isWordPart c = true)
    (hrest : ∀ c, rest.head? = some c → isWordPart c = false) (name : String) :
    wordThen? name (lead ++ rest) = if lower lead = name.toList then some rest else none := by
  obtain ⟨htake, hdrop⟩ := span_append_of_head? hlead hrest
  rw [wordThen?, htake, hdrop]

/-- The first word of a line ends at the first character that is no part of a word, and is compared
as a whole. -/
theorem startsWithOneOf_append (hlead : ∀ c ∈ lead, isWordPart c = true)
    (hrest : ∀ c, rest.head? = some c → isWordPart c = false) (names : List String) :
    startsWithOneOf names (lead ++ rest) = decide (String.ofList (lower lead) ∈ names) := by
  rw [startsWithOneOf, (span_append_of_head? hlead hrest).1]

/-- A blank is passed over when a text without blanks in front stands behind it. -/
theorem blanks?_cons (h : IsTrimmed cs) : blanks? (' ' :: cs) = some cs :=
  congrArg some h.dropWhile_isAsciiBlank

/-- No word of a text is the keyword, in any case. -/
def Lacks (keyword cs : List Char) : Prop := ∀ word ∈ blankWords cs, lower word ≠ keyword

instance (keyword cs : List Char) : Decidable (Lacks keyword cs) :=
  inferInstanceAs (Decidable (∀ word ∈ blankWords cs, lower word ≠ keyword))

/-- A keyword, as the classification of lines spells it: small letters. -/
def IsKeyword (name : String) : Prop := name ≠ "" ∧ name.toList.all Char.isLower = true

instance (name : String) : Decidable (IsKeyword name) :=
  inferInstanceAs (Decidable (name ≠ "" ∧ name.toList.all Char.isLower = true))

namespace IsKeyword

variable (hname : IsKeyword name) (hword : lower word = name.toList)
include hname

/-- Keywords are kept in small letters. -/
theorem isLower_of_mem {c : Char} (hc : c ∈ name.toList) : c.isLower = true :=
  List.all_eq_true.mp hname.2 c hc

/-- Lowering a keyword does nothing, so that a lowered line is compared with the keyword itself. -/
theorem lower_eq : lower name.toList = name.toList := by
  refine (List.map_congr_left fun c hc => ?_).trans (List.map_id _)
  refine Char.toLower_eq_of_not_isUpper fun hupper => ?_
  have hlower := hname.isLower_of_mem hc
  simp only [Char.isLower, Char.isUpper, Bool.and_eq_true, decide_eq_true_eq] at hlower hupper
  exact absurd (UInt32.le_trans hlower.1 hupper.2) (by decide)

include hword

theorem word_ne_nil : word ≠ [] := by
  rintro rfl
  exact hname.1 (String.toList_eq_nil_iff.mp hword.symm)

/-- In any spelling a keyword has letters only. -/
theorem isAlpha_of_mem {c : Char} (hc : c ∈ word) : c.isAlpha = true := by
  rw [← Char.isLower_toLower_eq_isAlpha]
  exact hname.isLower_of_mem (hword ▸ List.mem_map_of_mem hc)

theorem isWordPart_of_mem {c : Char} (hc : c ∈ word) : isWordPart c = true := by
  simp [isWordPart, Char.isAlphanum, hname.isAlpha_of_mem hword hc]

/-- However it is spelled, a keyword has no blank in it. -/
theorem not_isBlank_of_mem {c : Char} (hc : c ∈ word) : isBlank c = false :=
  not_isBlank_of_isWordPart (hname.isWordPart_of_mem hword hc)

theorem isTrimmed (hcs : IsTrimmed cs) : IsTrimmed (word ++ ' ' :: cs) :=
  hcs.behind (hname.word_ne_nil hword) fun _ hc =>
    hname.not_isBlank_of_mem hword (List.mem_of_mem_head? hc)

end IsKeyword

/-- A keyword between blanks is found where it stands. -/
theorem separator?_append (hname : IsKeyword name) (hword : lower word = name.toList)
    (hrest : IsTrimmed rest) : separator? name (' ' :: (word ++ ' ' :: rest)) = some rest := by
  have hlead : dropLeadNoCase? name.toList (word ++ ' ' :: rest) = some (' ' :: rest) :=
    dropLeadNoCase?_eq_some_iff.mpr ⟨word, rfl, hword.trans hname.lower_eq.symm⟩
  rw [separator?, blanks?_cons (hname.isTrimmed hword hrest), Option.bind_some, hlead,
    Option.bind_some, blanks?_cons hrest]
  simp [hrest.ne_nil]

/-- What separates is the word between blanks. -/
theorem exists_of_separator? (hname : IsKeyword name) (h : separator? name cs = some rest) :
    ∃ gap word b back, cs = gap ++ (word ++ b :: back) ∧ gap ≠ [] ∧
      (∀ c ∈ gap, isBlank c = true) ∧ lower word = name.toList ∧ isBlank b = true := by
  obtain ⟨start, hstart, hwhole⟩ := Option.bind_eq_some_iff.mp (Option.filter_eq_some_iff.mp h).1
  obtain ⟨behind, hbehind, hblank⟩ := Option.bind_eq_some_iff.mp hwhole
  obtain ⟨word, heq, hword⟩ := dropLeadNoCase?_eq_some_iff.mp hbehind
  cases behind with
  | nil => cases hblank
  | cons b back =>
    rw [blanks?, Option.ite_none_right_eq_some] at hblank
    cases cs with
    | nil => cases hstart
    | cons c cs =>
      rw [blanks?, Option.ite_none_right_eq_some] at hstart
      refine ⟨c :: cs.takeWhile isAsciiBlank, word, b, back, ?_, List.cons_ne_nil _ _,
        List.forall_mem_cons.mpr ⟨isBlank_of_isAsciiBlank hstart.1, fun d hd =>
          isBlank_of_isAsciiBlank (List.mem_takeWhile_imp hd)⟩,
        hword.trans hname.lower_eq, isBlank_of_isAsciiBlank hblank.1⟩
      rw [List.cons_append, ← heq, ← Option.some.inj hstart.2, List.takeWhile_append_dropWhile]

/-- A text that lacks the word has no separator inside, whatever follows it behind a blank. A
separator would put the word between two blanks, and so among the words of the text. -/
theorem separator?_append_eq_none {front : List Char} (tail : List Char) (hname : IsKeyword name)
    (hlacks : Lacks name.toList (front ++ cs)) (hne : cs ≠ [])
    (hlast : ∀ c, cs.getLast? = some c → isBlank c = false)
    (htail : ∀ c, tail.head? = some c → isBlank c = true) :
    separator? name (cs ++ tail) = none := by
  rw [Option.eq_none_iff_forall_ne_some]
  intro rest h
  obtain ⟨gap, word, b, back, heq, hgapne, hgap, hword, hb⟩ := exists_of_separator? hname h
  have hwordne := hname.word_ne_nil hword
  have hsolid : ∀ c ∈ word, isBlank c = false := fun _ => hname.not_isBlank_of_mem hword
  -- the word would stand in the text itself
  have hinside : ∀ more, cs = gap ++ (word ++ more) →
      (∀ c, more.head? = some c → isBlank c = true) → False := by
    rintro more rfl hmore
    obtain ⟨init, b', rfl⟩ := (List.eq_nil_or_concat gap).resolve_left hgapne
    refine hlacks word ?_ hword
    have hmem := mem_blankWords (front ++ init) (hgap b' (by simp)) hwordne hsolid hmore
    simpa using hmem
  rcases List.append_eq_append_iff.mp heq with ⟨more, hgapeq, -⟩ | ⟨more, rfl, hrest⟩
  · have hmem : cs.getLast hne ∈ gap := by
      rw [hgapeq]
      exact List.mem_append_left _ (List.getLast_mem hne)
    have hsame := hlast _ (List.getLast?_eq_some_getLast hne)
    rw [hgap _ hmem] at hsame
    cases hsame
  · rcases List.append_eq_append_iff.mp hrest with ⟨post, rfl, hback⟩ | ⟨post, rfl, rfl⟩
    · refine hinside post rfl fun c hc => ?_
      cases post with
      | nil => cases hc
      | cons d post =>
        obtain rfl := Option.some.inj hc
        exact (List.cons.inj hback).1 ▸ hb
    · cases post with
      | nil => exact hinside [] (by simp) nofun
      | cons d post =>
        have hblank := htail d rfl
        rw [hsolid d (by simp)] at hblank
        cases hblank

/-- A text is cut at the first place of the word between blanks. The induction moves the characters
that were passed over to `front`, so that the text stays free of the word as a whole. -/
theorem cutAtWord?_append (front : List Char) (hname : IsKeyword name)
    (hword : lower word = name.toList) (hrest : IsTrimmed rest)
    (hlacks : Lacks name.toList (front ++ cs)) (hne : cs ≠ [])
    (hlast : ∀ c, cs.getLast? = some c → isBlank c = false) :
    cutAtWord? name (cs ++ ' ' :: (word ++ ' ' :: rest)) = some (cs, rest) := by
  induction cs generalizing front with
  | nil => exact absurd rfl hne
  | cons c cs ih =>
    rw [List.cons_append, cutAtWord?]
    by_cases hcs : cs = []
    · subst hcs
      rw [List.nil_append, separator?_append hname hword hrest]
    · have hlast' : ∀ d, cs.getLast? = some d → isBlank d = false := fun d hd =>
        hlast d (by rw [List.getLast?_cons, hd]; rfl)
      rw [List.append_cons] at hlacks
      rw [separator?_append_eq_none _ hname hlacks hcs hlast' (by rintro d ⟨⟩; rfl),
        ih _ hlacks hcs hlast']
      rfl

/-- A text that lacks the word is not cut. -/
theorem cutAtWord?_eq_none (front : List Char) (hname : IsKeyword name)
    (hlacks : Lacks name.toList (front ++ cs))
    (hlast : ∀ c, cs.getLast? = some c → isBlank c = false) : cutAtWord? name cs = none := by
  induction cs generalizing front with
  | nil => rfl
  | cons c cs ih =>
    rw [cutAtWord?]
    by_cases hcs : cs = []
    · subst hcs
      rfl
    · have hlast' : ∀ d, cs.getLast? = some d → isBlank d = false := fun d hd =>
        hlast d (by rw [List.getLast?_cons, hd]; rfl)
      rw [List.append_cons] at hlacks
      have hnone := separator?_append_eq_none [] hname hlacks hcs hlast' nofun
      rw [List.append_nil] at hnone
      rw [hnone, ih _ hlacks hlast']
      rfl

/-! ## Lines by the keyword in front -/

section keyword

variable (hname : IsKeyword name) (hlead : lower lead = name.toList)
include hname hlead

/-- The reader of one statement takes a line with the keyword of another for none of its own. -/
theorem wordThen?_keyword (other : String) (cs : List Char) :
    wordThen? other (lead ++ ' ' :: cs) =
      if name.toList = other.toList then some (' ' :: cs) else none := by
  rw [wordThen?_append (fun _ => hname.isWordPart_of_mem hlead) (head?_cons_eq_false rfl cs), hlead]

/-- The same for statements with several spellings. -/
theorem startsWithOneOf_keyword (others : List String) (cs : List Char) :
    startsWithOneOf others (lead ++ ' ' :: cs) = decide (name ∈ others) := by
  rw [startsWithOneOf_append (fun _ => hname.isWordPart_of_mem hlead) (head?_cons_eq_false rfl cs),
    hlead, String.ofList_toList]

/-- What is behind the keyword in front, when it is the word that is looked for. -/
theorem wordAndBlanks?_keyword (other : String) (hcs : IsTrimmed cs) :
    wordAndBlanks? other (lead ++ ' ' :: cs) =
      if name.toList = other.toList then some cs else none := by
  rw [wordAndBlanks?, wordThen?_keyword hname hlead]
  split
  · exact blanks?_cons hcs
  · rfl

/-- A line is read as the block line that its keyword makes of it. -/
theorem read_keyword {line : Line} (hcs : IsTrimmed cs)
    (h : blockLine? (lead ++ ' ' :: cs) = some line) : Line.read (lead ++ ' ' :: cs) = line := by
  obtain ⟨c, lead, rfl⟩ := List.exists_cons_of_ne_nil (hname.word_ne_nil hlead)
  rw [Line.read, (hname.isTrimmed hlead hcs).trim_eq]
  split
  · next heq => cases heq
  · next heq =>
    obtain rfl := (List.cons.inj heq).1
    exact absurd (hname.isAlpha_of_mem hlead List.mem_cons_self) (by decide)
  · rw [h]
    rfl

end keyword

theorem unwords_singleton (w : List Char) : unwords [w] = w := rfl

/-- A text with a blank in it is no single word. -/
theorem lower_append_blank_ne (hword : ' ' ∉ name.toList) (lead cs : List Char) :
    String.ofList (lower (lead ++ ' ' :: cs)) ≠ name := by
  rintro rfl
  rw [String.toList_ofList] at hword
  exact hword (List.mem_map.mpr ⟨' ', by simp, rfl⟩)

/-! ## Lines of code -/

/-- A text that can end a line of code: it has no line feed, no remark, and no semicolon at the
end, which would continue the line. -/
structure EndsLine (cs : List Char) : Prop extends IsTrimmed cs where
  noBreak : '\n' ∉ cs
  complete : cs.getLast? ≠ some ';'
  noRemark : dropRemark cs = cs

instance (cs : List Char) : Decidable (EndsLine cs) :=
  decidable_of_iff
    (IsTrimmed cs ∧ '\n' ∉ cs ∧ cs.getLast? ≠ some ';' ∧ dropRemark cs = cs)
    ⟨fun ⟨htrim, hbreak, hlast, hremark⟩ => ⟨htrim, hbreak, hlast, hremark⟩,
      fun h => ⟨h.toIsTrimmed, h.noBreak, h.complete, h.noRemark⟩⟩

/-- Where neither a mark of a remark nor a quotation mark stands in front, the remark is the one of
the rest. -/
theorem dropRemark_append (h : ∀ c ∈ word, c ≠ '&' ∧ isQuote c = false) (cs : List Char) :
    dropRemark (word ++ cs) = word ++ dropRemark cs := by
  induction word with
  | nil => rfl
  | cons c word ih =>
    obtain ⟨⟨hamp, hquote⟩, hword⟩ := List.forall_mem_cons.mp h
    have hstep : ∀ ds, dropRemark.go none (c :: ds) = c :: dropRemark.go none ds := by
      intro ds
      rw [dropRemark.go]
      · simp [hquote]
      · rintro rest rfl _
        exact hamp rfl
    rw [List.cons_append, dropRemark, hstep]
    exact congrArg (c :: ·) (ih hword)

/-- A keyword does not make a comment of a line. The only word that does is NOTE, and no other
keyword begins with it. -/
theorem commentLine?_keyword (hname : IsKeyword name) (hnote : name ≠ "note")
    (hlead : lower lead = name.toList) (cs : List Char) :
    commentLine? (lead ++ ' ' :: cs) = none := by
  have hletters : ∀ c ∈ lead, c.isAlpha = true := fun _ => hname.isAlpha_of_mem hlead
  have hkeyword : IsKeyword "note" := by decide
  have hnotNote : lower lead ≠ "note".toList := fun h =>
    hnote (String.toList_injective (hlead.symm.trans h))
  unfold commentLine?
  split
  · next heq =>
    obtain ⟨c, lead, rfl⟩ := List.exists_cons_of_ne_nil (hname.word_ne_nil hlead)
    obtain rfl := (List.cons.inj heq).1
    exact absurd (hletters _ List.mem_cons_self) (by decide)
  · rcases hdrop : dropLeadNoCase? "note".toList (lead ++ ' ' :: cs) with _ | behind
    · rfl
    · obtain ⟨word, heq, hword⟩ := dropLeadNoCase?_eq_some_iff.mp hdrop
      rw [hkeyword.lower_eq] at hword
      rcases List.append_eq_append_iff.mp heq with ⟨more, rfl, hmore⟩ | ⟨more, rfl, rfl⟩
      · cases more with
        | nil => exact absurd (List.append_nil lead ▸ hword) hnotNote
        | cons d more =>
          obtain rfl := (List.cons.inj hmore).1
          have hblank : ' '.isAlpha = true := hkeyword.isAlpha_of_mem hword (by simp)
          cases hblank
      · cases more with
        | nil => exact absurd hword (List.append_nil word ▸ hnotNote)
        | cons d more =>
          have hd : isBlank d = false := not_isBlank_of_isAlphanum
            (by simp [Char.isAlphanum, hletters d (by simp)])
          simp [hd]

namespace EndsLine

/-- A text that ends a line is a line of code when it is not read as a comment. -/
theorem isCodeLine (h : EndsLine cs) (hcomment : commentLine? cs = none) : IsCodeLine cs := by
  have hlast := List.getLast?_eq_some_getLast h.ne_nil
  have hend : trimEnd cs = cs := dropEndWhile_of_getLast? hlast (h.getLast?_eq hlast)
  have hcomplete : dropTail? [';'] cs = none := by
    rw [Option.eq_none_iff_forall_ne_some]
    intro head hdrop
    obtain ⟨front, hfront, -⟩ := Option.map_eq_some_iff.mp hdrop
    have hlead := congrArg List.head? (eq_append_of_dropLead? hfront)
    rw [List.head?_reverse] at hlead
    exact h.complete hlead
  refine ⟨⟨h.noBreak, h.trim_eq.symm ▸ h.ne_nil, ?_⟩, h.trim_eq.symm ▸ hcomment, ?_⟩
  · rw [lineContinuation, hend, hcomplete]
    dsimp only
    split <;> rfl
  · rw [h.trim_eq, h.noRemark]

/-- A keyword may stand in front. -/
theorem behind (h : EndsLine cs) (hname : IsKeyword name) (hlead : lower lead = name.toList) :
    EndsLine (lead ++ ' ' :: cs) where
  toIsTrimmed := hname.isTrimmed hlead h.toIsTrimmed
  noBreak := by
    intro hmem
    rcases List.mem_append.mp hmem with hmem | hmem
    · exact absurd (hname.isAlpha_of_mem hlead hmem) (by decide)
    · exact h.noBreak (List.mem_of_ne_of_mem (by decide) hmem)
  complete := h.getLast?_behind lead ▸ h.complete
  noRemark := by
    have hplain : ∀ c ∈ lead ++ [' '], c ≠ '&' ∧ isQuote c = false := by
      refine List.forall_mem_append.mpr ⟨fun c hc => ?_, by simp [isQuote]⟩
      have halpha := hname.isAlpha_of_mem hlead hc
      refine ⟨?_, Bool.eq_false_iff.mpr fun hquote => ?_⟩
      · rintro rfl
        cases halpha
      · simp only [isQuote, Bool.or_eq_true, beq_iff_eq] at hquote
        rcases hquote with rfl | rfl <;> cases halpha
    rw [List.append_cons, dropRemark_append hplain, h.noRemark]

end EndsLine

/-- A line of code that begins with a keyword, by the spelling of the keyword and the text behind
it. How the line is read depends on both. -/
def CodeLine.keyword {line : Line} (name : String) (lead cs : List Char) (hname : IsKeyword name)
    (hnote : name ≠ "note") (hlead : lower lead = name.toList) (hcs : EndsLine cs)
    (hread : Line.read (unwords [lead, cs]) = line) : CodeLine line where
  raw := unwords [lead, cs]
  isCode := unwords_cons_cons lead cs [] ▸
    (hcs.behind hname hlead).isCodeLine (commentLine?_keyword hname hnote hlead cs)
  reads := by
    rw [unwords_cons_cons, unwords_singleton, (hcs.behind hname hlead).trim_eq, ← hread,
      unwords_cons_cons, unwords_singleton]

/-! ## Conditions -/

section conditions

variable {condition : List Char}

/-- A condition is everything behind the keyword, if it does not end in the word THEN. -/
theorem conditionOf?_keyword (hname : IsKeyword name) (hlead : lower lead = name.toList)
    (hcondition : IsTrimmed condition) (hthen : beforeWord? "then" condition = none) :
    conditionOf? name (lead ++ ' ' :: condition) = some condition := by
  have hskip : (' ' :: condition).dropWhile isAsciiBlank = condition :=
    hcondition.dropWhile_isAsciiBlank
  rw [conditionOf?, wordThen?_keyword hname hlead, if_pos rfl, Option.map_some, hskip]
  simp [hthen, hcondition.trim_eq]

/-- A line that begins a conditional is read as its condition. -/
theorem read_ifLine (hlead : lower lead = "if".toList) (hcondition : IsTrimmed condition)
    (hthen : beforeWord? "then" condition = none) :
    Line.read (unwords [lead, condition]) = .ifLine condition := by
  have hif : IsKeyword "if" := by decide
  have helseif : conditionOf? "elseif" (lead ++ ' ' :: condition) = none := by
    simp [conditionOf?, wordThen?_keyword hif hlead]
  rw [unwords_cons_cons, unwords_singleton]
  refine read_keyword hif hlead hcondition ?_
  simp [blockLine?, helseif, conditionOf?_keyword hif hlead hcondition hthen]

/-- An ELSEIF line is read in the same way. -/
theorem read_elseIfLine (hlead : lower lead = "elseif".toList) (hcondition : IsTrimmed condition)
    (hthen : beforeWord? "then" condition = none) :
    Line.read (unwords [lead, condition]) = .elseIfLine condition := by
  have helseif : IsKeyword "elseif" := by decide
  rw [unwords_cons_cons, unwords_singleton]
  refine read_keyword helseif hlead hcondition ?_
  simp [blockLine?, conditionOf?_keyword helseif hlead hcondition hthen]

/-- Behind the word of a branch of a choice the whole text is the condition. -/
theorem read_caseLine (hlead : lower lead = "case".toList) (hcondition : IsTrimmed condition) :
    Line.read (unwords [lead, condition]) = .caseLine condition := by
  have hcase : IsKeyword "case" := by decide
  have helse := lower_append_blank_ne (show ' ' ∉ "else".toList by decide) lead condition
  have htrim : trim (' ' :: condition) = condition :=
    (trim_cons_of_pos rfl condition).trans hcondition.trim_eq
  rw [unwords_cons_cons, unwords_singleton]
  refine read_keyword hcase hlead hcondition ?_
  simp [blockLine?, conditionOf?, tailOf?, wordThen?_keyword hcase hlead,
    wordAndBlanks?_keyword hcase hlead _ hcondition, startsWithOneOf_keyword hcase hlead, helse,
    htrim]

end conditions

/-! ## Loops -/

section loops

variable {counter first last step element collection condition toWord stepWord eachWord inWord
  whileWord : List Char}

/-- Only the keywords of loops are left to try when one of them stands in front and the line is
neither the one that opens a choice nor one that is known as a whole. -/
theorem blockLine?_of_loop (hname : IsKeyword name) (hlead : lower lead = name.toList)
    (hloop : name = "for" ∨ name = "do") (hcs : IsTrimmed cs) (hblank : ' ' ∈ cs) :
    blockLine? (lead ++ ' ' :: cs) =
      ((forEachParts? (lead ++ ' ' :: cs)).orElse fun _ =>
        (forParts? (lead ++ ' ' :: cs)).orElse fun _ =>
          (((wordAndBlanks? "do" (lead ++ ' ' :: cs)).bind (argumentOf? "while")).map fun c =>
            .doWhile (trim c)).orElse fun _ => none) := by
  have hwhole : ∀ {other : String}, ' ' ∉ other.toList →
      String.ofList (lower (lead ++ ' ' :: cs)) ≠ other :=
    fun hother => lower_append_blank_ne hother lead cs
  have hcase : lower cs ≠ ['c', 'a', 's', 'e'] := by
    intro h
    have hmem : ' ' ∈ lower cs := List.mem_map.mpr ⟨' ', hblank, rfl⟩
    exact absurd (h ▸ hmem) (by decide)
  rcases hloop with rfl | rfl <;>
    simp [blockLine?, conditionOf?, tailOf?, wordThen?_keyword hname hlead,
      wordAndBlanks?_keyword hname hlead _ hcs, startsWithOneOf_keyword hname hlead, hwhole, hcase]

/-- A DO WHILE line starts with the same word as a call of a program, and is told apart by its
second word. -/
theorem read_doWhile (hlead : lower lead = "do".toList)
    (hwhile : lower whileWord = "while".toList) (hcondition : IsTrimmed condition) :
    Line.read (unwords [lead, whileWord, condition]) = .doWhile condition := by
  have hdo : IsKeyword "do" := by decide
  have hname : IsKeyword "while" := by decide
  have hbehind : IsTrimmed (whileWord ++ ' ' :: condition) := hname.isTrimmed hwhile hcondition
  have hargument : argumentOf? "while" (whileWord ++ ' ' :: condition) = some condition := by
    rw [argumentOf?, wordAndBlanks?_keyword hname hwhile _ hcondition]
    simp [hcondition.ne_nil]
  rw [unwords_cons_cons, unwords_cons_cons, unwords_singleton]
  refine read_keyword hdo hlead hbehind ?_
  rw [blockLine?_of_loop hdo hlead (.inr rfl) hbehind (by simp)]
  simp [forEachParts?, forParts?, wordAndBlanks?_keyword hdo hlead _ hbehind, hargument,
    hcondition.trim_eq]

/-- The name of an element ends at the blank behind it, so that the word IN and the collection are
what is left. A counted loop is tried later and is never reached. -/
theorem read_forEachLine (hlead : lower lead = "for".toList)
    (heach : lower eachWord = "each".toList) (hne : element ≠ [])
    (helement : ∀ c ∈ element, isWordPart c = true) (hin : lower inWord = "in".toList)
    (hcollection : IsTrimmed collection) :
    Line.read (unwords [lead, eachWord, element, inWord, collection]) =
      .forEachLine element collection := by
  have hfor : IsKeyword "for" := by decide
  have hname : IsKeyword "each" := by decide
  have hname' : IsKeyword "in" := by decide
  have hin' : IsTrimmed (inWord ++ ' ' :: collection) := hname'.isTrimmed hin hcollection
  have helement' : IsTrimmed (element ++ ' ' :: (inWord ++ ' ' :: collection)) :=
    hin'.behind hne fun c hc => not_isBlank_of_isWordPart (helement c (List.mem_of_mem_head? hc))
  have hbehind := hname.isTrimmed heach helement'
  obtain ⟨htake, hdrop⟩ := span_append_of_head? helement
    (head?_cons_eq_false (a := ' ') rfl (inWord ++ ' ' :: collection))
  have hargument : argumentOf? "in" (inWord ++ ' ' :: collection) = some collection := by
    rw [argumentOf?, wordAndBlanks?_keyword hname' hin _ hcollection]
    simp [hcollection.ne_nil]
  have hparts : forEachParts? (lead ++ ' ' :: (eachWord ++ ' ' :: (element ++ ' ' ::
      (inWord ++ ' ' :: collection)))) = some (.forEachLine element collection) := by
    rw [forEachParts?, wordAndBlanks?_keyword hfor hlead _ hbehind, if_pos rfl]
    simp only [Option.bind_eq_bind, Option.bind_some,
      wordAndBlanks?_keyword hname heach _ helement', if_true, htake, hdrop, blanks?_cons hin',
      hargument, hcollection.trim_eq, List.isEmpty_eq_false_iff.mpr hne, Bool.false_eq_true, if_false]
  simp only [unwords_cons_cons, unwords_singleton]
  refine read_keyword hfor hlead hbehind ?_
  rw [blockLine?_of_loop hfor hlead (.inl rfl) hbehind (by simp), hparts]
  rfl

/-- The text of a counted loop behind its first keyword, up to the second bound. -/
theorem cutBehindBlanks?_append (hname : IsKeyword name) (hword : lower word = name.toList)
    (hfirst : IsTrimmed first) (hlacks : Lacks name.toList first) (hrest : IsTrimmed rest) :
    cutBehindBlanks? name (' ' :: (first ++ ' ' :: (word ++ ' ' :: rest))) =
      some (first, rest) := by
  have hcut : cutAtWord? name (first ++ ' ' :: (word ++ ' ' :: rest)) = some (first, rest) :=
    cutAtWord?_append [] hname hword hrest hlacks hfirst.ne_nil
      fun _ => hfirst.getLast?_eq
  have hskip : (' ' :: (first ++ ' ' :: (word ++ ' ' :: rest))).dropWhile isAsciiBlank =
      first ++ ' ' :: (word ++ ' ' :: rest) :=
    ((hname.isTrimmed hword hrest).behind hfirst.ne_nil fun _ =>
      hfirst.head?_eq).dropWhile_isAsciiBlank
  rw [cutBehindBlanks?, hskip, hcut]

/-- What stands behind the counter. -/
theorem isTrimmed_bounds (hto : lower toWord = "to".toList) (hfirst : IsTrimmed first)
    (hrest : IsTrimmed rest) :
    IsTrimmed ('=' :: ' ' :: (first ++ ' ' :: (toWord ++ ' ' :: rest))) := by
  have hname : IsKeyword "to" := by decide
  have hbounds := (hname.isTrimmed hto hrest).behind hfirst.ne_nil fun _ => hfirst.head?_eq
  exact hbounds.behind (List.cons_ne_nil '=' []) (head?_cons_eq_false rfl [])

/-- A counter: words with dots between them. -/
structure IsCounter (counter : List Char) : Prop where
  ne_nil : counter ≠ []
  isCounterChar : ∀ c ∈ counter, (isWordPart c || c == '.') = true

namespace IsCounter

variable (hcounter : IsCounter counter)
include hcounter

/-- A counter is one word. -/
theorem not_isBlank_of_mem {c : Char} (hc : c ∈ counter) : isBlank c = false := by
  rcases (Bool.or_eq_true _ _).mp (hcounter.isCounterChar c hc) with h | h
  · exact not_isBlank_of_isWordPart h
  · rw [beq_iff_eq.mp h]
    decide

theorem isTrimmed (hcs : IsTrimmed cs) : IsTrimmed (counter ++ ' ' :: cs) :=
  hcs.behind hcounter.ne_nil fun _ hc => hcounter.not_isBlank_of_mem (List.mem_of_mem_head? hc)

/-- A line with a counter and an equals sign is no loop over a collection, even where the counter
has the name of the keyword. -/
theorem forEachParts?_eq_none (hlead : lower lead = "for".toList) (hcs : IsTrimmed ('=' :: cs)) :
    forEachParts? (lead ++ ' ' :: (counter ++ ' ' :: '=' :: cs)) = none := by
  have hfor : IsKeyword "for" := by decide
  rw [forEachParts?, wordAndBlanks?_keyword hfor hlead _ (hcounter.isTrimmed hcs), if_pos rfl]
  obtain ⟨front, back, hsplit, hfront, hback⟩ := exists_run isWordPart counter
  have hend : ∀ c, (back ++ ' ' :: '=' :: cs).head? = some c → isWordPart c = false := by
    cases back with
    | nil =>
      rintro c ⟨⟩
      rfl
    | cons d back => exact fun c hc => hback c hc
  rw [Option.bind_eq_bind, Option.bind_some, hsplit, List.append_assoc, wordAndBlanks?,
    wordThen?_append hfront hend]
  split
  · cases back with
    | nil =>
      rw [List.nil_append, Option.bind_some, blanks?_cons hcs]
      rfl
    | cons d back =>
      -- behind the keyword the counter goes on with a dot
      have hd := not_isAsciiBlank_of_not_isBlank
        (hcounter.not_isBlank_of_mem (c := d) (by simp [hsplit]))
      simp [blanks?, hd]
  · rfl

/-- Counter and bounds of a counted loop, with the step cut off at its keyword. -/
theorem forParts?_eq (hlead : lower lead = "for".toList) (hto : lower toWord = "to".toList)
    (hfirst : IsTrimmed first) (hlacks : Lacks "to".toList first) (hrest : IsTrimmed rest) :
    forParts? (lead ++ ' ' :: (counter ++ ' ' :: '=' :: ' ' ::
        (first ++ ' ' :: (toWord ++ ' ' :: rest)))) =
      match cutAtWord? "step" rest with
      | some (last, step) => some (.forLine counter first (trim last) (some (trim step)))
      | none => some (.forLine counter first (trim rest) none) := by
  have hfor : IsKeyword "for" := by decide
  have hname : IsKeyword "to" := by decide
  have hequals := isTrimmed_bounds hto hfirst hrest
  obtain ⟨htake, hdrop⟩ := span_append_of_head? hcounter.isCounterChar
    (head?_cons_eq_false (a := ' ') rfl
      ('=' :: ' ' :: (first ++ ' ' :: (toWord ++ ' ' :: rest))))
  have hskip : (' ' :: '=' :: ' ' :: (first ++ ' ' :: (toWord ++ ' ' :: rest))).dropWhile
      isAsciiBlank = '=' :: ' ' :: (first ++ ' ' :: (toWord ++ ' ' :: rest)) :=
    hequals.dropWhile_isAsciiBlank
  rw [forParts?, wordAndBlanks?_keyword hfor hlead _ (hcounter.isTrimmed hequals), if_pos rfl,
    Option.bind_eq_bind, Option.bind_some]
  dsimp only
  rw [htake, hdrop, hskip, if_neg (by simp [hcounter.ne_nil])]
  change (cutBehindBlanks? "to" (' ' :: (first ++ ' ' :: (toWord ++ ' ' :: rest)))).bind _ = _
  have hparts := cutBehindBlanks?_append hname hto hfirst hlacks hrest
  cases hcut : cutAtWord? "step" rest <;>
    simp only [hparts, hcut, Option.bind_some, hfirst.trim_eq]

/-- A line with counter and bounds is read as its parts make it. -/
theorem read_eq {line : Line} (hlead : lower lead = "for".toList) (hto : lower toWord = "to".toList)
    (hfirst : IsTrimmed first) (hlacks : Lacks "to".toList first) (hrest : IsTrimmed rest)
    (hline : (match cutAtWord? "step" rest with
      | some (last, step) => some (.forLine counter first (trim last) (some (trim step)))
      | none => some (.forLine counter first (trim rest) none)) = some line) :
    Line.read (lead ++ ' ' :: (counter ++ ' ' :: '=' :: ' ' ::
      (first ++ ' ' :: (toWord ++ ' ' :: rest)))) = line := by
  have hfor : IsKeyword "for" := by decide
  have hequals := isTrimmed_bounds hto hfirst hrest
  have hbehind := hcounter.isTrimmed hequals
  refine read_keyword hfor hlead hbehind ?_
  rw [blockLine?_of_loop hfor hlead (.inl rfl) hbehind (by simp),
    hcounter.forEachParts?_eq_none hlead hequals,
    hcounter.forParts?_eq hlead hto hfirst hlacks hrest, hline]
  rfl

end IsCounter

/-- A counted loop without a step. -/
theorem read_forLine (hlead : lower lead = "for".toList) (hcounter : IsCounter counter)
    (hfirst : IsTrimmed first) (hlacks : Lacks "to".toList first)
    (hto : lower toWord = "to".toList) (hlast : IsTrimmed last)
    (hlacks' : Lacks "step".toList last) :
    Line.read (unwords [lead, counter, ['='], first, toWord, last]) =
      .forLine counter first last none := by
  have hstep : IsKeyword "step" := by decide
  have hcut : cutAtWord? "step" last = none :=
    cutAtWord?_eq_none [] hstep hlacks' fun _ => hlast.getLast?_eq
  simp only [unwords_cons_cons, unwords_singleton]
  refine hcounter.read_eq hlead hto hfirst hlacks hlast ?_
  rw [hcut, hlast.trim_eq]

/-- With a step, the last value ends in front of the word STEP. -/
theorem read_forLine_step (hlead : lower lead = "for".toList) (hcounter : IsCounter counter)
    (hfirst : IsTrimmed first) (hlacks : Lacks "to".toList first)
    (hto : lower toWord = "to".toList) (hlast : IsTrimmed last)
    (hlacks' : Lacks "step".toList last) (hword : lower stepWord = "step".toList)
    (hstep : IsTrimmed step) :
    Line.read (unwords [lead, counter, ['='], first, toWord, last, stepWord, step]) =
      .forLine counter first last (some step) := by
  have hname : IsKeyword "step" := by decide
  have hcut : cutAtWord? "step" (last ++ ' ' :: (stepWord ++ ' ' :: step)) = some (last, step) :=
    cutAtWord?_append [] hname hword hstep hlacks' hlast.ne_nil fun _ => hlast.getLast?_eq
  have hrest : IsTrimmed (last ++ ' ' :: (stepWord ++ ' ' :: step)) :=
    (hname.isTrimmed hword hstep).behind hlast.ne_nil fun _ => hlast.head?_eq
  simp only [unwords_cons_cons, unwords_singleton]
  refine hcounter.read_eq hlead hto hfirst hlacks hrest ?_
  simp only [hcut, hlast.trim_eq, hstep.trim_eq]

end loops

end Code

end ScreenForms
