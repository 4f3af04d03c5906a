import ScreenForms.Proofs.Folding
import ScreenForms.Proofs.Literals
import ScreenForms.Proofs.UnbrokenLines

/-!
# Words and keywords of screen programs

Words stand between blanks, but a blank in quotes or brackets separates nothing. A text that closes
all quotes and brackets that it opens is level: a blank behind it separates, so its words are
followed by those of the rest (`words_append_blank`). A text of solid characters is one word. A
keyword is spelled in full or cut short, and its spellings are finitely many (`isKeyword_iff`).
-/

namespace ScreenForms

namespace Text

variable {c : Char} {cs ds : List Char}

/-! ## Level texts -/

/-- How deep a scan is behind a text. -/
def Depth.behind (d : Depth) (cs : List Char) : Depth := cs.foldl Depth.after d

theorem Depth.behind_cons (d : Depth) (c : Char) (cs : List Char) :
    d.behind (c :: cs) = (d.after c).behind cs := rfl

/-- The depth behind a text is reached piece by piece. -/
theorem Depth.behind_append (d : Depth) (cs ds : List Char) :
    d.behind (cs ++ ds) = (d.behind cs).behind ds := List.foldl_append

/-- A text that closes the quotes and brackets that it opens. -/
def IsLevel (cs : List Char) : Prop := Depth.behind {} cs = {}

instance (cs : List Char) : Decidable (IsLevel cs) := inferInstanceAs (Decidable (_ = _))

/-- A character that is neither a blank nor a mark. -/
def isSolid (c : Char) : Bool := !isBlank c && !isMark c

/-- A text of solid characters. -/
def IsSolid (cs : List Char) : Prop := ∀ c ∈ cs, isSolid c = true

/-- Solid characters neither separate words nor open or close anything. -/
theorem isSolid_iff : isSolid c = true ↔ isBlank c = false ∧ isMark c = false := by
  simp [isSolid]

theorem IsSolid.not_isBlank (h : IsSolid cs) : ∀ c ∈ cs, isBlank c = false := fun c hc =>
  (isSolid_iff.mp (h c hc)).1

theorem IsSolid.not_isMark (h : IsSolid cs) : ∀ c ∈ cs, isMark c = false := fun c hc =>
  (isSolid_iff.mp (h c hc)).2

/-- Outside of quotes only marks change the depth. -/
theorem Depth.after_of_not_isMark {d : Depth} (hd : d.quote = none) (hc : isMark c = false) :
    d.after c = d := by
  simp only [isMark, Bool.or_eq_false_iff, beq_eq_false_iff_ne] at hc
  simp [Depth.after, hd, hc]

/-- A character outside of quotes and brackets leaves the depth as it is. -/
theorem Depth.after_of_isOutside {d : Depth} (h : d.isOutside c = true) : d.after c = d := by
  simp only [Depth.isOutside, Bool.and_eq_true, Option.isNone_iff_eq_none, Bool.not_eq_true'] at h
  exact Depth.after_of_not_isMark h.1.1 h.2

theorem isMark_of_isBlank (hc : isBlank c = true) : isMark c = false := by
  have hmarks : ∀ m ∈ ['"', '\'', '(', '[', ')', ']'], isBlank m = false := by simp [isBlank]
  have hne : ∀ m ∈ ['"', '\'', '(', '[', ')', ']'], c ≠ m := by
    rintro m hm rfl
    rw [hmarks c hm] at hc
    cases hc
  simp only [List.forall_mem_cons] at hne
  simp [isMark, isQuote, hne]

theorem not_isMark_of_blanks (h : ∀ c ∈ cs, isBlank c = true) : ∀ c ∈ cs, isMark c = false :=
  fun c hc => isMark_of_isBlank (h c hc)

/-- A text without marks changes neither the literal nor the bracket that it stands in. -/
theorem isLevel_of_not_isMark (h : ∀ c ∈ cs, isMark c = false) : IsLevel cs := by
  induction cs with
  | nil => rfl
  | cons c cs ih =>
    obtain ⟨hc, hcs⟩ := List.forall_mem_cons.mp h
    rw [IsLevel, Depth.behind_cons, Depth.after_of_not_isMark rfl hc]
    exact ih hcs

theorem IsSolid.isLevel (h : IsSolid cs) : IsLevel cs :=
  isLevel_of_not_isMark h.not_isMark

/-! ## Splitting -/

section splitFrom

variable {p : Char → Bool} {d : Depth}

/-- A separator outside of literals and brackets ends the piece in front of it. -/
theorem splitFrom_separator (hc : (d.isOutside c && p c) = true) (cs : List Char) :
    splitFrom p d (c :: cs) = [] :: splitFrom p d cs := by
  rw [splitFrom, if_pos hc]

/-- A separator behind a text ends the last piece of it. -/
theorem splitFrom_append_separator (hc : ((d.behind cs).isOutside c && p c) = true)
    (ds : List Char) :
    splitFrom p d (cs ++ c :: ds) = splitFrom p d cs ++ splitFrom p (d.behind cs) ds := by
  induction cs generalizing d with
  | nil => exact splitFrom_separator hc ds
  | cons b cs ih =>
    have hrest := ih (d := d.after b) hc
    rw [Depth.behind_cons]
    rcases hb : d.isOutside b && p b with _ | _
    · obtain ⟨piece, pieces, hcs, hsplit⟩ := splitFrom_cons_of_neg hb cs
      rw [hcs] at hrest
      rw [hsplit]
      exact splitFrom_cons_of_eq hb hrest
    · have hsame := Depth.after_of_isOutside ((Bool.and_eq_true _ _).mp hb).1
      rw [hsame] at hrest ⊢
      rw [List.cons_append, splitFrom_separator hb, splitFrom_separator hb, hrest, List.cons_append]

/-- A text without separators is one piece. -/
theorem splitFrom_of_forall (h : ∀ c ∈ cs, p c = false) : splitFrom p d cs = [cs] := by
  induction cs generalizing d with
  | nil => rfl
  | cons c cs ih =>
    obtain ⟨hc, hcs⟩ := List.forall_mem_cons.mp h
    exact splitFrom_cons_of_eq (by simp [hc]) (ih hcs)

/-- What stands in front without marks and separators is in front of the first piece. -/
theorem splitFrom_append_of_forall (hd : d.quote = none)
    (h : ∀ c ∈ cs, p c = false ∧ isMark c = false) {piece : List Char} {pieces : List (List Char)}
    (hds : splitFrom p d ds = piece :: pieces) :
    splitFrom p d (cs ++ ds) = (cs ++ piece) :: pieces := by
  induction cs with
  | nil => exact hds
  | cons c cs ih =>
    obtain ⟨⟨hc, hmark⟩, hcs⟩ := List.forall_mem_cons.mp h
    have hsame := Depth.after_of_not_isMark hd hmark
    exact splitFrom_cons_of_eq (by simp [hc]) (hsame.symm ▸ ih hcs)

end splitFrom

/-- A separator behind a level text cuts there. -/
theorem splitTopLevel_append {sep : Char} (hcs : IsLevel cs) (hsep : isMark sep = false)
    (ds : List Char) :
    splitTopLevel sep (cs ++ sep :: ds) = splitTopLevel sep cs ++ splitTopLevel sep ds := by
  unfold splitTopLevel
  rw [splitFrom_append_separator (d := {}) (by rw [hcs]; simp [Depth.isOutside, hsep]), hcs]

/-! ## Words -/

/-- A blank behind a level text ends the words of it. -/
theorem words_append_blank (hcs : IsLevel cs) (hc : isBlank c = true) (ds : List Char) :
    words (cs ++ c :: ds) = words cs ++ words ds := by
  have houtside : (({} : Depth).isOutside c && isBlank c) = true := by
    simp [Depth.isOutside, hc, isMark_of_isBlank hc]
  unfold words
  rw [splitFrom_append_separator (d := {}) (by rw [hcs]; exact houtside), hcs, List.filter_append]

/-- Blanks in front make no words. -/
theorem words_blanks_append (h : ∀ c ∈ cs, isBlank c = true) (ds : List Char) :
    words (cs ++ ds) = words ds := by
  induction cs with
  | nil => rfl
  | cons c cs ih =>
    obtain ⟨hc, hcs⟩ := List.forall_mem_cons.mp h
    have hlevel : IsLevel [] := rfl
    exact (words_append_blank hlevel hc (cs ++ ds)).trans (ih hcs)

/-- Blanks between a level text and what follows. -/
theorem words_append_blanks (hcs : IsLevel cs) {gap : List Char} (hne : gap ≠ [])
    (hgap : ∀ c ∈ gap, isBlank c = true) (ds : List Char) :
    words (cs ++ (gap ++ ds)) = words cs ++ words ds := by
  obtain ⟨b, gap, rfl⟩ := List.exists_cons_of_ne_nil hne
  obtain ⟨hb, hgap⟩ := List.forall_mem_cons.mp hgap
  rw [List.cons_append, words_append_blank hcs hb, words_blanks_append hgap]

/-- A solid text is one word. -/
theorem words_solid (hcs : IsSolid cs) (hne : cs ≠ []) : words cs = [cs] := by
  unfold words
  rw [splitFrom_of_forall hcs.not_isBlank]
  simp [hne]

/-- A solid text in front belongs to the first word, where no blank comes between. -/
theorem words_solid_append (hcs : IsSolid cs) (hc : isBlank c = false) {word : List Char}
    {rest : List (List Char)} (hwords : words (c :: ds) = word :: rest) :
    words (cs ++ c :: ds) = (cs ++ word) :: rest := by
  obtain ⟨piece, pieces, -, hsplit⟩ :=
    splitFrom_cons_of_neg (p := isBlank) (d := {}) (c := c) (by simp [hc]) ds
  unfold words at hwords ⊢
  rw [splitFrom_append_of_forall rfl (fun c hc => isSolid_iff.mp (hcs c hc)) hsplit]
  rw [hsplit] at hwords
  simp only [List.isEmpty_cons, Bool.not_false, List.filter_cons_of_pos, List.cons.injEq]
    at hwords
  rw [List.filter_cons_of_pos (by simp), ← hwords.1, hwords.2]

/-- Words are joined by one blank each. -/
theorem unwords_cons_cons (w v : List Char) (ws : List (List Char)) :
    unwords (w :: v :: ws) = w ++ ' ' :: unwords (v :: ws) := by
  simp [unwords, joinWith]

/-- Solid words are read back from a text that joins them. -/
theorem words_unwords {ws : List (List Char)} (h : ∀ w ∈ ws, IsSolid w ∧ w ≠ []) :
    words (unwords ws) = ws := by
  induction ws with
  | nil => rfl
  | cons w ws ih =>
    obtain ⟨⟨hsolid, hne⟩, hws⟩ := List.forall_mem_cons.mp h
    cases ws with
    | nil => exact words_solid hsolid hne
    | cons v ws =>
      rw [unwords_cons_cons, words_append_blank hsolid.isLevel (by decide), ih hws,
        words_solid hsolid hne]
      rfl

/-- Without marks around, pieces hold no separators. -/
theorem not_mem_of_mem_splitFrom {p : Char → Bool} (hcs : ∀ c ∈ cs, isMark c = false)
    {piece : List Char} (h : piece ∈ splitFrom p {} cs) : ∀ c ∈ piece, p c = false := by
  induction cs generalizing piece with
  | nil =>
    obtain rfl := List.mem_singleton.mp h
    simp
  | cons c cs ih =>
    obtain ⟨hmark, hcs⟩ := List.forall_mem_cons.mp hcs
    have houtside : ({} : Depth).isOutside c = true := by simp [Depth.isOutside, hmark]
    rcases hc : p c with _ | _
    · obtain ⟨first, rest, hrest, hsplit⟩ :=
        splitFrom_cons_of_neg (p := p) (d := {}) (c := c) (by simp [hc]) cs
      rw [Depth.after_of_not_isMark rfl hmark] at hrest
      rw [hsplit] at h
      rcases List.mem_cons.mp h with rfl | h
      · exact List.forall_mem_cons.mpr ⟨hc, ih hcs (hrest ▸ List.mem_cons_self)⟩
      · exact ih hcs (hrest ▸ List.mem_cons_of_mem first h)
    · rw [splitFrom_separator (by simp [houtside, hc])] at h
      rcases List.mem_cons.mp h with rfl | h
      · simp
      · exact ih hcs h

/-- Without marks around, words are solid. -/
theorem isSolid_of_mem_words (hcs : ∀ c ∈ cs, isMark c = false) {word : List Char}
    (h : word ∈ words cs) : IsSolid word ∧ word ≠ [] := by
  obtain ⟨hmem, hne⟩ := List.mem_filter.mp h
  refine ⟨fun c hc => isSolid_iff.mpr ⟨not_mem_of_mem_splitFrom hcs hmem c hc,
    hcs c (mem_of_mem_splitFrom hmem hc)⟩, ?_⟩
  rintro rfl
  cases hne

/-! ## Words between blanks -/

/-- A text without blanks is one word between blanks. -/
theorem blankWords_of_forall (hne : cs ≠ []) (h : ∀ c ∈ cs, isBlank c = false) :
    blankWords cs = [cs] := by
  have hgo : ∀ word, cs ≠ [] ∨ word ≠ [] → blankWords.go cs word = [word.reverse ++ cs] := by
    clear hne
    induction cs with
    | nil =>
      intro word hword
      simp [blankWords.go, hword.resolve_left (by simp)]
    | cons c cs ih =>
      intro word _
      obtain ⟨hc, hcs⟩ := List.forall_mem_cons.mp h
      simp [blankWords.go, hc, ih hcs (c :: word) (.inr (List.cons_ne_nil c word))]
  exact hgo [] (.inl hne)

end Text

namespace Screen

open Record (isNameStart isWordChar)

/-! ## Identifiers -/

/-- A letter or underscore, and any more letters, digits and underscores. -/
def IsIdentifier (name : List Char) : Prop :=
  ∃ c cs, name = c :: cs ∧ isNameStart c = true ∧ ∀ d ∈ cs, isWordChar d = true

theorem isWordChar_of_isNameStart {c : Char} (h : isNameStart c = true) : isWordChar c = true := by
  simp only [isNameStart, isWordChar, Char.isAlphanum, Bool.or_eq_true] at h ⊢
  tauto

variable {name : List Char}

theorem IsIdentifier.ne_nil (h : IsIdentifier name) : name ≠ [] := by
  obtain ⟨c, cs, rfl, -, -⟩ := h
  exact List.cons_ne_nil c cs

/-- All characters of an identifier are those of words, its first one included. -/
theorem IsIdentifier.isWordChar (h : IsIdentifier name) :
    ∀ c ∈ name, Record.isWordChar c = true := by
  obtain ⟨c, cs, rfl, hc, hcs⟩ := h
  exact List.forall_mem_cons.mpr ⟨isWordChar_of_isNameStart hc, hcs⟩

/-- A character of a name is none of the others. -/
theorem ne_of_isWordChar {c d : Char} (hc : isWordChar c = true) (hd : isWordChar d = false) :
    c ≠ d := by
  rintro rfl
  rw [hc] at hd
  cases hd

/-- Word characters are solid, so that an identifier is one word wherever it stands between
blanks. -/
theorem isSolid_of_isWordChar {c : Char} (hc : isWordChar c = true) : Text.isSolid c = true := by
  have hmarks : ∀ m ∈ ['"', '\'', '(', '[', ')', ']'], isWordChar m = false := by
    simp [isWordChar]
  have hne : ∀ m ∈ ['"', '\'', '(', '[', ')', ']'], c ≠ m := fun m hm =>
    ne_of_isWordChar hc (hmarks m hm)
  simp only [List.forall_mem_cons] at hne
  refine Text.isSolid_iff.mpr ⟨?_, by simp [Text.isMark, Text.isQuote, hne]⟩
  rw [isWordChar, Bool.or_eq_true, beq_iff_eq] at hc
  rcases hc with hc | rfl
  · exact Text.not_isBlank_of_isAlphanum hc
  · decide

theorem IsIdentifier.isSolid (h : IsIdentifier name) : Text.IsSolid name := fun c hc =>
  isSolid_of_isWordChar (h.isWordChar c hc)

/-! ## Keywords -/

/-- A keyword in full, and its beginnings that are long enough. -/
def spellings (keyword : String) : List (List Char) :=
  keyword.toList.inits.filter fun s =>
    s == keyword.toList || shortestKeyword ≤ (String.ofList s).utf8ByteSize

theorem isSome_dropLead?_iff {lead cs : List Char} :
    (Text.dropLead? lead cs).isSome ↔ lead <+: cs := by
  rw [Option.isSome_iff_exists]
  constructor
  · rintro ⟨rest, h⟩
    exact ⟨rest, (Text.eq_append_of_dropLead? h).symm⟩
  · rintro ⟨rest, rfl⟩
    exact ⟨rest, Text.dropLead?_append lead rest⟩

/-- A word is a keyword where it is one of the spellings, in any case. -/
theorem isKeyword_iff {word : List Char} {keyword : String} :
    isKeyword word keyword = true ↔ Text.upper word ∈ spellings keyword := by
  simp only [isKeyword, spellings, List.mem_filter, List.mem_inits, Bool.or_eq_true, beq_iff_eq,
    Bool.and_eq_true, decide_eq_true_iff, isSome_dropLead?_iff]
  constructor
  · rintro (h | ⟨hlong, hlead⟩)
    · exact ⟨h ▸ List.prefix_rfl, .inl h⟩
    · exact ⟨hlead, .inr hlong⟩
  · rintro ⟨hlead, h | hlong⟩
    · exact .inl h
    · exact .inr ⟨hlong, hlead⟩

/-- Words of capital letters. -/
def Capitals (words : List String) : Prop :=
  ∀ w ∈ words, w ≠ "" ∧ ∀ c ∈ w.toList, c.isUpper = true

variable {word : List Char} {keyword : String}

/-- A keyword is spelled with letters. -/
theorem isAlpha_of_isKeyword (hcapitals : ∀ c ∈ keyword.toList, c.isUpper = true)
    (h : isKeyword word keyword = true) : ∀ c ∈ word, c.isAlpha = true := by
  intro c hc
  have hinits := (List.mem_inits _ _).mp (List.mem_of_mem_filter (isKeyword_iff.mp h))
  rw [← Char.isUpper_toUpper_eq_isAlpha]
  exact hcapitals _ (hinits.subset (List.mem_map_of_mem hc))

/-- The same is true of a keyword in any spelling, as its letters are those of its capitals. -/
theorem isSolid_of_isKeyword (hcapitals : ∀ c ∈ keyword.toList, c.isUpper = true)
    (h : isKeyword word keyword = true) : Text.IsSolid word := fun c hc =>
  isSolid_of_isWordChar (by
    simp [isWordChar, Char.isAlphanum, isAlpha_of_isKeyword hcapitals h c hc])

/-- No keyword is the empty word. -/
theorem ne_nil_of_isKeyword (hne : keyword ≠ "") (h : isKeyword word keyword = true) :
    word ≠ [] := by
  rintro rfl
  have hlong := (List.mem_filter.mp (isKeyword_iff.mp h)).2
  simp only [Text.upper, List.map_nil, Bool.or_eq_true, beq_iff_eq] at hlong
  rcases hlong with hlong | hlong
  · exact hne (String.toList_eq_nil_iff.mp hlong.symm)
  · revert hlong
    decide

/-- A word does not spell two keywords that share no spelling. -/
theorem isKeyword_eq_false_of_disjoint {keyword' : String}
    (hdisjoint : ∀ s ∈ spellings keyword, s ∉ spellings keyword')
    (h : isKeyword word keyword = true) : isKeyword word keyword' = false := by
  rw [Bool.eq_false_iff, ne_eq, isKeyword_iff]
  exact hdisjoint _ (isKeyword_iff.mp h)

/-- A word with a sign in it spells no keyword. -/
theorem find?_isKeyword_eq_none {keywords : List String} (hcapitals : Capitals keywords) {c : Char}
    (hc : c.isAlpha = false) (hmem : c ∈ word) : keywords.find? (isKeyword word) = none := by
  refine List.find?_eq_none.mpr fun keyword hkeyword h => ?_
  rw [isAlpha_of_isKeyword (hcapitals keyword hkeyword).2 h c hmem] at hc
  cases hc

end Screen

end ScreenForms
