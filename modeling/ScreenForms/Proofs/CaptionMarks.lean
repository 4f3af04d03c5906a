import ScreenForms.Proofs.Blanks
import ScreenForms.Screen.Caption

/-!
# Captions with marks

A caption is written as a series of marks, in any order and number, with its text behind them and
a hotkey mark somewhere in the text. Every raw caption is of this form, but for several hotkey
marks: the marks in front are read off two characters at a time (`exists_marks`), and the hotkey
marks cut what is left into pieces (`exists_pieces`). Reading drops all marks, and of the hotkey
marks only the first one counts, for the character behind it (`read_eq`).
-/

namespace ScreenForms.Screen.Caption

/-! ## The marks in front -/

/-- A mark in front of a caption. -/
inductive Mark where
  | disabled
  | default
  | cancel
  deriving DecidableEq, Repr

/-- The text of a mark. -/
def Mark.text : Mark → List Char
  | .disabled => ['\\', '\\']
  | .default => ['\\', '!']
  | .cancel => ['\\', '?']

/-- A series of marks as it is written. -/
abbrev marksText (marks : List Mark) : List Char := marks.flatMap Mark.text

/-- A caption to which marks are added. -/
def withMarks (marks : List Mark) (item : Caption) : Caption :=
  { item with
    disabled := item.disabled || decide (.disabled ∈ marks)
    isDefault := item.isDefault || decide (.default ∈ marks)
    isCancel := item.isCancel || decide (.cancel ∈ marks) }

variable {marks : List Mark} {cs rest text : List Char} {item : Caption}

theorem readMarks_mark (m : Mark) (cs : List Char) (item : Caption) :
    readMarks (m.text ++ cs) item = readMarks cs (withMarks [m] item) := by
  cases m <;> simp [Mark.text, readMarks, withMarks]

theorem withMarks_cons (m : Mark) (marks : List Mark) (item : Caption) :
    withMarks (m :: marks) item = withMarks marks (withMarks [m] item) := by
  cases m <;> simp [withMarks]

/-- Reading stops where no mark begins. -/
theorem readMarks_of_forall (h : ∀ m : Mark, ¬ m.text <+: cs) : readMarks cs item = (item, cs) := by
  unfold readMarks
  split
  · exact absurd (List.prefix_append _ _) (h .disabled)
  · exact absurd (List.prefix_append _ _) (h .default)
  · exact absurd (List.prefix_append _ _) (h .cancel)
  · rfl

theorem readMarks_marksText (h : ∀ m : Mark, ¬ m.text <+: rest) (marks : List Mark)
    (item : Caption) : readMarks (marksText marks ++ rest) item = (withMarks marks item, rest) := by
  induction marks generalizing item with
  | nil => simpa [withMarks] using readMarks_of_forall h
  | cons m marks ih =>
    rw [marksText, List.flatMap_cons, List.append_assoc, readMarks_mark, ih,
      ← withMarks_cons]

/-- Every caption begins with a series of marks. -/
theorem exists_marks (cs : List Char) :
    ∃ marks rest, cs = marksText marks ++ rest ∧ ∀ m : Mark, ¬ m.text <+: rest := by
  induction hn : cs.length using Nat.strong_induction_on generalizing cs with
  | _ n ih =>
    by_cases hlead : ∃ m : Mark, m.text <+: cs
    · obtain ⟨m, cs', rfl⟩ := hlead
      have hlt : cs'.length < n := by
        cases m <;> simp [Mark.text] at hn <;> omega
      obtain ⟨marks, rest, rfl, hrest⟩ := ih _ hlt cs' rfl
      exact ⟨m :: marks, rest, by simp, hrest⟩
    · exact ⟨[], cs, rfl, not_exists.mp hlead⟩

/-! ## Hotkey marks -/

/-- The mark in front of a hotkey. -/
def hotkeyMark : List Char := ['\\', '<']

/-- A text with a hotkey mark before every piece but the first. -/
def joinPieces (first : List Char) (later : List (List Char)) : List Char :=
  first ++ later.flatMap (hotkeyMark ++ ·)

theorem joinPieces_cons (first piece : List Char) (later : List (List Char)) :
    joinPieces first (piece :: later) = first ++ (hotkeyMark ++ joinPieces piece later) := by
  rw [joinPieces, joinPieces, List.flatMap_cons, List.append_assoc]

/-- What stands behind the first hotkey mark. -/
theorem getElem?_joinPieces (first piece : List Char) (later : List (List Char)) :
    (joinPieces first (piece :: later))[first.length + 2]? = (joinPieces piece later).head? := by
  rw [joinPieces_cons, List.getElem?_append_right (Nat.le_add_right _ 2), Nat.add_sub_cancel_left,
    List.head?_eq_getElem?]
  rfl

theorem readHotkey_mark (cs : List Char) :
    readHotkey (hotkeyMark ++ cs) = ((readHotkey cs).1, cs.head?) := by
  cases cs with
  | nil => rfl
  | cons c cs => rfl

theorem readHotkey_piece {piece : List Char} (hpiece : ¬ hotkeyMark <:+: piece)
    (hrest : rest = [] ∨ hotkeyMark <+: rest) :
    readHotkey (piece ++ rest) = (piece ++ (readHotkey rest).1, (readHotkey rest).2) := by
  induction piece with
  | nil => rfl
  | cons c piece ih =>
    have hlater : ¬ hotkeyMark <:+: piece :=
      fun h => hpiece (h.trans (List.suffix_cons c piece).isInfix)
    have hmark : ∀ cs, c = '\\' → piece ++ rest ≠ '<' :: cs := by
      rintro cs rfl heq
      cases piece with
      | nil =>
        rcases hrest with rfl | ⟨cs', rfl⟩
        · cases heq
        · exact absurd (List.cons.inj heq).1 (by decide)
      | cons d piece =>
        obtain ⟨rfl, -⟩ := List.cons.inj heq
        exact hpiece (List.prefix_append _ _).isInfix
    rw [List.cons_append, readHotkey.eq_2 _ _ (fun cs hc hcs => hmark cs hc hcs), ih hlater]
    rfl

/-- Hotkey marks are dropped, and the first one tells the hotkey. -/
theorem readHotkey_joinPieces {first : List Char} {later : List (List Char)}
    (h : ∀ piece ∈ first :: later, ¬ hotkeyMark <:+: piece) :
    readHotkey (joinPieces first later) =
      (first ++ later.flatten, (joinPieces first later)[first.length + 2]?) := by
  induction later generalizing first with
  | nil =>
    rw [joinPieces, List.flatMap_nil, readHotkey_piece (h first List.mem_cons_self) (.inl rfl)]
    simp [readHotkey]
  | cons piece later ih =>
    obtain ⟨hfirst, hlater⟩ := List.forall_mem_cons.mp h
    rw [joinPieces_cons, readHotkey_piece hfirst (.inr (List.prefix_append _ _)), readHotkey_mark,
      ih hlater, ← joinPieces_cons, getElem?_joinPieces]
    rfl

/-- Every text is cut into pieces by its hotkey marks. The cases are those of the reader, so that
the pieces are what it leaves between the marks. -/
theorem exists_pieces (cs : List Char) : ∃ first later, cs = joinPieces first later ∧
    ∀ piece ∈ first :: later, ¬ hotkeyMark <:+: piece := by
  induction cs using readHotkey.induct with
  | case1 cs _ _ _ ih =>
    obtain ⟨first, later, rfl, hpieces⟩ := ih
    refine ⟨[], first :: later, by simp [joinPieces, hotkeyMark], ?_⟩
    exact List.forall_mem_cons.mpr ⟨by simp [hotkeyMark], hpieces⟩
  | case2 c cs hmark _ _ _ ih =>
    obtain ⟨first, later, rfl, hpieces⟩ := ih
    obtain ⟨hfirst, hlater⟩ := List.forall_mem_cons.mp hpieces
    refine ⟨c :: first, later, rfl, List.forall_mem_cons.mpr ⟨fun h => ?_, hlater⟩⟩
    rcases List.infix_cons_iff.mp h with ⟨cs, hlead⟩ | hinner
    · obtain ⟨rfl, htail⟩ := List.cons.inj hlead
      obtain rfl : first = '<' :: cs := htail.symm
      exact hmark (cs ++ later.flatMap (hotkeyMark ++ ·)) rfl rfl
    · exact hfirst hinner
  | case3 => exact ⟨[], [], rfl, by simp [hotkeyMark]⟩

/-! ## Reading -/

/-- A caption is read by its marks and pieces. -/
theorem read_eq {raw first : List Char} {later : List (List Char)}
    (hraw : Text.trim raw = marksText marks ++ joinPieces first later)
    (hmarks : ∀ m : Mark, ¬ m.text <+: joinPieces first later)
    (hpieces : ∀ piece ∈ first :: later, ¬ hotkeyMark <:+: piece) :
    read raw =
      { text := first ++ later.flatten
        hotkey := (joinPieces first later)[first.length + 2]?
        disabled := decide (.disabled ∈ marks)
        isDefault := decide (.default ∈ marks)
        isCancel := decide (.cancel ∈ marks) } := by
  rw [read, hraw, readMarks_marksText hmarks]
  dsimp only
  rw [readHotkey_joinPieces hpieces]
  simp [withMarks]

/-! ## Writing -/

/-- A text with a hotkey mark before one of its characters, or without one. -/
def withHotkey (text : List Char) : Option (Fin text.length) → List Char
  | none => text
  | some k => text.take k ++ hotkeyMark ++ text.drop k

theorem isBlank_of_mem_marksText {c : Char} (h : c ∈ marksText marks) : Text.isBlank c = false := by
  obtain ⟨m, -, hc⟩ := List.mem_flatMap.mp h
  have hall : m.text.all (fun c => Text.isBlank c == false) = true := by
    cases m <;> decide
  exact beq_iff_eq.mp (List.all_eq_true.mp hall c hc)

theorem trim_withHotkey (h : Text.trim text = text) (hotkeyAt : Option (Fin text.length)) :
    Text.trim (withHotkey text hotkeyAt) = withHotkey text hotkeyAt := by
  rcases hotkeyAt with _ | k
  · exact h
  · have hall : hotkeyMark.all (fun c => Text.isBlank c == false) = true := by decide
    refine Text.trim_insert ?_ fun c hc => beq_iff_eq.mp (List.all_eq_true.mp hall c hc)
    rwa [List.take_append_drop]

theorem trim_marksText_append (h : Text.trim cs = cs) (marks : List Mark) :
    Text.trim (marksText marks ++ cs) = marksText marks ++ cs := by
  have hfront : Text.trim ([] ++ cs) = [] ++ cs := h
  exact Text.trim_insert hfront fun _ => isBlank_of_mem_marksText

/-- What begins with a hotkey mark or with no backslash at all begins with no other mark. -/
theorem not_mark_isPrefix {first : List Char} (h : '\\' ∉ first) (later : List (List Char))
    (m : Mark) : ¬ m.text <+: joinPieces first later := by
  have htext : ∃ d ≠ '<', m.text = ['\\', d] := by
    cases m
    · exact ⟨'\\', by decide, rfl⟩
    · exact ⟨'!', by decide, rfl⟩
    · exact ⟨'?', by decide, rfl⟩
  obtain ⟨d, hd, htext⟩ := htext
  rw [htext]
  rintro ⟨behind, heq⟩
  rcases first with _ | ⟨c, first⟩
  · rcases later with _ | ⟨piece, later⟩
    · cases heq
    · exact hd (List.cons.inj (List.cons.inj heq).2).1
  · obtain ⟨rfl, -⟩ := List.cons.inj heq
    exact h List.mem_cons_self

theorem not_hotkeyMark_isInfix (h : '\\' ∉ cs) : ¬ hotkeyMark <:+: cs :=
  fun hmark => h (hmark.subset List.mem_cons_self)

/-- A caption that is written with marks is read as it was meant. The written text is made of pieces
between hotkey marks, and what is read of such pieces is known. -/
theorem read_written (hclean : '\\' ∉ text) (htrim : Text.trim text = text) (marks : List Mark)
    (hotkeyAt : Option (Fin text.length)) :
    read (marksText marks ++ withHotkey text hotkeyAt) =
      { text
        hotkey := hotkeyAt.map text.get
        disabled := decide (.disabled ∈ marks)
        isDefault := decide (.default ∈ marks)
        isCancel := decide (.cancel ∈ marks) } := by
  have hraw := trim_marksText_append (trim_withHotkey htrim hotkeyAt) marks
  rcases hotkeyAt with _ | k
  · have hpieces : withHotkey text none = joinPieces text [] := (List.append_nil text).symm
    rw [hpieces] at hraw ⊢
    rw [read_eq hraw (not_mark_isPrefix hclean [])
      (List.forall_mem_singleton.mpr (not_hotkeyMark_isInfix hclean))]
    simp [joinPieces]
  · have hpieces : withHotkey text (some k) = joinPieces (text.take k) [text.drop k] := by
      simp [withHotkey, joinPieces]
    have hfront : '\\' ∉ text.take k := fun hmem => hclean (List.mem_of_mem_take hmem)
    have hback : '\\' ∉ text.drop k := fun hmem => hclean (List.mem_of_mem_drop hmem)
    rw [hpieces] at hraw ⊢
    rw [read_eq hraw (not_mark_isPrefix hfront _) (List.forall_mem_cons.mpr
      ⟨not_hotkeyMark_isInfix hfront,
        List.forall_mem_singleton.mpr (not_hotkeyMark_isInfix hback)⟩)]
    rw [getElem?_joinPieces, List.flatten_singleton, List.take_append_drop, joinPieces,
      List.flatMap_nil, List.append_nil, List.head?_drop, List.getElem?_eq_getElem k.isLt]
    rfl

/-! ## What captions mean -/

/-- A text without backslashes and without blanks at its ends, with marks in front and a hotkey mark
before one of its characters or before none, is read as this text with this hotkey and with the
marks that occur. And every raw text is of this kind, but for several hotkey marks: behind its marks
stand pieces with hotkey marks between them, it is read as the pieces without these, and its hotkey
is what stands behind the first of them. -/
theorem read_decodes (hclean : '\\' ∉ text) (htrim : Text.trim text = text) (marks : List Mark)
    (hotkeyAt : Option (Fin text.length)) (raw : List Char) :
    read (marksText marks ++ withHotkey text hotkeyAt) =
      { text
        hotkey := hotkeyAt.map text.get
        disabled := decide (.disabled ∈ marks)
        isDefault := decide (.default ∈ marks)
        isCancel := decide (.cancel ∈ marks) } ∧
    ∃ marks first later, Text.trim raw = marksText marks ++ joinPieces first later ∧
      (∀ m : Mark, ¬ m.text <+: joinPieces first later) ∧
      (∀ piece ∈ first :: later, ¬ hotkeyMark <:+: piece) ∧
      read raw =
        { text := first ++ later.flatten
          hotkey := (joinPieces first later)[first.length + 2]?
          disabled := decide (.disabled ∈ marks)
          isDefault := decide (.default ∈ marks)
          isCancel := decide (.cancel ∈ marks) } := by
  refine ⟨read_written hclean htrim marks hotkeyAt, ?_⟩
  obtain ⟨marks, rest, hraw, hmarks⟩ := exists_marks (Text.trim raw)
  obtain ⟨first, later, rfl, hpieces⟩ := exists_pieces rest
  exact ⟨marks, first, later, hraw, hmarks, hpieces, read_eq hraw hmarks hpieces⟩

/-- Marks that are repeated with a hotkey directly behind them, and a raw text with a hotkey mark
behind another and one at its end. -/
theorem read_decodes_repeated :
    '\\' ∉ "Print <all>".toList ∧ Text.trim "Print <all>".toList = "Print <all>".toList ∧
      read "\\?\\\\\\?\\<Print <all>".toList =
        { text := "Print <all>".toList, hotkey := some 'P', disabled := true, isCancel := true } ∧
      read " \\!a\\<\\<b\\c\\< ".toList =
        { text := "ab\\c".toList, hotkey := some '\\', isDefault := true } := by
  have hclean : '\\' ∉ "Print <all>".toList := by decide
  have htrim : Text.trim "Print <all>".toList = "Print <all>".toList := by decide
  exact ⟨hclean, htrim,
    (read_decodes hclean htrim [.cancel, .disabled, .cancel] (some ⟨0, by decide⟩) []).1, by decide⟩

end ScreenForms.Screen.Caption
