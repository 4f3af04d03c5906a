import ScreenForms.Proofs.OpenBrackets

/-!
# Splitting what was split

Pieces and words are parsed again, alone or joined to a shorter text. A scan cuts a text into a
first piece, a separator and the rest, which it reads from the depth behind the first piece
(`piece_induction`); so the pieces are those between the separators that stand outside
(`splitFrom_eq_iff`).

A separator leaves the depth as it is, with at most as many open brackets as in front of a text, and
what is one piece from one depth is one from every deeper one. That is why each part of a text is a
single part when it is split alone (`splitTopLevel_parts`). Words that are joined by spaces are read
from the same depths as before. From the middle on they are read from depth zero instead, which
comes to the same where brackets are never overclosed (`words_resplit`).
-/

namespace ScreenForms.Text

variable {p : Char → Bool} {c sep : Char} {front cs ds first piece : List Char}
  {pieces : List (List Char)} {d d' : Depth}

/-! ## The first piece -/

/-- A text is one piece, or a first piece, a separator and the rest. -/
theorem exists_first_piece (p : Char → Bool) (d : Depth) (cs : List Char) :
    splitFrom p d cs = [cs] ∨ ∃ first c rest, cs = first ++ c :: rest ∧
      splitFrom p d first = [first] ∧ (d.behind first).isOutside c = true ∧ p c = true := by
  induction cs generalizing d with
  | nil => exact .inl rfl
  | cons c cs ih =>
    rcases hc : d.isOutside c && p c with _ | _
    · rcases ih (d.after c) with hcs | ⟨first, e, rest, rfl, hfirst, he⟩
      · exact .inl (splitFrom_cons_of_eq hc hcs)
      · exact .inr ⟨c :: first, e, rest, rfl, splitFrom_cons_of_eq hc hfirst, he⟩
    · exact .inr ⟨[], c, cs, rfl, rfl, (Bool.and_eq_true _ _).mp hc⟩

theorem splitFrom_append_cons (hfirst : splitFrom p d first = [first])
    (hc : (d.behind first).isOutside c = true) (hp : p c = true) (rest : List Char) :
    splitFrom p d (first ++ c :: rest) = first :: splitFrom p (d.behind first) rest := by
  rw [splitFrom_append_separator (by rw [hc, hp]; rfl), hfirst, List.singleton_append]

/-- What holds of single pieces, and of a piece in front of a text of which it holds, holds of all
texts. -/
@[elab_as_elim]
theorem piece_induction {motive : Depth → List Char → Prop}
    (single : ∀ d cs, splitFrom p d cs = [cs] → motive d cs)
    (more : ∀ d first c rest, splitFrom p d first = [first] →
      (d.behind first).isOutside c = true → p c = true → motive (d.behind first) rest →
        motive d (first ++ c :: rest))
    (d : Depth) (cs : List Char) : motive d cs := by
  induction hn : cs.length using Nat.strong_induction_on generalizing d cs with
  | _ n ih =>
    rcases exists_first_piece p d cs with hcs | ⟨first, c, rest, rfl, hfirst, hc, hp⟩
    · exact single d cs hcs
    · refine more d first c rest hfirst hc hp (ih rest.length ?_ (d.behind first) rest rfl)
      rw [← hn, List.length_append, List.length_cons]
      omega

/-- A text is one piece where no character of it separates. -/
theorem splitFrom_eq_singleton_iff : splitFrom p d cs = [cs] ↔
    ∀ front c back, cs = front ++ c :: back → p c = true →
      (d.behind front).isOutside c = false := by
  constructor
  · rintro h front c back rfl hp
    by_contra hc
    rw [Bool.not_eq_false] at hc
    rw [splitFrom_append_separator (by rw [hc, hp]; rfl)] at h
    have hlength := congrArg List.length h
    have hfront := List.length_pos_of_ne_nil (splitFrom_ne_nil p d front)
    have hback := List.length_pos_of_ne_nil (splitFrom_ne_nil p (d.behind front) back)
    rw [List.length_append, List.length_singleton] at hlength
    omega
  · intro h
    rcases exists_first_piece p d cs with hcs | ⟨first, c, rest, rfl, -, hc, hp⟩
    · exact hcs
    · rw [h first c rest rfl hp] at hc
      cases hc

/-! ## Pieces between separators -/

/-- The character behind a text separates: it is a separator, outside of literals and brackets. -/
def Separates (p : Char → Bool) (front : List Char) (c : Char) : Prop :=
  p c = true ∧ isMark c = false ∧ EndsOutside front

/-- No character of a text behind another one separates. -/
def IsWhole (p : Char → Bool) (front cs : List Char) : Prop :=
  ∀ before c after, cs = before ++ c :: after → ¬ Separates p (front ++ before) c

/-- The pieces of a text behind another one, from separator to separator. -/
inductive HasPieces (p : Char → Bool) : List Char → List Char → List (List Char) → Prop
  | last {front piece : List Char} (h : IsWhole p front piece) : HasPieces p front piece [piece]
  | cut {front piece rest : List Char} {c : Char} {pieces : List (List Char)}
    (h : IsWhole p front piece) (hc : Separates p (front ++ piece) c)
    (hrest : HasPieces p (front ++ piece ++ [c]) rest pieces) :
    HasPieces p front (piece ++ c :: rest) (piece :: pieces)

theorem separates_iff : Separates p front c ↔
    (Depth.behind {} front).isOutside c = true ∧ p c = true := by
  rw [isOutside_behind_iff, Separates, and_comm]

theorem isWhole_iff :
    IsWhole p front cs ↔ splitFrom p (Depth.behind {} front) cs = [cs] := by
  rw [splitFrom_eq_singleton_iff]
  refine forall_congr' fun before => forall_congr' fun c => forall_congr' fun after =>
    imp_congr_right fun _ => ?_
  rw [separates_iff, Depth.behind_append]
  simp only [not_and', Bool.not_eq_true]

/-- A separator leaves the depth as it is. -/
theorem Separates.behind_eq (h : Separates p front c) :
    Depth.behind {} (front ++ [c]) = Depth.behind {} front := by
  rw [Depth.behind_append, Depth.behind_cons, Depth.after_of_isOutside (separates_iff.mp h).1]
  rfl

theorem hasPieces_splitFrom (p : Char → Bool) (front cs : List Char) :
    HasPieces p front cs (splitFrom p (Depth.behind {} front) cs) := by
  generalize hd : Depth.behind {} front = d
  induction d, cs using piece_induction (p := p) generalizing front with
  | single d cs hcs =>
    subst hd
    rw [hcs]
    exact .last (isWhole_iff.mpr hcs)
  | more d first c rest hfirst hc hp ih =>
    subst hd
    have hsep : Separates p (front ++ first) c := by
      rw [separates_iff, Depth.behind_append]
      exact ⟨hc, hp⟩
    rw [splitFrom_append_cons hfirst hc hp]
    exact .cut (isWhole_iff.mpr hfirst) hsep
      (ih _ (hsep.behind_eq.trans (Depth.behind_append _ _ _)))

/-- Splitting gives the pieces between the separators and nothing else. -/
theorem splitFrom_eq_iff (front cs : List Char) :
    splitFrom p (Depth.behind {} front) cs = pieces ↔ HasPieces p front cs pieces := by
  refine ⟨fun h => h ▸ hasPieces_splitFrom p front cs, fun h => ?_⟩
  induction h with
  | last h => exact isWhole_iff.mp h
  | @cut front piece rest c pieces h hc _ ih =>
    obtain ⟨houtside, hp⟩ := separates_iff.mp hc
    rw [hc.behind_eq, Depth.behind_append] at ih
    rw [Depth.behind_append] at houtside
    rw [splitFrom_append_cons (isWhole_iff.mp h) houtside hp, ih]

/-! ## Scans from different depths -/

namespace Depth

/-- A separator leaves the depth as it is. -/
theorem behind_separator (hc : (d.behind first).isOutside c = true) (rest : List Char) :
    d.behind (first ++ c :: rest) = (d.behind first).behind rest := by
  rw [behind_append, behind_cons, after_of_isOutside hc]

/-- The same literal is open, and at most as many brackets. -/
structure IsShallower (d d' : Depth) : Prop where
  quote : d.quote = d'.quote
  brackets : d.brackets ≤ d'.brackets

namespace IsShallower

theorem after (h : d.IsShallower d') (c : Char) : (d.after c).IsShallower (d'.after c) := by
  obtain ⟨hquote, hbrackets⟩ := h
  rcases hd' : d'.quote with _ | mark
  · rw [hd'] at hquote
    cases hc : isQuote c with
    | true =>
      rw [after_quote hquote hc, after_quote hd' hc]
      exact ⟨rfl, hbrackets⟩
    | false =>
      rw [after_bracket hquote hc, after_bracket hd' hc]
      exact ⟨hquote.trans hd'.symm, by dsimp only; omega⟩
  · rw [hd'] at hquote
    rw [after_literal hquote, after_literal hd']
    exact ⟨rfl, hbrackets⟩

theorem behind (h : d.IsShallower d') (cs : List Char) :
    (d.behind cs).IsShallower (d'.behind cs) := by
  induction cs generalizing d d' with
  | nil => exact h
  | cons c cs ih => exact ih (h.after c)

theorem isOutside (h : d.IsShallower d') (hc : d'.isOutside c = true) :
    d.isOutside c = true := by
  simp only [Depth.isOutside, Bool.and_eq_true, decide_eq_true_iff] at hc ⊢
  exact ⟨⟨h.quote ▸ hc.1.1, h.brackets.trans hc.1.2⟩, hc.2⟩

/-- What is one piece stays one when the scan starts deeper. -/
theorem splitFrom_eq_singleton (h : d.IsShallower d') (hcs : splitFrom p d cs = [cs]) :
    splitFrom p d' cs = [cs] := by
  rw [splitFrom_eq_singleton_iff] at hcs ⊢
  intro front c back heq hp
  by_contra hc
  rw [Bool.not_eq_false] at hc
  have hshallow := (h.behind front).isOutside hc
  rw [hcs front c back heq hp] at hshallow
  cases hshallow

end IsShallower

/-- Outside, no literal and no bracket is open. -/
theorem isShallower_of_isOutside (h : d.isOutside c = true) : d.IsShallower {} := by
  simp only [isOutside, Bool.and_eq_true, Option.isNone_iff_eq_none, decide_eq_true_iff] at h
  exact ⟨h.1.1, h.1.2⟩

end Depth

/-- A piece is one piece when it is split alone. -/
theorem splitFrom_of_mem_splitFrom (hd : d.IsShallower {}) (h : piece ∈ splitFrom p d cs) :
    splitFrom p {} piece = [piece] := by
  induction d, cs using piece_induction (p := p) with
  | single d cs hcs =>
    rw [hcs, List.mem_singleton] at h
    exact h ▸ hd.splitFrom_eq_singleton hcs
  | more d first c rest hfirst hc hp ih =>
    rw [splitFrom_append_cons hfirst hc hp] at h
    rcases List.mem_cons.mp h with rfl | h
    · exact hd.splitFrom_eq_singleton hfirst
    · exact ih (Depth.isShallower_of_isOutside hc) h

/-! ## Parts between separators -/

/-- Putting the separator back between the pieces gives the text back. -/
theorem joinWith_splitFrom (sep : Char) (d : Depth) (cs : List Char) :
    joinWith [sep] (splitFrom (· == sep) d cs) = cs := by
  induction d, cs using piece_induction (p := (· == sep)) with
  | single d cs hcs => rw [hcs, joinWith]
  | more d first c rest hfirst hc hp ih =>
    rw [splitFrom_append_cons hfirst hc hp, joinWith_cons _ _ (splitFrom_ne_nil _ _ _), ih,
      eq_of_beq hp, List.append_assoc, List.singleton_append]

/-- Joining the parts of a text by the separator gives the text back, and every part is a single
part when it is split alone. The parts are those between the separators that stand outside of
literals and brackets, in the whole text; separators that are quotation marks or brackets part
nothing. -/
theorem splitTopLevel_parts (sep : Char) (cs : List Char) :
    joinWith [sep] (splitTopLevel sep cs) = cs ∧
      (∀ part ∈ splitTopLevel sep cs, splitTopLevel sep part = [part]) ∧
      ∀ parts, splitTopLevel sep cs = parts ↔ HasPieces (· == sep) [] cs parts := by
  refine ⟨joinWith_splitFrom sep {} cs, fun part hpart => ?_, fun parts => splitFrom_eq_iff [] cs⟩
  exact splitFrom_of_mem_splitFrom ⟨rfl, le_rfl⟩ hpart

/-- A part that ends in an open bracket when it stands alone. In the whole text the two brackets
that are closed too often make up for it, so the comma behind it parts the text. -/
theorem splitTopLevel_parts_overclosed :
    "(((a,b)".toList ∈ splitTopLevel ',' ")),(((a,b),c),'d,(".toList ∧
      splitTopLevel ',' "(((a,b)".toList = ["(((a,b)".toList] ∧
      HasPieces (· == ',') [] ")),(((a,b),c),'d,(".toList
        ["))".toList, "(((a,b)".toList, "c)".toList, "'d,(".toList] := by
  have hmem : "(((a,b)".toList ∈ splitTopLevel ',' ")),(((a,b),c),'d,(".toList := by
    decide +kernel
  obtain ⟨-, hparts, hpieces⟩ := splitTopLevel_parts ',' ")),(((a,b),c),'d,(".toList
  exact ⟨hmem, hparts _ hmem, (hpieces _).mp (by decide +kernel)⟩

/-! ## Words -/

/-- The words of a text, read from a given depth on. -/
def wordsFrom (d : Depth) (cs : List Char) : List (List Char) :=
  (splitFrom isBlank d cs).filter fun w => !w.isEmpty

theorem wordsFrom_of_singleton (h : splitFrom isBlank d cs = [cs]) (hne : cs ≠ []) :
    wordsFrom d cs = [cs] := by
  rw [wordsFrom, h, List.filter_cons_of_pos (by simpa using hne), List.filter_nil]

theorem wordsFrom_append_cons (hc : (d.behind cs).isOutside c = true) (hblank : isBlank c = true)
    (ds : List Char) :
    wordsFrom d (cs ++ c :: ds) = wordsFrom d cs ++ wordsFrom (d.behind cs) ds := by
  rw [wordsFrom, splitFrom_append_separator (by rw [hc, hblank]; rfl), List.filter_append]
  rfl

theorem isOutside_of_isBlank (hc : d.isOutside c = true) {b : Char} (hb : isBlank b = true) :
    d.isOutside b = true := by
  simp only [Depth.isOutside, Bool.and_eq_true] at hc ⊢
  exact ⟨hc.1, by simp [isMark_of_isBlank hb]⟩

/-- Words that are joined by spaces are the words of what they are joined to. The induction is on
the pieces, and a single space ends a word as any blank does. -/
theorem wordsFrom_unwords (d : Depth) (cs : List Char) :
    wordsFrom d (unwords (wordsFrom d cs)) = wordsFrom d cs := by
  induction d, cs using piece_induction (p := isBlank) with
  | single d cs hcs =>
    rcases eq_or_ne cs [] with rfl | hne
    · rfl
    · have hword := wordsFrom_of_singleton hcs hne
      rw [hword]
      exact hword
  | more d first c rest hfirst hc hblank ih =>
    rw [wordsFrom_append_cons hc hblank]
    rcases eq_or_ne first [] with rfl | hne
    · exact ih
    · have hword := wordsFrom_of_singleton hfirst hne
      rw [hword]
      rcases hrest : wordsFrom (d.behind first) rest with _ | ⟨v, ws⟩
      · exact hword
      · rw [hrest] at ih
        have hspace := isOutside_of_isBlank hc (b := ' ') (by decide)
        rw [List.singleton_append, unwords_cons_cons, wordsFrom_append_cons hspace (by decide),
          hword, ih, List.singleton_append]

/-- Outside, where no more brackets are closed than opened, nothing is open. -/
theorem isLevel_of_isOutside (hc : (Depth.behind {} cs).isOutside c = true)
    (hnonneg : 0 ≤ (Depth.behind {} cs).brackets) : IsLevel cs := by
  obtain ⟨hquote, hle⟩ := Depth.isShallower_of_isOutside hc
  rw [IsLevel]
  rcases hdepth : Depth.behind {} cs with ⟨quote, brackets⟩
  rw [hdepth] at hquote hle hnonneg
  obtain rfl : quote = none := hquote
  obtain rfl : brackets = 0 := le_antisymm hle hnonneg
  rfl

/-- A text that is one piece has at most one word. -/
theorem length_words_le (h : splitFrom isBlank {} cs = [cs]) : (words cs).length ≤ 1 := by
  rw [words, h]
  exact List.length_filter_le _ _

/-- Where brackets are never overclosed, the words from the middle on are the words of an end of
the text. -/
theorem NeverOverclosed.exists_words_eq_drop (h : NeverOverclosed cs) (k : Nat) :
    ∃ back, back <:+ cs ∧ words back = (words cs).drop k := by
  have hnonneg : ∀ front, front <+: cs → 0 ≤ (Depth.behind {} front).brackets :=
    fun front hfront => h.brackets_nonneg hfront
  clear h
  -- a blank that separates stands at depth zero, so what is behind it is read as if it stood alone
  generalize hd : ({} : Depth) = d at hnonneg
  induction d, cs using piece_induction (p := isBlank) generalizing k with
  | single d cs hcs =>
    subst hd
    rcases k with _ | k
    · exact ⟨cs, List.suffix_rfl, rfl⟩
    · refine ⟨[], List.nil_suffix, (List.drop_of_length_le ?_).symm⟩
      have := length_words_le hcs
      omega
  | more d first c rest hfirst hc hblank ih =>
    subst hd
    have hlevel := isLevel_of_isOutside hc (hnonneg first (List.prefix_append first (c :: rest)))
    have hrest : ∀ front, front <+: rest → 0 ≤ ((Depth.behind {} first).behind front).brackets := by
      intro front hfront
      rw [← Depth.behind_separator hc]
      exact hnonneg _ ((List.prefix_append_right_inj first).mpr
        ((List.prefix_cons_inj c).mpr hfront))
    rcases k with _ | k
    · exact ⟨first ++ c :: rest, List.suffix_rfl, rfl⟩
    · have hnone : (words first).drop (k + 1) = [] :=
        List.drop_of_length_le ((length_words_le hfirst).trans (by omega))
      obtain ⟨back, hback, hwords⟩ := ih (k + 1 - (words first).length) hlevel.symm hrest
      refine ⟨back, hback.trans ((List.suffix_cons c rest).trans (List.suffix_append _ _)), ?_⟩
      rw [words_append_blank hlevel hblank, List.drop_append, hnone, List.nil_append, hwords]

/-- Words that are joined by single spaces are found again when what they are joined to is split.
Where no beginning of the text closes more brackets than it opens, so are the words from any place
on. The words are the pieces, as far as they are not empty, between the blanks that stand outside of
literals and brackets. -/
theorem words_resplit (cs : List Char) :
    words (unwords (words cs)) = words cs ∧
      (NeverOverclosed cs → ∀ k, words (unwords ((words cs).drop k)) = (words cs).drop k) ∧
      ∀ ws, words cs = ws ↔
        ∃ pieces, HasPieces isBlank [] cs pieces ∧ pieces.filter (fun w => !w.isEmpty) = ws := by
  refine ⟨wordsFrom_unwords {} cs, fun h k => ?_, fun ws => ?_⟩
  · obtain ⟨back, -, hback⟩ := h.exists_words_eq_drop k
    rw [← hback]
    exact wordsFrom_unwords {} back
  · constructor
    · rintro rfl
      exact ⟨_, hasPieces_splitFrom isBlank [] cs, rfl⟩
    · rintro ⟨pieces, hpieces, rfl⟩
      rw [← (splitFrom_eq_iff [] cs).mpr hpieces]
      rfl

/-- A command without its first two words, with a bracketed blank and a literal that stays open. -/
theorem words_resplit_window :
    NeverOverclosed "DEFINE WINDOW  w FROM 1,(2 + 1)\tTITLE 'a ) b".toList ∧
      words (unwords ((words "DEFINE WINDOW  w FROM 1,(2 + 1)\tTITLE 'a ) b".toList).drop 2)) =
        ["w".toList, "FROM".toList, "1,(2 + 1)".toList, "TITLE".toList, "'a ) b".toList] := by
  have hnever : NeverOverclosed "DEFINE WINDOW  w FROM 1,(2 + 1)\tTITLE 'a ) b".toList := by
    decide +kernel
  exact ⟨hnever, ((words_resplit _).2.1 hnever 2).trans (by decide +kernel)⟩

/-- The bracket that is closed too often makes up for the one that the next word opens; read from
that word on, the bracket stays open. -/
example : words ") (a b".toList = [")".toList, "(a".toList, "b".toList] ∧
    words (unwords ["(a".toList, "b".toList]) = ["(a b".toList] := by decide +kernel

end ScreenForms.Text
