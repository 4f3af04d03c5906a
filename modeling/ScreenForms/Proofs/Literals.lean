import ScreenForms.Proofs.Blanks
import ScreenForms.Proofs.Lists
import ScreenForms.Text.Delimited

/-!
# Quoted literals of a text

`HasLiterals` says that every quotation mark of a text belongs to a literal that is closed, and
lists what stands in the literals. Cutting a text outside of its literals cuts that list:
text without quotation marks may be dropped at either end, and the pieces between separators or
blanks have the literals of the whole in the same order (`HasLiterals.splitFrom`,
`HasLiterals.words`).
-/

namespace ScreenForms.Text

variable {cs ds : List Char} {ls : List (List Char)}

/-! ## Texts without quotation marks -/

/-- A text without quotation marks. -/
def Plain (cs : List Char) : Prop := ∀ c ∈ cs, isQuote c = false

instance (cs : List Char) : Decidable (Plain cs) :=
  List.decidableBAll (fun c => isQuote c = false) cs

/-- Plain texts one behind the other are plain. -/
theorem Plain.append (h : Plain cs) (h' : Plain ds) : Plain (cs ++ ds) :=
  List.forall_mem_append.mpr ⟨h, h'⟩

/-- A quotation mark is one of two characters. -/
theorem eq_of_isQuote {c : Char} (h : isQuote c = true) : c = '"' ∨ c = '\'' := by
  simpa [isQuote] using h

/-- What holds of characters but not of the two marks holds of plain texts only. -/
theorem plain_of_forall {p : Char → Bool} (hp : p '"' = false ∧ p '\'' = false)
    (h : ∀ c ∈ cs, p c = true) : Plain cs := by
  intro c hc
  by_contra hquote
  rw [Bool.not_eq_false] at hquote
  have hpc := h c hc
  rcases eq_of_isQuote hquote with rfl | rfl
  · simp [hp.1] at hpc
  · simp [hp.2] at hpc

/-- Characters that are taken from the front are plain if marks are not among them. -/
theorem plain_takeWhile {p : Char → Bool} (hp : p '"' = false ∧ p '\'' = false)
    (cs : List Char) : Plain (cs.takeWhile p) :=
  plain_of_forall hp fun _ => List.mem_takeWhile_imp

/-! ## Literals -/

/-- A text in which every literal is closed, and what stands in its literals, in order. -/
inductive HasLiterals : List Char → List (List Char) → Prop
  | nil : HasLiterals [] []
  | plain {c : Char} {cs : List Char} {ls : List (List Char)} (hc : isQuote c = false)
    (rest : HasLiterals cs ls) : HasLiterals (c :: cs) ls
  | literal {mark : Char} {content cs : List Char} {ls : List (List Char)}
    (hmark : isQuote mark = true) (hcontent : mark ∉ content) (rest : HasLiterals cs ls) :
    HasLiterals (mark :: (content ++ mark :: cs)) (content :: ls)

/-- A text in which every literal is closed. -/
def IsClosed (cs : List Char) : Prop := ∃ ls, HasLiterals cs ls

/-- A plain text has no literals. -/
theorem Plain.hasLiterals (h : Plain cs) : HasLiterals cs [] := by
  induction cs with
  | nil => exact .nil
  | cons c cs ih =>
    obtain ⟨hc, hcs⟩ := List.forall_mem_cons.mp h
    exact .plain hc (ih hcs)

namespace HasLiterals

variable {ks : List (List Char)}

/-- The literals of texts one behind the other are those of the first and then those of the
second. -/
theorem append (h : HasLiterals cs ls) (h' : HasLiterals ds ks) :
    HasLiterals (cs ++ ds) (ls ++ ks) := by
  induction h with
  | nil => exact h'
  | plain hc _ ih => exact .plain hc ih
  | literal hmark hcontent _ ih =>
    rw [List.cons_append, List.append_assoc]
    exact .literal hmark hcontent ih

/-- And no text that is plain has others. -/
theorem eq_nil (h : HasLiterals cs ls) (hcs : Plain cs) : ls = [] := by
  induction h with
  | nil => rfl
  | plain _ _ ih => exact ih (List.forall_mem_cons.mp hcs).2
  | literal hmark =>
    rw [hcs _ List.mem_cons_self] at hmark
    cases hmark

/-- A text that begins with a mark begins with a literal. -/
theorem exists_of_mark {mark : Char} (h : HasLiterals (mark :: cs) ls)
    (hmark : isQuote mark = true) : ∃ content rest ms, cs = content ++ mark :: rest ∧
      mark ∉ content ∧ ls = content :: ms ∧ HasLiterals rest ms := by
  cases h with
  | plain hc =>
    rw [hc] at hmark
    cases hmark
  | literal _ hcontent rest => exact ⟨_, _, _, rfl, hcontent, rfl, rest⟩

/-- A character that is no mark may be taken off the front without a literal being lost. -/
theorem of_cons {c : Char} (h : HasLiterals (c :: cs) ls) (hc : isQuote c = false) :
    HasLiterals cs ls := by
  cases h with
  | plain _ rest => exact rest
  | literal hmark =>
    rw [hc] at hmark
    cases hmark

/-- Behind a closed text the other literals follow. -/
theorem of_append (h : HasLiterals (cs ++ ds) ls) (hcs : HasLiterals cs ks) :
    ∃ ms, ls = ks ++ ms ∧ HasLiterals ds ms := by
  induction hcs generalizing ls with
  | nil => exact ⟨ls, rfl, h⟩
  | plain hc _ ih => exact ih (h.of_cons hc)
  | @literal mark content cs ks hmark hcontent _ ih =>
    rw [List.cons_append, List.append_assoc] at h
    obtain ⟨content', rest, ms, heq, hcontent', rfl, hrest⟩ := h.exists_of_mark hmark
    obtain rfl := eq_of_append_separator hcontent hcontent' heq
    obtain ⟨-, rfl⟩ := List.cons.inj (List.append_cancel_left heq)
    obtain ⟨ns, rfl, hds⟩ := ih hrest
    exact ⟨ns, rfl, hds⟩

/-- So may a plain text, by induction on it. -/
theorem of_plain_append (h : HasLiterals (cs ++ ds) ls) (hcs : Plain cs) : HasLiterals ds ls := by
  obtain ⟨ms, rfl, hds⟩ := h.of_append hcs.hasLiterals
  exact hds

end HasLiterals

/-- The literals of a text, if all are closed, given the mark of the one that is open and what has
been read of it, last character first. -/
def readLiterals : Option (Char × List Char) → List Char → Option (List (List Char))
  | none, [] => some []
  | some _, [] => none
  | none, c :: cs => readLiterals (if isQuote c then some (c, []) else none) cs
  | some (mark, content), c :: cs =>
    if c = mark then (readLiterals none cs).map (content.reverse :: ·)
    else readLiterals (some (mark, c :: content)) cs

/-- Within a literal everything up to its closing mark belongs to it. -/
theorem readLiterals_content {mark : Char} {content : List Char} (hcontent : mark ∉ content)
    (seen cs : List Char) : readLiterals (some (mark, seen)) (content ++ mark :: cs) =
      (readLiterals none cs).map ((seen.reverse ++ content) :: ·) := by
  induction content generalizing seen with
  | nil => simp [readLiterals]
  | cons c content ih =>
    rw [List.mem_cons, not_or] at hcontent
    rw [List.cons_append, readLiterals, if_neg (Ne.symm hcontent.1), ih hcontent.2]
    simp

/-- What is read off a text are its literals. Within a literal this says that there is a closing
mark and that the literals behind it are read. -/
theorem hasLiterals_of_readLiterals (cs : List Char) :
    (∀ ls, readLiterals none cs = some ls → HasLiterals cs ls) ∧
      ∀ mark content ls, readLiterals (some (mark, content)) cs = some ls →
        ∃ more rest ms, cs = more ++ mark :: rest ∧ mark ∉ more ∧
          ls = (content.reverse ++ more) :: ms ∧ HasLiterals rest ms := by
  -- a mark takes the reader from one state to the other, so both are carried along
  induction cs with
  | nil =>
    refine ⟨fun ls h => ?_, fun mark content ls h => by cases h⟩
    obtain rfl := Option.some.inj h
    exact .nil
  | cons c cs ih =>
    constructor
    · intro ls h
      by_cases hc : isQuote c = true
      · rw [readLiterals, if_pos hc] at h
        obtain ⟨more, rest, ms, rfl, hmore, rfl, hrest⟩ := ih.2 c [] ls h
        exact .literal hc hmore hrest
      · rw [readLiterals, if_neg hc] at h
        exact .plain (by simpa using hc) (ih.1 ls h)
    · intro mark content ls h
      rw [readLiterals] at h
      split at h
      · next hmark =>
        obtain ⟨ms, hms, rfl⟩ := Option.map_eq_some_iff.mp h
        exact ⟨[], cs, ms, by rw [hmark]; rfl, List.not_mem_nil, by simp, ih.1 ms hms⟩
      · next hmark =>
        obtain ⟨more, rest, ms, rfl, hmore, rfl, hrest⟩ := ih.2 mark (c :: content) ls h
        exact ⟨c :: more, rest, ms, rfl, by simp [Ne.symm hmark, hmore], by simp, hrest⟩

/-- Whether a text is closed, and what its literals are, can be computed. -/
theorem readLiterals_eq_some_iff : readLiterals none cs = some ls ↔ HasLiterals cs ls := by
  refine ⟨(hasLiterals_of_readLiterals cs).1 ls, fun h => ?_⟩
  induction h with
  | nil => rfl
  | plain hc _ ih => rw [readLiterals, hc, if_neg Bool.false_ne_true, ih]
  | literal hmark hcontent _ ih =>
    rw [readLiterals, if_pos hmark, readLiterals_content hcontent, ih]
    rfl

instance (cs : List Char) (ls : List (List Char)) : Decidable (HasLiterals cs ls) :=
  decidable_of_iff _ readLiterals_eq_some_iff

instance (cs : List Char) : Decidable (IsClosed cs) :=
  decidable_of_iff ((readLiterals none cs).isSome = true)
    (Option.isSome_iff_exists.trans (exists_congr fun _ => readLiterals_eq_some_iff))

example : HasLiterals "'a' + \"it's\"".toList ["a".toList, "it's".toList] := by decide

/-! ## Texts one after another -/

/-- Texts in which every literal is closed, and what stands in the literals of all. -/
inductive HaveLiterals : List (List Char) → List (List Char) → Prop
  | nil : HaveLiterals [] []
  | cons {t : List Char} {ts ks ls : List (List Char)} (first : HasLiterals t ks)
    (rest : HaveLiterals ts ls) : HaveLiterals (t :: ts) (ks ++ ls)

namespace HaveLiterals

variable {ts us : List (List Char)}

theorem singleton (h : HasLiterals cs ls) : HaveLiterals [cs] ls := by
  simpa using cons h .nil

/-- The literals of several texts are shared out among the texts in front and those behind. -/
theorem of_append (h : HaveLiterals (ts ++ us) ls) :
    ∃ ks ms, ls = ks ++ ms ∧ HaveLiterals ts ks ∧ HaveLiterals us ms := by
  induction ts generalizing ls with
  | nil => exact ⟨[], ls, rfl, .nil, h⟩
  | cons t ts ih =>
    cases h with
    | cons first rest =>
      obtain ⟨ks, ms, rfl, hts, hus⟩ := ih rest
      exact ⟨_, ms, (List.append_assoc _ _ _).symm, .cons first hts, hus⟩

/-- Empty texts have no literals, so they may be left out. -/
theorem filter (h : HaveLiterals ts ls) : HaveLiterals (ts.filter fun t => !t.isEmpty) ls := by
  induction h with
  | nil => exact .nil
  | @cons t ts ks ls first _ ih =>
    cases t with
    | nil =>
      obtain rfl := first.eq_nil (by simp [Plain])
      exact ih
    | cons c cs => exact .cons first ih

/-- Texts that are joined by a plain separator make one text with the literals of all. -/
theorem joinWith (h : HaveLiterals ts ls) {sep : List Char} (hsep : Plain sep) :
    HasLiterals (joinWith sep ts) ls := by
  induction h with
  | nil => exact .nil
  | @cons t ts ks ls first rest ih =>
    cases ts with
    | nil =>
      cases rest
      simpa [Text.joinWith] using first
    | cons u us =>
      rw [joinWith_cons _ _ (List.cons_ne_nil u us)]
      simpa using (first.append hsep.hasLiterals).append ih

end HaveLiterals

/-! ## One step of a scan -/

/-- An opening round or square bracket. -/
def isOpening (c : Char) : Bool := c == '(' || c == '['

/-- A closing round or square bracket. -/
def isClosing (c : Char) : Bool := c == ')' || c == ']'

section step

variable {d : Depth} {c : Char}

/-- In a literal only the mark that closes it counts. -/
theorem Depth.after_literal {mark : Char} (hd : d.quote = some mark) :
    d.after c = { d with quote := if c = mark then none else some mark } := by
  rcases d with ⟨quote, brackets⟩
  obtain rfl : quote = some mark := hd
  by_cases hc : c = mark <;> simp [Depth.after, hc]

/-- Outside of literals a mark opens one. -/
theorem Depth.after_quote (hd : d.quote = none) (hc : isQuote c = true) :
    d.after c = { d with quote := some c } := by
  simp [Depth.after, hd, hc]

/-- Outside of literals brackets count. -/
theorem Depth.after_bracket (hd : d.quote = none) (hc : isQuote c = false) :
    d.after c = { d with brackets :=
      d.brackets + (if isOpening c then 1 else 0) - (if isClosing c then 1 else 0) } := by
  rcases d with ⟨quote, brackets⟩
  obtain rfl : quote = none := hd
  by_cases hopening : c = '(' ∨ c = '['
  · have hnot : isClosing c = false := by
      rcases hopening with rfl | rfl <;> rfl
    simp [Depth.after, hc, hopening, isOpening, hnot]
  · by_cases hclosing : c = ')' ∨ c = ']' <;>
      simp [Depth.after, hc, hopening, hclosing, isOpening, isClosing]

end step

/-! ## Splitting outside of quotes -/

section splitting

variable {p : Char → Bool} {d : Depth}

/-- A character that does not split belongs to the first piece. -/
theorem splitFrom_cons_of_eq {c : Char} {piece : List Char} {pieces : List (List Char)}
    (hc : (d.isOutside c && p c) = false) (hcs : splitFrom p (d.after c) cs = piece :: pieces) :
    splitFrom p d (c :: cs) = (c :: piece) :: pieces := by
  rw [splitFrom, if_neg (by simp [hc]), hcs]

/-- There always is a first piece that it can belong to. -/
theorem splitFrom_cons_of_neg {c : Char} (h : (d.isOutside c && p c) = false) (cs : List Char) :
    ∃ piece pieces, splitFrom p (d.after c) cs = piece :: pieces ∧
      splitFrom p d (c :: cs) = (c :: piece) :: pieces := by
  obtain ⟨piece, pieces, hcs⟩ := List.exists_cons_of_ne_nil (splitFrom_ne_nil p (d.after c) cs)
  exact ⟨piece, pieces, hcs, splitFrom_cons_of_eq h hcs⟩

/-- A literal that is open goes to one piece up to the mark that closes it. -/
theorem splitFrom_content {mark : Char} {content : List Char} (hcontent : mark ∉ content)
    (hd : d.quote = some mark) (cs : List Char) :
    ∃ piece pieces, splitFrom p { d with quote := none } cs = piece :: pieces ∧
      splitFrom p d (content ++ mark :: cs) = (content ++ mark :: piece) :: pieces := by
  have hinside : ∀ c, (d.isOutside c && p c) = false := by
    intro c
    simp [Depth.isOutside, hd]
  induction content with
  | nil =>
    have hafter : d.after mark = { d with quote := none } := by
      rw [Depth.after_literal hd, if_pos rfl]
    rw [← hafter]
    exact splitFrom_cons_of_neg (hinside mark) cs
  | cons c content ih =>
    rw [List.mem_cons, not_or] at hcontent
    have hafter : d.after c = d := by
      simp [Depth.after, hd, Ne.symm hcontent.1]
    obtain ⟨piece, pieces, hcs, hsplit⟩ := ih hcontent.2
    exact ⟨piece, pieces, hcs, splitFrom_cons_of_eq (hinside c) (hafter.symm ▸ hsplit)⟩

/-- The pieces between separators outside of quotes have the literals of the whole. The induction is
on the text literal by literal, and a literal goes to one piece. -/
theorem HasLiterals.splitFrom (h : HasLiterals cs ls) (hd : d.quote = none) :
    HaveLiterals (splitFrom p d cs) ls := by
  induction h generalizing d with
  | nil => exact .singleton .nil
  | @plain c cs ls hc _ ih =>
    by_cases hcut : (d.isOutside c && p c) = true
    · rw [Text.splitFrom, if_pos hcut]
      exact .cons .nil (ih hd)
    · have hquote : (d.after c).quote = none := by
        rw [Depth.after_bracket hd hc]
        exact hd
      obtain ⟨piece, pieces, hcs, hsplit⟩ :=
        splitFrom_cons_of_neg (by simpa using hcut) cs
      have hpieces := ih hquote
      rw [hcs] at hpieces
      rw [hsplit]
      cases hpieces with
      | cons first rest => exact .cons (.plain hc first) rest
  | @literal mark content cs ls hmark hcontent _ ih =>
    have houtside : (d.isOutside mark && p mark) = false := by
      simp [Depth.isOutside, isMark, hmark]
    have hafter := Depth.after_quote hd hmark
    obtain ⟨piece, pieces, hcs, hopen⟩ :=
      splitFrom_content (p := p) hcontent (d := d.after mark) (by rw [hafter]) cs
    have hpieces := ih (d := { d.after mark with quote := none }) rfl
    rw [hcs] at hpieces
    rw [splitFrom_cons_of_eq houtside hopen]
    cases hpieces with
    | cons first rest => exact .cons (.literal hmark hcontent first) rest

end splitting

/-- Splitting at a character outside of literals shares out the literals among the pieces. -/
theorem HasLiterals.splitTopLevel (h : HasLiterals cs ls) (sep : Char) :
    HaveLiterals (splitTopLevel sep cs) ls :=
  h.splitFrom rfl

/-- So does splitting into words. -/
theorem HasLiterals.words (h : HasLiterals cs ls) : HaveLiterals (words cs) ls :=
  (h.splitFrom rfl).filter

end ScreenForms.Text
