import Mathlib.Data.List.DropRight
import ScreenForms.Text.Blank
import ScreenForms.Text.Letter

/-!
# Trimming

Dropping characters at the front and dropping them at the end do not interfere, so trimming can be
done in any order and more than once. A text that begins and ends with other characters stays as
it is, and blanks around a text do not change what is left of it (`trim_blanks_append`,
`trim_append_blanks`). No letter or numeral is a blank.
-/

namespace ScreenForms.Text

variable {p : Char → Bool} {cs ds : List Char}

/-- What is no blank is no ASCII blank either. -/
theorem not_isAsciiBlank_of_not_isBlank {c : Char} (h : isBlank c = false) :
    isAsciiBlank c = false :=
  Bool.eq_false_iff.mpr fun hascii =>
    Bool.false_ne_true (h.symm.trans (isBlank_of_isAsciiBlank hascii))

/-! ## The end of a text -/

/-- Seen from the front, a character is only dropped where everything behind it is. -/
theorem dropEndWhile_cons (p : Char → Bool) (c : Char) (cs : List Char) :
    dropEndWhile p (c :: cs) =
      if dropEndWhile p cs = [] ∧ p c = true then [] else c :: dropEndWhile p cs := by
  unfold dropEndWhile
  rw [List.reverse_cons, List.dropWhile_append]
  rcases h : cs.reverse.dropWhile p with _ | ⟨d, ds⟩
  · rcases hc : p c with _ | _ <;> simp [List.dropWhile, hc]
  · simp

theorem dropEndWhile_eq_nil_iff : dropEndWhile p cs = [] ↔ ∀ c ∈ cs, p c = true :=
  List.rdropWhile_eq_nil_iff

theorem dropEndWhile_idem (p : Char → Bool) (cs : List Char) :
    dropEndWhile p (dropEndWhile p cs) = dropEndWhile p cs :=
  List.rdropWhile_idempotent p cs

/-- What is dropped at the front does not depend on what is dropped at the end. -/
theorem dropWhile_dropEndWhile (p : Char → Bool) (cs : List Char) :
    (dropEndWhile p cs).dropWhile p = dropEndWhile p (cs.dropWhile p) := by
  induction cs with
  | nil => rfl
  | cons c cs ih =>
    rw [dropEndWhile_cons]
    rcases hc : p c with _ | _
    · rw [if_neg (by simp), List.dropWhile_cons_of_neg (by simp [hc]),
        List.dropWhile_cons_of_neg (by simp [hc]), dropEndWhile_cons, if_neg (by simp [hc])]
    · rw [List.dropWhile_cons_of_pos hc, ← ih]
      split
      · next h => rw [h.1]
      · rw [List.dropWhile_cons_of_pos hc]

/-- Dropping from the end stops at characters that are kept. -/
theorem dropEndWhile_append_of_neg (h : ∀ c ∈ cs, p c = false) (ds : List Char) :
    dropEndWhile p (cs ++ ds) = cs ++ dropEndWhile p ds := by
  induction cs with
  | nil => rfl
  | cons c cs ih =>
    obtain ⟨hc, hcs⟩ := List.forall_mem_cons.mp h
    rw [List.cons_append, dropEndWhile_cons, if_neg (by simp [hc]), ih hcs, List.cons_append]

theorem dropEndWhile_concat_of_neg {c : Char} (h : p c = false) :
    dropEndWhile p (cs ++ [c]) = cs ++ [c] :=
  List.rdropWhile_concat_neg p cs c (by simp [h])

theorem dropEndWhile_of_getLast? {c : Char} (hc : cs.getLast? = some c) (h : p c = false) :
    dropEndWhile p cs = cs := by
  obtain ⟨ds, rfl⟩ := List.getLast?_eq_some_iff.mp hc
  exact dropEndWhile_concat_of_neg h

/-- What is dropped at the end may be dropped in two steps. -/
theorem dropEndWhile_dropEndWhile {q : Char → Bool} (h : ∀ c, q c = true → p c = true)
    (cs : List Char) : dropEndWhile p (dropEndWhile q cs) = dropEndWhile p cs := by
  induction cs with
  | nil => rfl
  | cons c cs ih =>
    rw [dropEndWhile_cons q, dropEndWhile_cons p c cs]
    split
    · next hq =>
      have hp : dropEndWhile p cs = [] := by
        rw [← ih, hq.1]
        rfl
      rw [if_pos ⟨hp, h c hq.2⟩]
      rfl
    · rw [dropEndWhile_cons, ih]

/-! ## Both ends -/

/-- The order in which the two ends are trimmed does not matter. -/
theorem trimStart_trimEnd (cs : List Char) : trimStart (trimEnd cs) = trim cs :=
  dropWhile_dropEndWhile isBlank cs

@[simp] theorem trim_trimEnd (cs : List Char) : trim (trimEnd cs) = trim cs := by
  rw [← trimStart_trimEnd, ← trimStart_trimEnd, trimEnd, trimEnd, dropEndWhile_idem]

@[simp] theorem trimEnd_trim (cs : List Char) : trimEnd (trim cs) = trim cs :=
  dropEndWhile_idem isBlank (trimStart cs)

@[simp] theorem trim_trim (cs : List Char) : trim (trim cs) = trim cs := by
  rw [← trimStart_trimEnd (trim cs), trimEnd_trim, ← trimStart_trimEnd cs]
  exact List.dropWhile_idempotent isBlank (trimEnd cs)

theorem trimEnd_cons_of_neg {c : Char} (h : isBlank c = false) (cs : List Char) :
    trimEnd (c :: cs) = c :: trimEnd cs := by
  rw [trimEnd, dropEndWhile_cons, if_neg (by simp [h])]
  rfl

theorem trim_cons_of_neg {c : Char} (h : isBlank c = false) (cs : List Char) :
    trim (c :: cs) = c :: trimEnd cs := by
  rw [trim, trimStart, List.dropWhile_cons_of_neg (by simp [h]), trimEnd_cons_of_neg h]

theorem trim_cons_of_pos {c : Char} (h : isBlank c = true) (cs : List Char) :
    trim (c :: cs) = trim cs := by
  rw [trim, trimStart, List.dropWhile_cons_of_pos h]
  rfl

/-- Nothing is left of a text exactly if it is blank. -/
theorem trim_eq_nil_iff : trim cs = [] ↔ ∀ c ∈ cs, isBlank c = true := by
  rw [trim, trimEnd, dropEndWhile_eq_nil_iff]
  refine ⟨fun h => ?_, fun h c hc => h c ((List.dropWhile_sublist _).subset hc)⟩
  induction cs with
  | nil => simp
  | cons c cs ih =>
    rcases hc : isBlank c with _ | _
    · rw [trimStart, List.dropWhile_cons_of_neg (by simp [hc])] at h
      exact h
    · rw [trimStart, List.dropWhile_cons_of_pos hc] at h
      exact List.forall_mem_cons.mpr ⟨hc, ih h⟩

theorem mem_of_mem_trim {c : Char} (h : c ∈ trim cs) : c ∈ cs :=
  (List.dropWhile_sublist _).subset ((List.rdropWhile_prefix isBlank _).subset h)

/-- What is left of a text begins and ends with other characters. -/
theorem not_isBlank_of_head?_trim {c : Char} (h : (trim cs).head? = some c) :
    isBlank c = false := by
  rw [← trimStart_trimEnd, trimStart] at h
  have hhead := List.head?_dropWhile_not isBlank (trimEnd cs)
  rwa [h] at hhead

/-- Nor does it end with a blank. -/
theorem not_isBlank_of_getLast?_trim {c : Char} (h : (trim cs).getLast? = some c) :
    isBlank c = false := by
  rw [trim, trimEnd, dropEndWhile, List.getLast?_reverse] at h
  have hhead := List.head?_dropWhile_not isBlank (trimStart cs).reverse
  rwa [h] at hhead

theorem trimStart_of_forall (h : ∀ c ∈ cs, isBlank c = false) : trimStart cs = cs :=
  List.dropWhile_eq_self_iff.mpr fun hpos => by simp [h _ (List.getElem_mem hpos)]

theorem trim_of_forall (h : ∀ c ∈ cs, isBlank c = false) : trim cs = cs := by
  rw [trim, trimStart_of_forall h, trimEnd]
  simpa [dropEndWhile] using dropEndWhile_append_of_neg h []

/-- A text that neither begins nor ends with a blank is left as it is. -/
theorem trim_of_ends {c d : Char} (hhead : cs.head? = some c) (hc : isBlank c = false)
    (hlast : cs.getLast? = some d) (hd : isBlank d = false) : trim cs = cs := by
  cases cs with
  | nil => cases hhead
  | cons e cs =>
    obtain rfl := Option.some.inj hhead
    rw [trim, trimStart, List.dropWhile_cons_of_neg (by simp [hc])]
    exact dropEndWhile_of_getLast? hlast hd

/-- And such texts are the only ones that trimming leaves as they are. -/
theorem trim_eq_self_iff : trim cs = cs ↔
    (∀ c, cs.head? = some c → isBlank c = false) ∧
      ∀ c, cs.getLast? = some c → isBlank c = false := by
  constructor
  · intro h
    rw [← h]
    exact ⟨fun c => not_isBlank_of_head?_trim, fun c => not_isBlank_of_getLast?_trim⟩
  · rintro ⟨hhead, hlast⟩
    rcases cs with _ | ⟨c, cs⟩
    · rfl
    · have hend := List.getLast?_eq_some_getLast (List.cons_ne_nil c cs)
      exact trim_of_ends rfl (hhead c rfl) hend (hlast _ hend)

/-- What stands inside a text or at its ends is kept if it has no blanks. -/
theorem trim_insert {front mid back : List Char} (h : trim (front ++ back) = front ++ back)
    (hmid : ∀ c ∈ mid, isBlank c = false) :
    trim (front ++ mid ++ back) = front ++ mid ++ back := by
  obtain ⟨hhead, hlast⟩ := trim_eq_self_iff.mp h
  simp only [List.head?_append, List.getLast?_append, Option.or_eq_some_iff] at hhead hlast
  refine trim_eq_self_iff.mpr ⟨fun c hc => ?_, fun c hc => ?_⟩
  · simp only [List.head?_append, Option.or_eq_some_iff, Option.or_eq_none_iff] at hc
    rcases hc with (hfront | ⟨-, hmem⟩) | ⟨⟨hnone, -⟩, hback⟩
    · exact hhead c (.inl hfront)
    · exact hmid c (List.mem_of_mem_head? hmem)
    · exact hhead c (.inr ⟨hnone, hback⟩)
  · simp only [List.getLast?_append, Option.or_eq_some_iff] at hc
    rcases hc with hback | ⟨hnone, hmem | ⟨-, hfront⟩⟩
    · exact hlast c (.inl hback)
    · exact hmid c (List.mem_of_mem_getLast? hmem)
    · exact hlast c (.inr ⟨hnone, hfront⟩)

/-! ## Blanks around a text -/

/-- Blanks at the front are trimmed, whatever is behind them. -/
theorem trimStart_blanks_append (h : ∀ c ∈ cs, isBlank c = true) (ds : List Char) :
    trimStart (cs ++ ds) = trimStart ds :=
  List.dropWhile_append_of_pos h

/-- Blanks at the end are trimmed, whatever is in front of them. -/
theorem trimEnd_append_blanks (h : ∀ c ∈ ds, isBlank c = true) (cs : List Char) :
    trimEnd (cs ++ ds) = trimEnd cs := by
  rw [trimEnd, dropEndWhile, List.reverse_append, List.dropWhile_append_of_pos, trimEnd,
    dropEndWhile]
  exact fun c hc => h c (List.mem_reverse.mp hc)

/-- Trimming the end of a part first does not matter. -/
theorem trimEnd_append_trimEnd (cs ds : List Char) :
    trimEnd (cs ++ trimEnd ds) = trimEnd (cs ++ ds) := by
  have hds := List.rdropWhile_append_rtakeWhile (p := isBlank) (l := ds)
  have hblanks : ∀ c ∈ ds.rtakeWhile isBlank, isBlank c = true := fun c => List.mem_rtakeWhile_imp
  conv_rhs => rw [← hds, ← List.append_assoc, trimEnd_append_blanks hblanks]
  rfl

/-- Trimming ends at the latest in the part that has a full character, and does not reach what
stands in front of it. -/
theorem trimEnd_append_of_mem {c : Char} (hc : c ∈ ds) (h : isBlank c = false) (cs : List Char) :
    trimEnd (cs ++ ds) = cs ++ trimEnd ds := by
  induction cs with
  | nil => rfl
  | cons d cs ih =>
    have hne : dropEndWhile isBlank (cs ++ ds) ≠ [] := by
      intro hnil
      have hblank := dropEndWhile_eq_nil_iff.mp hnil c (List.mem_append_right cs hc)
      exact absurd hblank (by simp [h])
    rw [List.cons_append, trimEnd, dropEndWhile_cons, if_neg fun hand => hne hand.1]
    exact congrArg (d :: ·) ih

/-- Blanks in front of a text do not matter once it is trimmed. -/
theorem trim_blanks_append (h : ∀ c ∈ cs, isBlank c = true) (ds : List Char) :
    trim (cs ++ ds) = trim ds := by
  rw [trim, trimStart_blanks_append h, trim]

/-- Nor do blanks behind it. -/
theorem trim_append_blanks (cs : List Char) (h : ∀ c ∈ ds, isBlank c = true) :
    trim (cs ++ ds) = trim cs := by
  rw [← trim_trimEnd, trimEnd_append_blanks h, trim_trimEnd]

/-! ## Letters and numerals -/

/-- The codes of the blanks, as closed ranges in ascending order. -/
def blankRanges : List (Nat × Nat) :=
  [(0x9, 0xD), (0x20, 0x20), (0x85, 0x85), (0xA0, 0xA0), (0x1680, 0x1680), (0x2000, 0x200A),
    (0x2028, 0x2029), (0x202F, 0x202F), (0x205F, 0x205F), (0x3000, 0x3000)]

/-- The blanks are listed by ranges, as letters and numerals are. -/
theorem isBlank_eq_inRanges (c : Char) : isBlank c = inRanges c.toNat blankRanges := by
  rw [Bool.eq_iff_iff]
  simp only [isBlank, inRanges, blankRanges, List.any_cons, List.any_nil, Bool.or_eq_true,
    Bool.and_eq_true, decide_eq_true_eq, beq_iff_eq, Bool.or_false]
  omega

theorem inRanges_append (n : Nat) (ranges others : List (Nat × Nat)) :
    inRanges n (ranges ++ others) = (inRanges n ranges || inRanges n others) :=
  List.any_append

/-- Whether ranges lie apart from others, as a test on the bounds: there are many of them. -/
def areApart (ranges others : List (Nat × Nat)) : Bool :=
  ranges.all fun r => others.all fun s => Nat.blt r.2 s.1 || Nat.blt s.2 r.1

/-- A code in one of some ranges is in none of those that lie apart from all of them. -/
theorem inRanges_eq_false {n : Nat} {ranges others : List (Nat × Nat)}
    (hapart : areApart ranges others = true) (h : inRanges n ranges = true) :
    inRanges n others = false := by
  simp only [areApart, inRanges, List.all_eq_true, List.any_eq_true, List.any_eq_false,
    Bool.or_eq_true, Bool.and_eq_true, decide_eq_true_eq, Nat.blt_eq] at hapart h ⊢
  obtain ⟨r, hr, hlow, hhigh⟩ := h
  rintro s hs ⟨hlow', hhigh'⟩
  rcases hapart r hr s hs with hlt | hlt <;> omega

/-- Letters and numerals are no blanks. -/
theorem not_isBlank_of_isLetterOrNumeral {c : Char} (h : isLetterOrNumeral c = true) :
    isBlank c = false := by
  unfold isLetterOrNumeral at h
  split at h
  · next hascii =>
    have hcodes : ∀ n < 0x80, (Char.ofNat n).isAlphanum = true →
        isBlank (Char.ofNat n) = false := by decide +kernel
    rw [← Char.ofNat_toNat c] at h ⊢
    exact hcodes _ hascii h
  · have hapart : areApart (letterRanges ++ numeralRanges) blankRanges = true := by
      decide +kernel
    rw [isBlank_eq_inRanges]
    refine inRanges_eq_false hapart ?_
    rw [inRanges_append]
    exact h

theorem not_isBlank_of_isAlphanum {c : Char} (h : c.isAlphanum = true) : isBlank c = false :=
  not_isBlank_of_isLetterOrNumeral (isLetterOrNumeral_of_isAlphanum h)

end ScreenForms.Text
