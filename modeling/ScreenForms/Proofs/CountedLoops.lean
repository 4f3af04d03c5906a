import Mathlib
import ScreenForms.Code.Idiom
import ScreenForms.Code.Token
import ScreenForms.Proofs.Digits
import ScreenForms.Proofs.Lists
import ScreenForms.Proofs.WrittenValues

/-!
# Counted loops

A loop of legacy code counts from one number to another, the last included, and its step says in
which direction (`loopValues`). The targets say so in two ways: Python takes the numbers of a range
that leaves out its end, and the languages with braces compare the counter before each round and
change it behind each. The headers are read here by the rules of their languages (`readHeader?`),
with the numerals of each language (`literal?`), and take the values of the legacy loop and no
others (`CountedLoop.header_iterates`).

The literals of a loop are copied into its header as they are. A zero in front of a numeral means
nothing in legacy code, but in Python no numeral begins so, and in a JavaScript that is not strict
such a numeral counts in base eight. The literals that a language reads as legacy code does are
therefore singled out; without zeros in front they all are (`literal?_eq_readInt?`).
-/

namespace ScreenForms.Code

open Decimal

/-! ## The legacy loop -/

/-- Whether a loop with this step has not passed its last number. -/
def Within (last step n : Int) : Prop := if 0 < step then n ≤ last else last ≤ n

instance (last step n : Int) : Decidable (Within last step n) :=
  inferInstanceAs (Decidable (if 0 < step then n ≤ last else last ≤ n))

section within

variable {last step n : Int}

/-- Upward, the counter runs while it is at most the last value. -/
theorem within_of_pos (hstep : 0 < step) : Within last step n ↔ n ≤ last := by
  rw [Within, if_pos hstep]

/-- Downward, while it is at least the last value. -/
theorem within_of_neg (hstep : step < 0) : Within last step n ↔ last ≤ n := by
  rw [Within, if_neg (by omega)]

/-- A number that is passed stays passed. -/
theorem not_within_add (hstep : step ≠ 0) (h : ¬ Within last step n) (k : Nat) :
    ¬ Within last step (n + step * k) := by
  rcases hstep.lt_or_gt with hneg | hpos
  · rw [within_of_neg hneg] at h ⊢
    have : step * k ≤ 0 := Int.mul_nonpos_of_nonpos_of_nonneg hneg.le k.cast_nonneg
    omega
  · rw [within_of_pos hpos] at h ⊢
    have : 0 ≤ step * k := Int.mul_nonneg hpos.le k.cast_nonneg
    omega

/-- How far a loop with this step has to go from a number to pass its last one. -/
def distance (last step n : Int) : Nat := (if 0 < step then last + 1 - n else n + 1 - last).toNat

/-- Each step brings the counter nearer to its end, which is why the loop stops. -/
theorem distance_add_lt (hstep : step ≠ 0) (h : Within last step n) :
    distance last step (n + step) < distance last step n := by
  rcases hstep.lt_or_gt with hneg | hpos
  · rw [within_of_neg hneg] at h
    rw [distance, distance, if_neg (by omega), if_neg (by omega)]
    omega
  · rw [within_of_pos hpos] at h
    rw [distance, distance, if_pos hpos, if_pos hpos]
    omega

end within

/-- The values of a loop that counts from `first` to `last`: the counter is visited and then changed
by the step, until it has passed the last number. -/
def loopValues (first last step : Int) : List Int :=
  if step ≠ 0 ∧ Within last step first then first :: loopValues (first + step) last step else []
termination_by distance last step first
decreasing_by
  rename_i h
  exact distance_add_lt h.1 h.2

/-- The values of a loop by their places. -/
theorem getElem?_loopValues {step : Int} (hstep : step ≠ 0) (first last : Int) (k : Nat) :
    (loopValues first last step)[k]? =
      if Within last step (first + step * k) then some (first + step * k) else none := by
  fun_induction loopValues first last step generalizing k with
  | case1 first h ih =>
    cases k with
    | zero => simp [h.2]
    | succ k =>
      have hnext : first + step + step * k = first + step * (k + 1 : Nat) := by push_cast; ring
      rw [List.getElem?_cons_succ, ih k, hnext]
  | case2 first h =>
    have hout : ¬ Within last step first := fun hin => h ⟨hstep, hin⟩
    rw [if_neg (not_within_add hstep hout k), List.getElem?_nil]

/-! ## The loops of the targets -/

/-- What a loop with a condition and a change of its counter visits from a number on: nothing when
it does not go on there, and else the number and what it visits from the next one on. -/
inductive Visits (goesOn : Int → Prop) (next : Int → Int) : Int → List Int → Prop where
  | stop {n : Int} (h : ¬ goesOn n) : Visits goesOn next n []
  | visit {n : Int} {values : List Int} (h : goesOn n) (rest : Visits goesOn next (next n) values) :
      Visits goesOn next n (n :: values)

/-- The comparisons that a counter is under. -/
inductive Comparison where
  | atMost
  | atLeast
  deriving DecidableEq, Repr

/-- Whether a counter passes the comparison with a bound. -/
def Comparison.Holds (bound : Int) : Comparison → Int → Prop
  | .atMost, n => n ≤ bound
  | .atLeast, n => bound ≤ n

instance (bound : Int) (comparison : Comparison) (n : Int) :
    Decidable (comparison.Holds bound n) :=
  match comparison with
  | .atMost => inferInstanceAs (Decidable (n ≤ bound))
  | .atLeast => inferInstanceAs (Decidable (bound ≤ n))

/-- What the header of a loop says. -/
inductive LoopHeader where
  /-- the numbers of a range without its end -/
  | range (first stop step : Int)
  /-- a counter that is compared before each round and changed by the step behind it -/
  | counting (first : Int) (comparison : Comparison) (bound step : Int)
  deriving DecidableEq, Repr

/-- Whether a number stands before the end of a range. -/
def Inside (stop step n : Int) : Prop := if 0 < step then n < stop else stop < n

instance (stop step n : Int) : Decidable (Inside stop step n) :=
  inferInstanceAs (Decidable (if 0 < step then n < stop else stop < n))

/-- The values that a loop takes. The numbers of a range are given by their places; a counter is
changed by the addition of its language. -/
def LoopHeader.Iterates (sum : Int → Int → Int) : LoopHeader → List Int → Prop
  | .range first stop step, values => step ≠ 0 ∧ ∀ k : Nat, values[k]? =
      if Inside stop step (first + step * k) then some (first + step * k) else none
  | .counting first comparison bound step, values =>
    Visits (comparison.Holds bound) (fun n => sum n step) first values

section values

variable {sum : Int → Int → Int} {first last step : Int} {values : List Int}

/-- A range takes the values of the loop when its end is the number behind the last one. -/
theorem iterates_range_iff {stop : Int} (hstep : step ≠ 0)
    (hstop : stop = if step < 0 then last - 1 else last + 1) :
    (LoopHeader.range first stop step).Iterates sum values ↔
      values = loopValues first last step := by
  have hinside : ∀ n, Inside stop step n ↔ Within last step n := by
    intro n
    rcases hstep.lt_or_gt with hneg | hpos
    · rw [if_pos hneg] at hstop
      rw [within_of_neg hneg, Inside, if_neg (by omega), hstop]
      omega
    · rw [if_neg (by omega)] at hstop
      rw [within_of_pos hpos, Inside, if_pos hpos, hstop]
      omega
  simp only [LoopHeader.Iterates, hinside, ← getElem?_loopValues hstep]
  exact ⟨fun h => List.ext_getElem? h.2, fun h => ⟨hstep, fun k => by rw [h]⟩⟩

/-- A counter takes the values of the loop when it is compared in the direction of the step and no
sum on the way overflows. -/
theorem iterates_counting_iff {comparison : Comparison} (hstep : step ≠ 0)
    (hcomparison : comparison = if step < 0 then .atLeast else .atMost)
    (hsum : ∀ n ∈ loopValues first last step, sum n step = n + step) :
    (LoopHeader.counting first comparison last step).Iterates sum values ↔
      values = loopValues first last step := by
  have hholds : ∀ n, comparison.Holds last n ↔ Within last step n := by
    intro n
    rcases hstep.lt_or_gt with hneg | hpos
    · rw [within_of_neg hneg, hcomparison, if_pos hneg]
      rfl
    · rw [within_of_pos hpos, hcomparison, if_neg (by omega)]
      rfl
  simp only [LoopHeader.Iterates]
  fun_induction loopValues first last step generalizing values with
  | case1 first h ih =>
    have hnext : sum first step = first + step := hsum first List.mem_cons_self
    have hrest := fun rest => @ih rest fun n hn => hsum n (List.mem_cons_of_mem _ hn)
    constructor
    · intro hvisits
      cases hvisits with
      | stop hout => exact absurd ((hholds first).mpr h.2) hout
      | visit hin hvisits =>
        obtain rfl := (hrest _).mp (hnext ▸ hvisits)
        rfl
    · rintro rfl
      exact .visit ((hholds first).mpr h.2) (hnext ▸ (hrest _).mpr rfl)
  | case2 first h =>
    have hout : ¬ comparison.Holds last first := fun hin => h ⟨hstep, (hholds first).mp hin⟩
    constructor
    · intro hvisits
      cases hvisits with
      | stop => rfl
      | visit hin => exact absurd hin hout
    · rintro rfl
      exact .stop hout

end values

/-! ## Numerals -/

/-- A whole number of 64 bits. -/
def Is64 (n : Int) : Prop := -9223372036854775808 ≤ n ∧ n ≤ 9223372036854775807

instance (n : Int) : Decidable (Is64 n) := inferInstanceAs (Decidable (_ ∧ _))

/-- The whole numbers that a language has without loss: all of them, those of 64 bits, or those that
a float has. -/
def Language.Has : Language → Int → Prop
  | .python, _ => True
  | .csharp, n => Is64 n
  | .javascript, n => n.natAbs ≤ 2 ^ 53

instance (language : Language) (n : Int) : Decidable (language.Has n) :=
  match language with
  | .python => .isTrue trivial
  | .csharp => inferInstanceAs (Decidable (Is64 n))
  | .javascript => inferInstanceAs (Decidable (n.natAbs ≤ 2 ^ 53))

/-- Whether a run of digits begins with a zero that more digits follow. -/
def hasLeadingZero (cs : List Char) : Bool := cs.head? == some '0' && decide (1 < cs.length)

/-- The number of a run of digits in a language. In Python a zero in front is followed by zeros
only; in a JavaScript that is not strict it makes digits up to seven a number in base eight. -/
def numeral? (language : Language) (cs : List Char) : Option Nat :=
  match language with
  | .python => (readNat? cs).filter fun n => n = 0 ∨ hasLeadingZero cs = false
  | .csharp => readNat? cs
  | .javascript =>
    if hasLeadingZero cs && cs.all fun c => '0' ≤ c && c ≤ '7' then some (Nat.ofDigitChars 8 cs 0)
    else readNat? cs

/-- The sign in front of a literal, and what stands behind it. -/
def spanSign : List Char → Int × List Char
  | '+' :: cs => (1, cs)
  | '-' :: cs => (-1, cs)
  | cs => (1, cs)

/-- The number that an integer literal stands for in a language. -/
def literal? (language : Language) (cs : List Char) : Option Int :=
  ((numeral? language (spanSign cs).2).map fun n => (spanSign cs).1 * (n : Int)).filter fun n =>
    language.Has n

/-- Whether the digits of an integer literal begin with a zero too many. -/
def isPadded (cs : List Char) : Bool := hasLeadingZero (spanSign cs).2

/-- Legacy code reads the digits behind the sign as they are. -/
theorem readInt?_eq (cs : List Char) :
    readInt? cs = (readNat? (spanSign cs).2).map fun n => (spanSign cs).1 * (n : Int) := by
  have hpositive : ∀ read : Option Nat, read.map Int.ofNat = read.map fun n => 1 * (n : Int) := by
    intro read
    cases read <;> simp
  unfold readInt?
  split
  · exact hpositive _
  · next cs =>
    rw [spanSign]
    cases readNat? cs <;> simp
  · next hplus hminus =>
    rw [spanSign, hpositive]
    · exact hplus
    · exact hminus

/-- A numeral without a zero in front is decimal in every language, and in C# it always is. -/
theorem numeral?_eq_readNat? {language : Language} {cs : List Char}
    (h : language = .csharp ∨ hasLeadingZero cs = false) : numeral? language cs = readNat? cs := by
  cases language with
  | csharp => rfl
  | javascript =>
    have hzero := h.resolve_left (by decide)
    simp [numeral?, hzero]
  | python =>
    have hzero := h.resolve_left (by decide)
    rcases hread : readNat? cs with _ | n <;> simp [numeral?, hread, hzero]

/-- Every language reads the literals that have no zeros in front as legacy code does, as long as it
has the number; and C# reads all others as well. -/
theorem literal?_eq_readInt? {language : Language} {cs : List Char} {n : Int}
    (hread : readInt? cs = some n) (hhas : language.Has n)
    (hpadded : language = .csharp ∨ isPadded cs = false) : literal? language cs = readInt? cs := by
  rw [literal?, numeral?_eq_readNat? hpadded, ← readInt?_eq, hread,
    Option.filter_some_pos (by simpa using hhas)]

/-! ### Numbers that are written -/

/-- The digits of a positive number begin with none that is zero. -/
theorem head?_decimalText {n : Nat} (hpos : 0 < n) : (decimalText n).head? ≠ some '0' := by
  induction n using Nat.strong_induction_on with
  | _ n ih =>
    rw [decimalText, Nat.toDigits_eq_if (by decide)]
    split
    · next hlow =>
      have hdigit : ∀ d < 10, 0 < d → [Nat.digitChar d].head? ≠ some '0' := by decide
      exact hdigit n hlow hpos
    · next hlow =>
      rw [List.head?_append_of_ne_nil _ Nat.toDigits_ne_nil]
      exact ih (n / 10) (by omega) (by omega)

/-- Written numbers have no zero in front, the number zero included. -/
theorem hasLeadingZero_decimalText (n : Nat) : hasLeadingZero (decimalText n) = false := by
  rcases Nat.eq_zero_or_pos n with rfl | hpos
  · rfl
  · simp [hasLeadingZero, head?_decimalText hpos]

theorem spanSign_decimalText (n : Nat) : spanSign (decimalText n) = (1, decimalText n) := by
  have hdigit : ∀ c ∈ decimalText n, c.isDigit = true := fun _ => isDigit_of_mem_decimalText
  rw [spanSign]
  · intro digits heq
    exact absurd (hdigit '+' (heq ▸ List.mem_cons_self)) (by decide)
  · intro digits heq
    exact absurd (hdigit '-' (heq ▸ List.mem_cons_self)) (by decide)

/-- A written number is read back. -/
theorem readInt?_intText (n : Int) : readInt? (intText n).toList = some n := by
  cases n with
  | ofNat k =>
    rw [intText, String.toList_ofList, readInt?_eq, spanSign_decimalText, readNat?_decimalText]
    simp
  | negSucc k =>
    rw [intText, String.toList_ofList, readInt?_eq, spanSign, readNat?_decimalText]
    simp [Int.negSucc_eq]

/-- It is no padded literal. -/
theorem isPadded_intText (n : Int) : isPadded (intText n).toList = false := by
  cases n with
  | ofNat k =>
    rw [intText, String.toList_ofList, isPadded, spanSign_decimalText, hasLeadingZero_decimalText]
  | negSucc k =>
    rw [intText, String.toList_ofList, isPadded, spanSign, hasLeadingZero_decimalText]

/-- Every language reads the text of a whole number that it has as the number. -/
theorem literal?_intText {language : Language} {n : Int} (h : language.Has n) :
    literal? language (intText n).toList = readInt? (intText n).toList :=
  literal?_eq_readInt? (readInt?_intText n) h (.inr (isPadded_intText n))

/-! ### Literals that are read -/

/-- A literal that is read has no blank in it, so that it ends at the first one. -/
theorem isBlank_of_readInt? {cs : List Char} {n : Int} (h : readInt? cs = some n) :
    ∀ c ∈ cs, Text.isBlank c = false := by
  intro c hc
  rcases of_mem_of_readInt? h c hc with hdigit | rfl | rfl
  · exact (Value.plain_of_isDigit hdigit).1
  · rfl
  · rfl

/-- A literal that is not zero begins with a minus sign when it is negative. -/
theorem head?_of_readInt? {cs : List Char} {n : Int} (h : readInt? cs = some n) (hn : n ≠ 0) :
    cs.head? = some '-' ↔ n < 0 := by
  obtain ⟨digits, m, hdigits, ⟨rfl, rfl⟩ | ⟨rfl, rfl⟩ | ⟨rfl, rfl⟩⟩ := exists_of_readInt? h
  · simp
  · simpa using by omega
  · have hhead : cs.head? ≠ some '-' := fun hhead =>
      absurd (hdigits '-' (List.mem_of_head? hhead)) (by decide)
    simp [hhead]

/-! ## Headers -/

/-- The name at the front, and what stands behind it. -/
def readName? (cs : List Char) : Option (List Char × List Char) :=
  let name := cs.takeWhile Token.isNamePart
  if name.isEmpty then none else some (name, cs.dropWhile Token.isNamePart)

/-- A character of an integer literal. -/
def isLiteralPart (c : Char) : Bool := c.isDigit || c == '+' || c == '-'

/-- The integer literal at the front, and what stands behind it. -/
def readLiteral? (language : Language) (cs : List Char) : Option (Int × List Char) :=
  (literal? language (cs.takeWhile isLiteralPart)).map fun n => (n, cs.dropWhile isLiteralPart)

/-- The step of a range, behind its end. -/
def readRangeStep? (cs : List Char) : Option Int :=
  match Text.dropLead? ", ".toList cs with
  | none => if cs = "):".toList then some 1 else none
  | some cs => (readLiteral? .python cs).bind fun r =>
    if r.2 = "):".toList then some r.1 else none

/-- The header of a loop over a range of Python. -/
def readRange? (cs : List Char) : Option (List Char × LoopHeader) := do
  let (counter, cs) ← readName? (← Text.dropLead? "for ".toList cs)
  let (first, cs) ← readLiteral? .python (← Text.dropLead? " in range(".toList cs)
  let (stop, cs) ← readLiteral? .python (← Text.dropLead? ", ".toList cs)
  let step ← readRangeStep? cs
  some (counter, .range first stop step)

/-- What a counter is compared with, and what stands behind it. -/
def readComparison? (language : Language) (cs : List Char) :
    Option (Comparison × Int × List Char) :=
  match Text.dropLead? " <= ".toList cs with
  | some cs => (readLiteral? language cs).map fun r => (.atMost, r)
  | none =>
    (Text.dropLead? " >= ".toList cs).bind fun cs =>
      (readLiteral? language cs).map fun r => (.atLeast, r)

/-- What a counter is changed by, and what stands behind it. -/
def readIncrement? (language : Language) (cs : List Char) : Option (Int × List Char) :=
  match Text.dropLead? "++".toList cs with
  | some cs => some (1, cs)
  | none => (Text.dropLead? " += ".toList cs).bind (readLiteral? language)

/-- The word that a language with braces declares a counter by. -/
def declarator : Language → String
  | .csharp => "var "
  | _ => "let "

/-- The header of a loop in a language with braces. -/
def readCounting? (language : Language) (cs : List Char) : Option (List Char × LoopHeader) := do
  let cs ← Text.dropLead? "for (".toList cs
  let (counter, cs) ← readName? (← Text.dropLead? (declarator language).toList cs)
  let (first, cs) ← readLiteral? language (← Text.dropLead? " = ".toList cs)
  let cs ← Text.dropLead? counter (← Text.dropLead? "; ".toList cs)
  let (comparison, bound, cs) ← readComparison? language cs
  let cs ← Text.dropLead? counter (← Text.dropLead? "; ".toList cs)
  let (step, cs) ← readIncrement? language cs
  if cs = ") \x7b".toList then some (counter, .counting first comparison bound step) else none

/-- The counter and the loop that a header stands for. -/
def readHeader? (language : Language) (cs : List Char) : Option (List Char × LoopHeader) :=
  if language = .python then readRange? cs else readCounting? language cs

example : readHeader? .python "for i in range(10, 0, -4):".toList =
    some (['i'], .range 10 0 (-4)) := by decide

section reading

variable {language : Language} {name cs : List Char} {n : Int} {rest : List Char}

/-- The name of the counter ends at the first character that is no part of names. -/
theorem readName?_append (hname : name ≠ [] ∧ ∀ c ∈ name, Token.isNamePart c = true)
    (hrest : ∀ c, rest.head? = some c → Token.isNamePart c = false) :
    readName? (name ++ rest) = some (name, rest) := by
  obtain ⟨htake, hdrop⟩ := span_append_of_head? hname.2 hrest
  simp [readName?, htake, hdrop, hname.1]

theorem isLiteralPart_of_readInt? (h : readInt? cs = some n) :
    ∀ c ∈ cs, isLiteralPart c = true := by
  intro c hc
  simpa [isLiteralPart, or_assoc] using of_mem_of_readInt? h c hc

/-- A literal ends at the first character that is no part of literals, and its value is the one of
the legacy reader where it is spelled alike in both languages. -/
theorem readLiteral?_append (hread : readInt? cs = some n)
    (hspelled : literal? language cs = readInt? cs)
    (hrest : ∀ c, rest.head? = some c → isLiteralPart c = false) :
    readLiteral? language (cs ++ rest) = some (n, rest) := by
  obtain ⟨htake, hdrop⟩ := span_append_of_head? (isLiteralPart_of_readInt? hread) hrest
  rw [readLiteral?, htake, hdrop, hspelled, hread]
  rfl

end reading

/-! ### The parts of the lines -/

section line

variable {target : Target}

/-- The line that opens a counted loop in Python, piece by piece. -/
theorem forLine_of_python (h : language target = .python) (counter first last : String)
    (step : Option String) :
    forLine target counter first last step = "for " ++ counter ++ " in range(" ++ first ++ ", " ++
      exclusiveEnd last (isDescending step) ++ step.elim "" (", " ++ ·) ++ "):" := by
  simp only [forLine, h]
  cases step with
  | none => rfl
  | some step => rfl

/-- The line that opens a counted loop in the languages with braces, piece by piece. -/
theorem forLine_of_ne_python (h : language target ≠ .python) (counter first last : String)
    (step : Option String) :
    forLine target counter first last step = "for (" ++ declarator (language target) ++ counter ++
      " = " ++ first ++ "; " ++ counter ++ (if isDescending step then " >= " else " <= ") ++ last ++
      "; " ++ counter ++ step.elim "++" (" += " ++ ·) ++ ") \x7b" := by
  refine String.toList_injective ?_
  simp only [forLine]
  cases hlanguage : language target with
  | python => exact absurd hlanguage h
  | csharp =>
    cases step <;> cases isDescending _ <;> simp [declarator]
  | javascript =>
    cases step <;> cases isDescending _ <;> simp [declarator]

end line

/-! ## Loops with literals -/

/-- A counted loop whose bounds and step are integer literals. -/
structure CountedLoop where
  counter : String
  first : String
  last : String
  step : Option String
  firstValue : Int
  lastValue : Int
  stepValue : Int
  isName : counter.toList ≠ [] ∧ ∀ c ∈ counter.toList, Token.isNamePart c = true
  readFirst : readInt? first.toList = some firstValue
  readLast : readInt? last.toList = some lastValue
  /-- a loop without a step counts up by one -/
  readStep : (match step with
    | none => some 1
    | some step => readInt? step.toList) = some stepValue
  stepValue_ne_zero : stepValue ≠ 0

namespace CountedLoop

variable (loop : CountedLoop)

/-- The values of the legacy loop. -/
def values : List Int := loopValues loop.firstValue loop.lastValue loop.stepValue

/-- The line that opens the loop in a target. -/
def header (target : Target) : String :=
  forLine target loop.counter loop.first loop.last loop.step

/-- The literals that are copied into the line; the end of a range is computed. -/
def copied (target : Target) : List String :=
  if language target = .python then loop.first :: loop.step.toList
  else loop.first :: loop.last :: loop.step.toList

/-- The number behind the last one in the direction of the step. -/
def stop : Int := if loop.stepValue < 0 then loop.lastValue - 1 else loop.lastValue + 1

/-- The last number and the number behind it are numbers of 64 bits. -/
def FitsInt64 : Prop := Is64 loop.lastValue ∧ Is64 loop.stop

instance : Decidable loop.FitsInt64 := inferInstanceAs (Decidable (_ ∧ _))

variable {loop} {target : Target}

/-- A loop without a step counts by one. -/
theorem stepValue_of_none (h : loop.step = none) : loop.stepValue = 1 := by
  have hread := loop.readStep
  rw [h] at hread
  exact (Option.some.inj hread).symm

theorem readInt?_step {step : String} (h : loop.step = some step) :
    readInt? step.toList = some loop.stepValue := by
  have hread := loop.readStep
  rw [h] at hread
  exact hread

variable (loop) in
/-- The direction is read off the text of the step. -/
theorem isDescending_step : isDescending loop.step = decide (loop.stepValue < 0) := by
  cases hstep : loop.step with
  | none =>
    rw [stepValue_of_none hstep]
    rfl
  | some step =>
    have hread := readInt?_step hstep
    rw [isDescending, Text.trimStart_of_forall (isBlank_of_readInt? hread), Bool.eq_iff_iff,
      beq_iff_eq, head?_of_readInt? hread loop.stepValue_ne_zero, decide_eq_true_iff]

/-- The end of a range is the number behind the last one. -/
theorem exclusiveEnd_last (hfits : loop.FitsInt64) :
    exclusiveEnd loop.last (isDescending loop.step) = intText loop.stop := by
  have hread : readInt64? loop.last = some loop.lastValue := by
    rw [readInt64?, Text.trim_of_forall (isBlank_of_readInt? loop.readLast), loop.readLast]
    exact Option.filter_some_pos (by simpa [Is64] using hfits.1)
  rw [exclusiveEnd, hread, loop.isDescending_step]
  simp [stop]

/-- The step is read behind the end of a range, where none stands for one. -/
theorem readRangeStep?_step
    (hspelled : ∀ s, loop.step = some s → literal? .python s.toList = readInt? s.toList) :
    readRangeStep? ((loop.step.elim "" (", " ++ ·)).toList ++ "):".toList) =
      some loop.stepValue := by
  cases hstep : loop.step with
  | none =>
    rw [stepValue_of_none hstep]
    rfl
  | some step =>
    have hread := readInt?_step hstep
    have hend : ∀ c, "):".toList.head? = some c → isLiteralPart c = false :=
      head?_cons_eq_false rfl _
    simp only [readRangeStep?, Option.elim_some, String.toList_append, List.append_assoc,
      Text.dropLead?_append, readLiteral?_append hread (hspelled step hstep) hend,
      Option.bind_some, if_pos]

/-- A range whose end is one number behind the last is read in the line for Python. -/
theorem readHeader?_range (hlanguage : language target = .python) (hfits : loop.FitsInt64)
    (hspelled : ∀ s ∈ loop.copied target, literal? .python s.toList = readInt? s.toList) :
    readHeader? .python (loop.header target).toList =
      some (loop.counter.toList, .range loop.firstValue loop.stop loop.stepValue) := by
  simp only [copied, if_pos hlanguage, List.forall_mem_cons, Option.mem_toList] at hspelled
  obtain ⟨hfirst, hstep⟩ := hspelled
  have hend : ∀ c, ((loop.step.elim "" (", " ++ ·)).toList ++ "):".toList).head? = some c →
      isLiteralPart c = false := by
    cases loop.step with
    | none => exact head?_cons_eq_false rfl _
    | some step =>
      rw [Option.elim_some, String.toList_append, List.append_assoc]
      exact head?_cons_eq_false rfl _
  have hcounter (rest) : readName? (loop.counter.toList ++ (" in range(".toList ++ rest)) =
      some (loop.counter.toList, " in range(".toList ++ rest) :=
    readName?_append loop.isName (head?_cons_eq_false rfl _)
  have hfirst (rest) : readLiteral? .python (loop.first.toList ++ (", ".toList ++ rest)) =
      some (loop.firstValue, ", ".toList ++ rest) :=
    readLiteral?_append loop.readFirst hfirst (head?_cons_eq_false rfl _)
  have hspelled : literal? .python (intText loop.stop).toList =
      readInt? (intText loop.stop).toList := literal?_intText trivial
  have hstop := readLiteral?_append (readInt?_intText _) hspelled hend
  rw [header, forLine_of_python hlanguage, exclusiveEnd_last hfits, readHeader?, if_pos rfl]
  simp only [String.toList_append, List.append_assoc, readRange?, Text.dropLead?_append,
    Option.bind_eq_bind, Option.bind_some, hcounter, hfirst, hstop, readRangeStep?_step hstep]

/-- What the counter is changed by is read behind it, where nothing else stands for one. -/
theorem readIncrement?_step (language : Language)
    (hspelled : ∀ s, loop.step = some s → literal? language s.toList = readInt? s.toList) :
    readIncrement? language ((loop.step.elim "++" (" += " ++ ·)).toList ++ ") \x7b".toList) =
      some (loop.stepValue, ") \x7b".toList) := by
  cases hstep : loop.step with
  | none =>
    rw [stepValue_of_none hstep]
    rfl
  | some step =>
    have hread := readInt?_step hstep
    have hend : ∀ c, ") \x7b".toList.head? = some c → isLiteralPart c = false :=
      head?_cons_eq_false rfl _
    have hother (rest) : Text.dropLead? "++".toList (" += ".toList ++ rest) = none := rfl
    simp only [readIncrement?, Option.elim_some, String.toList_append, List.append_assoc,
      Text.dropLead?_append, hother, Option.bind_some,
      readLiteral?_append hread (hspelled step hstep) hend]

/-- A comparison in the direction of the step is read behind the counter. -/
theorem readComparison?_last (language : Language)
    (hspelled : literal? language loop.last.toList = readInt? loop.last.toList)
    (rest : List Char) :
    readComparison? language ((if isDescending loop.step then " >= " else " <= ").toList ++
      (loop.last.toList ++ ("; ".toList ++ rest))) =
      some (if loop.stepValue < 0 then .atLeast else .atMost, loop.lastValue,
        "; ".toList ++ rest) := by
  have hlast : readLiteral? language (loop.last.toList ++ ("; ".toList ++ rest)) =
      some (loop.lastValue, "; ".toList ++ rest) :=
    readLiteral?_append loop.readLast hspelled (head?_cons_eq_false rfl _)
  have hother (rest) : Text.dropLead? " <= ".toList (" >= ".toList ++ rest) = none := rfl
  rw [loop.isDescending_step]
  by_cases hstep : loop.stepValue < 0
  · simp only [hstep, decide_true, if_true, readComparison?, hother, Text.dropLead?_append,
      Option.bind_some, hlast, Option.map_some]
  · simp only [hstep, decide_false, Bool.false_eq_true, if_false, readComparison?,
      Text.dropLead?_append, hlast, Option.map_some]

/-- A counter that is compared in the direction of the step is read in the lines with braces. -/
theorem readHeader?_counting (hlanguage : language target ≠ .python)
    (hspelled : ∀ s ∈ loop.copied target,
      literal? (language target) s.toList = readInt? s.toList) :
    readHeader? (language target) (loop.header target).toList =
      some (loop.counter.toList, .counting loop.firstValue
        (if loop.stepValue < 0 then .atLeast else .atMost) loop.lastValue loop.stepValue) := by
  simp only [copied, if_neg hlanguage, List.forall_mem_cons, Option.mem_toList] at hspelled
  obtain ⟨hfirst, hlast, hstep⟩ := hspelled
  have hcounter (rest) : readName? (loop.counter.toList ++ (" = ".toList ++ rest)) =
      some (loop.counter.toList, " = ".toList ++ rest) :=
    readName?_append loop.isName (head?_cons_eq_false rfl _)
  have hfirst (rest) : readLiteral? (language target) (loop.first.toList ++ ("; ".toList ++ rest)) =
      some (loop.firstValue, "; ".toList ++ rest) :=
    readLiteral?_append loop.readFirst hfirst (head?_cons_eq_false rfl _)
  rw [header, forLine_of_ne_python hlanguage, readHeader?, if_neg hlanguage]
  simp only [String.toList_append, List.append_assoc, readCounting?, Text.dropLead?_append,
    Option.bind_eq_bind, Option.bind_some, hcounter, hfirst, readComparison?_last _ hlast,
    readIncrement?_step _ hstep, if_pos]

/-- The header of every target takes the values of the legacy loop and no others, whatever the
target's addition gives where it overflows. Only for Python a number is computed: the end of the
range, which has to be one of 64 bits. -/
theorem header_iterates (loop : CountedLoop) (target : Target) (sum : Int → Int → Int)
    (hfits : language target = .python → loop.FitsInt64)
    (hspelled : ∀ s ∈ loop.copied target,
      literal? (language target) s.toList = readInt? s.toList)
    (hsum : ∀ n ∈ loop.values, sum n loop.stepValue = n + loop.stepValue) :
    ∃ header, readHeader? (language target) (loop.header target).toList =
        some (loop.counter.toList, header) ∧
      ∀ values, header.Iterates sum values ↔ values = loop.values := by
  by_cases hlanguage : language target = .python
  · rw [hlanguage] at hspelled ⊢
    exact ⟨_, readHeader?_range hlanguage (hfits hlanguage) hspelled, fun values =>
      iterates_range_iff loop.stepValue_ne_zero rfl⟩
  · exact ⟨_, readHeader?_counting hlanguage hspelled, fun values =>
      iterates_counting_iff loop.stepValue_ne_zero rfl hsum⟩

/-- A loop that counts down and steps over its last number. -/
def downward : CountedLoop where
  counter := "i"
  first := "10"
  last := "1"
  step := some "-4"
  firstValue := 10
  lastValue := 1
  stepValue := -4
  isName := ⟨by decide, List.forall_mem_singleton.mpr rfl⟩
  readFirst := by decide
  readLast := by decide
  readStep := by decide
  stepValue_ne_zero := by decide

/-- Counting down by four passes over the last value. -/
theorem values_downward : downward.values = [10, 6, 2] := by
  simp [values, downward, loopValues, Within]

/-- The addition of a counter of 32 bits. -/
def wrappedSum (n step : Int) : Int := Int.bmod (n + step) (2 ^ 32)

theorem header_iterates_downward :
    downward.FitsInt64 ∧
      (∀ s ∈ downward.copied .winforms,
        literal? (language .winforms) s.toList = readInt? s.toList) ∧
      (∀ n ∈ downward.values, wrappedSum n downward.stepValue = n + downward.stepValue) ∧
      ∃ header, readHeader? .csharp (downward.header .winforms).toList = some (['i'], header) ∧
        ∀ values, header.Iterates wrappedSum values ↔ values = [10, 6, 2] := by
  have hfits : downward.FitsInt64 := by decide
  have hspelled : ∀ s ∈ downward.copied .winforms,
      literal? (language .winforms) s.toList = readInt? s.toList := by decide
  have hsum : ∀ n ∈ downward.values, wrappedSum n downward.stepValue = n + downward.stepValue := by
    rw [values_downward]
    decide
  have hiterates := header_iterates downward .winforms wrappedSum (fun _ => hfits) hspelled hsum
  rw [values_downward] at hiterates
  exact ⟨hfits, hspelled, hsum, hiterates⟩

/-- A loop whose bounds have zeros in front. -/
def padded : CountedLoop where
  counter := "i"
  first := "010"
  last := "012"
  step := none
  firstValue := 10
  lastValue := 12
  stepValue := 1
  isName := ⟨by decide, List.forall_mem_singleton.mpr rfl⟩
  readFirst := by decide
  readLast := by decide
  readStep := by decide
  stepValue_ne_zero := by decide

/-- The zeros in front make a header for JavaScript count in base eight. -/
theorem header_padded_octal :
    padded.FitsInt64 ∧ padded.values = [10, 11, 12] ∧
      ∃ header, readHeader? (language .html) (padded.header .html).toList =
          some (padded.counter.toList, header) ∧
        header.Iterates (· + ·) [8, 9, 10] ∧ ¬ header.Iterates (· + ·) padded.values := by
  have hvalues : padded.values = [10, 11, 12] := by
    simp [values, padded, loopValues, Within]
  refine ⟨by decide, hvalues, .counting 8 .atMost 10 1, by decide, ?_, ?_⟩
  · exact .visit (by decide) (.visit (by decide) (.visit (by decide) (.stop (by decide))))
  · rw [hvalues]
    intro hvisits
    cases hvisits

end CountedLoop

end ScreenForms.Code
