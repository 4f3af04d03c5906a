import Mathlib
import ScreenForms.Code.Quoted

/-!
# Literals denote their texts

A string literal of a program is read by its escapes: a backslash and the character behind it stand
for one character (`unescape?`). A double quote closes the literal unless it is escaped, that is,
unless an odd number of backslashes stands directly in front of it (`EndsEscaping`). Every character
of a text is written as itself or as one escape (`escapeControl_cases`), so the quotes at both ends
are the only ones that are not escaped, and what stands between them is read as the text
(`quoted_denotes`).
-/

namespace ScreenForms.Code

/-! ## Reading a literal -/

/-- What a character stands for behind a backslash. -/
def escaped? : Char → Option Char
  | '\\' => some '\\'
  | '"' => some '"'
  | 'n' => some '\n'
  | 'r' => some '\r'
  | 't' => some '\t'
  | _ => none

/-- The text that the inside of a literal stands for. It has none with a quote or a line end in it
that is not escaped, or with a backslash that escapes nothing. -/
def unescape? : List Char → Option (List Char)
  | [] => some []
  | '\\' :: [] => none
  | '\\' :: c :: cs => (escaped? c).bind fun d => (unescape? cs).map (d :: ·)
  | c :: cs => if c ∈ ['"', '\n', '\r'] then none else (unescape? cs).map (c :: ·)

/-- What follows a text is escaped when the backslashes at its end do not pair off. -/
def EndsEscaping (cs : List Char) : Prop := Odd (cs.reverse.takeWhile (· = '\\')).length

/-- What stands between the quotes of a literal of a text. -/
structure IsInside (inside text : List Char) : Prop where
  /-- line ends and tabs are not there as they are -/
  controls : ∀ c ∈ ['\n', '\r', '\t'], c ∉ inside
  /-- every quote is escaped -/
  quotes : ∀ before after, inside = before ++ '"' :: after → EndsEscaping before
  /-- the closing quote is not -/
  closes : ¬ EndsEscaping inside
  denotes : unescape? inside = some text

/-! ## Escaping, character by character -/

/-- Whether the next character is escaped, given whether this one is. -/
def escapesNext (escaped : Bool) (c : Char) : Bool := !escaped && c = '\\'

/-- Counting backslashes comes to the same as reading from the front. -/
theorem endsEscaping_iff (cs : List Char) : EndsEscaping cs ↔ cs.foldl escapesNext false := by
  induction cs using List.reverseRecOn with
  | nil => simp [EndsEscaping]
  | append_singleton cs c ih =>
    rw [List.foldl_append, List.foldl_cons, List.foldl_nil, escapesNext, EndsEscaping,
      List.reverse_append, List.reverse_singleton, List.singleton_append]
    by_cases hc : c = '\\'
    · rw [List.takeWhile_cons_of_pos (by simpa using hc), List.length_cons, Nat.odd_add_one,
        ← EndsEscaping, ih]
      simp [hc]
    · rw [List.takeWhile_cons_of_neg (by simpa using hc)]
      simp [hc]

/-- A character that is written as itself. -/
def IsPlain (c : Char) : Prop := c ∉ ['\\', '"', '\n', '\r', '\t']

/-- Every character is written as an escape or as itself. -/
theorem escapeControl_cases (c : Char) :
    (∃ d, escaped? d = some c ∧ escapeControl c = ['\\', d]) ∨
      IsPlain c ∧ escapeControl c = [c] := by
  unfold escapeControl escapeMark
  split
  · next h => exact .inl ⟨'n', by simp [escaped?, h], rfl⟩
  split
  · next h => exact .inl ⟨'r', by simp [escaped?, h], rfl⟩
  split
  · next h => exact .inl ⟨'t', by simp [escaped?, h], rfl⟩
  split
  · next h => exact .inl ⟨'\\', by simp [escaped?, h], rfl⟩
  split
  · next h => exact .inl ⟨'"', by simp [escaped?, h], rfl⟩
  · exact .inr ⟨by simp_all [IsPlain], rfl⟩

theorem not_mem_controls_of_escaped? {c d : Char} (h : escaped? d = some c) :
    d ∉ ['\n', '\r', '\t'] := by
  rintro hd
  simp only [List.mem_cons, List.not_mem_nil, or_false] at hd
  rcases hd with rfl | rfl | rfl <;> cases h

theorem unescape?_escape {c d : Char} (h : escaped? d = some c) (cs : List Char) :
    unescape? ('\\' :: d :: cs) = (unescape? cs).map (c :: ·) := by
  rw [unescape?, h, Option.bind_some]

theorem unescape?_plain {c : Char} (h : IsPlain c) (cs : List Char) :
    unescape? (c :: cs) = (unescape? cs).map (c :: ·) := by
  simp only [IsPlain, List.mem_cons, List.not_mem_nil, or_false, not_or] at h
  rw [unescape?.eq_4 _ _ (fun hc => absurd hc h.1) (fun _ _ hc => absurd hc h.1), if_neg]
  simp [h]

/-! ## The inside of a literal, from the front -/

variable {inside text : List Char}

theorem IsInside.nil : IsInside [] [] := ⟨by simp, by simp, by simp [EndsEscaping], rfl⟩

/-- An escape in front: it has two characters, and only the second may be a quote. Decoding consumes
both of them at once and gives back the one character. -/
theorem IsInside.escape {c d : Char} (h : IsInside inside text) (hd : escaped? d = some c) :
    IsInside ('\\' :: d :: inside) (c :: text) := by
  have hfold : ∀ cs : List Char, ('\\' :: d :: cs).foldl escapesNext false =
      cs.foldl escapesNext false := fun _ => rfl
  refine ⟨fun e he => ?_, fun before after heq => ?_, ?_, ?_⟩
  · have hslash : e ≠ '\\' := by
      rintro rfl
      simp at he
    have hletter : e ≠ d := by
      rintro rfl
      exact not_mem_controls_of_escaped? hd he
    simp [hslash, hletter, h.controls e he]
  · rw [endsEscaping_iff]
    match before with
    | [] => simp at heq
    | [e] =>
      obtain ⟨rfl, -⟩ := List.cons.inj heq
      rfl
    | e :: e' :: before =>
      simp only [List.cons_append, List.cons.injEq] at heq
      obtain ⟨rfl, rfl, heq⟩ := heq
      rw [hfold]
      exact (endsEscaping_iff before).mp (h.quotes before after heq)
  · rw [endsEscaping_iff, hfold]
    exact (endsEscaping_iff _).not.mp h.closes
  · rw [unescape?_escape hd, h.denotes, Option.map_some]

/-- A character in front that is written as itself. It is no backslash, so that whether a later
quote is escaped does not depend on it. -/
theorem IsInside.plain {c : Char} (h : IsInside inside text) (hc : IsPlain c) :
    IsInside (c :: inside) (c :: text) := by
  have hslash : escapesNext false c = false := by
    simp only [IsPlain, List.mem_cons, not_or] at hc
    simp [escapesNext, hc.1]
  refine ⟨fun e he => ?_, fun before after heq => ?_, ?_, ?_⟩
  · have hne : e ≠ c := by
      rintro rfl
      exact hc (List.mem_cons_of_mem _ (List.mem_cons_of_mem _ he))
    simp [hne, h.controls e he]
  · rw [endsEscaping_iff]
    match before with
    | [] =>
      obtain ⟨rfl, -⟩ := List.cons.inj heq
      simp [IsPlain] at hc
    | e :: before =>
      simp only [List.cons_append, List.cons.injEq] at heq
      obtain ⟨rfl, heq⟩ := heq
      rw [List.foldl_cons, hslash]
      exact (endsEscaping_iff before).mp (h.quotes before after heq)
  · rw [endsEscaping_iff, List.foldl_cons, hslash]
    exact (endsEscaping_iff _).not.mp h.closes
  · rw [unescape?_plain hc, h.denotes, Option.map_some]

theorem isInside_flatMap (text : List Char) : IsInside (text.flatMap escapeControl) text := by
  induction text with
  | nil => exact .nil
  | cons c text ih =>
    rw [List.flatMap_cons]
    rcases escapeControl_cases c with ⟨d, hd, hc⟩ | ⟨hplain, hc⟩
    · rw [hc]
      exact ih.escape hd
    · rw [hc]
      exact ih.plain hplain

/-! ## Literals of translated code -/

/-- Every occurrence of a mark replaced by a piece. -/
def replaceMark (mark : Char) (piece cs : List Char) : List Char :=
  cs.flatMap fun c => if c = mark then piece else [c]

/-- Escaping marks is replacing backslashes first and quotes then; the other way round the
backslashes in front of the quotes would be doubled. -/
theorem flatMap_escapeMark (cs : List Char) :
    cs.flatMap escapeMark =
      replaceMark '"' ['\\', '"'] (replaceMark '\\' ['\\', '\\'] cs) := by
  rw [replaceMark, replaceMark, List.flatMap_assoc]
  refine congrArg (List.flatMap · cs) (funext fun c => ?_)
  unfold escapeMark
  split
  · rfl
  · simp

theorem escapeMark_eq_of_not_control {c : Char} (h : c ∉ ['\n', '\r', '\t']) :
    escapeMark c = escapeControl c := by
  simp only [List.mem_cons, List.not_mem_nil, or_false, not_or] at h
  simp [escapeControl, h]

/-- A literal of a generated program is one pair of quotes with the text between them, in escapes.
Translated code has the same literal exactly for the texts without line ends and tabs; it is found
by two replacements one after the other. -/
theorem quoted_denotes (text : String) :
    (∃ inside, (quoted text).toList = '"' :: inside ++ ['"'] ∧ IsInside inside text.toList) ∧
      (stringLiteral text = quoted text ↔ ∀ c ∈ ['\n', '\r', '\t'], c ∉ text.toList) ∧
        (stringLiteral text).toList = '"' :: replaceMark '"' ['\\', '"']
          (replaceMark '\\' ['\\', '\\'] text.toList) ++ ['"'] := by
  have hinside := isInside_flatMap text.toList
  refine ⟨⟨_, String.toList_ofList, hinside⟩, ⟨fun heq c hc hmem => ?_, fun hfree => ?_⟩, ?_⟩
  · -- the character would stand in the literal as it is
    have hlists := String.ofList_injective heq
    have hsame := List.append_cancel_right (List.cons.inj hlists).2
    refine hinside.controls c hc ?_
    rw [← hsame, List.mem_flatMap]
    refine ⟨c, hmem, ?_⟩
    simp only [List.mem_cons, List.not_mem_nil, or_false] at hc
    rcases hc with rfl | rfl | rfl <;> decide
  · have hsame : text.toList.flatMap escapeMark = text.toList.flatMap escapeControl :=
      List.flatMap_congr fun c hc =>
        escapeMark_eq_of_not_control fun hcontrol => hfree c hcontrol hc
    rw [stringLiteral, quoted, quoteWith, quoteWith, hsame]
  · rw [stringLiteral, quoteWith, String.toList_ofList, flatMap_escapeMark]

/-- A text that ends with a backslash and has a quote and a line end in it. -/
example : quoted "a\"\n\\" = "\"a\\\"\\n\\\\\"" ∧
    unescape? "a\\\"\\n\\\\".toList = some "a\"\n\\".toList := by decide

end ScreenForms.Code
