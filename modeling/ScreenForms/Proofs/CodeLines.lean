import ScreenForms.Proofs.Output

/-!
# Lines of code and their translations

Whether translated lines hold code can be asked line by line (`hasCode_join`): comments hold none
(`hasCode_commentText`), and the headers of blocks always do. A line of code is nothing, a comment,
a keyword of a block, or stands for itself (`read_cases`).
-/

namespace ScreenForms.Code

open Text

/-! ## Texts with code -/

/-- Whether a single line holds something other than a comment. -/
def isCode (target : Target) (line : List Char) : Bool :=
  !(trim line).isEmpty && (dropLead? (idiom target).comment.toList (trim line)).isNone

theorem hasCode_eq (target : Target) (code : String) :
    hasCode target code = (lines code.toList).any (isCode target) := rfl

theorem isCode_chomp (target : Target) (l : List Char) :
    isCode target (chomp l) = isCode target l := by
  rw [isCode, isCode, trim_chomp]

/-- Joined lines hold code when one of them does. -/
theorem hasCode_join (target : Target) (ls : List String) :
    hasCode target (join "\n" ls) = ls.any (hasCode target) := by
  induction ls with
  | nil => rfl
  | cons l ls ih =>
    cases ls with
    | nil => simp [join]
    | cons m ls =>
      rw [List.any_cons, ← ih, hasCode_eq, toList_join, List.map_cons, List.map_cons,
        joinWith_cons _ _ (List.cons_ne_nil _ _), List.append_assoc, hasCode_eq, hasCode_eq,
        toList_join]
      exact any_lines_append_newline (isCode_chomp target) rfl _ _

theorem hasCode_of_not_mem {target : Target} {code : String} (h : '\n' ∉ code.toList) :
    hasCode target code = isCode target code.toList := by
  rw [hasCode_eq, lines_of_not_mem h]
  split
  · next hnil => rw [hnil]; rfl
  · simp

/-- A text that begins with a character that no comment begins with holds code. It is enough to look
at the first line, since one line of code makes code of the whole. -/
theorem hasCode_of_head {target : Target} {code : String} {c : Char}
    (hc : code.toList.head? = some c) (hblank : isBlank c = false) (hmark : c ≠ '#' ∧ c ≠ '/') :
    hasCode target code = true := by
  have hcode : ∀ cs : List Char, isCode target (c :: cs) = true := by
    intro cs
    rw [isCode, trim_cons_of_neg hblank]
    cases target <;>
      simp [idiom, Idiom.indented, Idiom.braced, dropLead?, hmark.1.symm, hmark.2.symm]
  obtain ⟨rest, hrest⟩ : ∃ rest, code.toList = c :: rest := by
    cases hcs : code.toList with
    | nil => simp [hcs] at hc
    | cons d rest => exact ⟨rest, by simpa [hcs] using hc⟩
  have hbreak : c ≠ '\n' := by
    rintro rfl
    cases hblank
  rw [hasCode_eq, hrest]
  rcases exists_first_line (c :: rest) with hline | ⟨first, tail, heq, hfirst⟩
  · rw [lines_of_not_mem hline]
    simp [hcode rest]
  · rw [heq, lines_append_newline hfirst, List.any_cons, isCode_chomp]
    cases first with
    | nil => exact absurd (List.cons.inj heq).1 hbreak
    | cons d first =>
      obtain ⟨rfl, -⟩ := List.cons.inj heq
      rw [hcode first]
      rfl

/-- The mark of a comment has neither blanks nor line feeds. -/
theorem commentMark_solid (target : Target) :
    ∀ c ∈ (idiom target).comment.toList, isBlank c = false ∧ c ≠ '\n' := by
  cases target <;> simp [idiom, Idiom.indented, Idiom.braced, isBlank]

/-- What stands behind the mark of a comment is no code. -/
theorem isCode_comment (target : Target) (cs : List Char) :
    isCode target ((idiom target).comment.toList ++ cs) = false := by
  obtain ⟨c, mark, hmark⟩ : ∃ c mark, (idiom target).comment.toList = c :: mark := by
    cases target <;> exact ⟨_, _, rfl⟩
  have hsolid : ∀ d ∈ c :: mark, isBlank d = false :=
    fun d hd => (commentMark_solid target d (hmark ▸ hd)).1
  have htrim : trim (c :: mark ++ cs) = c :: mark ++ trimEnd cs := by
    rw [trim, trimStart, List.cons_append,
      List.dropWhile_cons_of_neg (by simp [hsolid c List.mem_cons_self])]
    exact dropEndWhile_append_of_neg hsolid cs
  rw [isCode, hmark, htrim, dropLead?_append]
  simp

/-- Comments hold no code. -/
theorem hasCode_commentText (target : Target) {text : List Char} (h : '\n' ∉ text) :
    hasCode target (Output.commentText target text) = false := by
  have htext : ∃ cs : List Char, '\n' ∉ cs ∧
      (Output.commentText target text).toList = (idiom target).comment.toList ++ cs := by
    unfold Output.commentText
    dsimp only
    split
    · exact ⟨[], List.not_mem_nil, (List.append_nil _).symm⟩
    · refine ⟨' ' :: trim text, ?_, ?_⟩
      · intro hmem
        rcases List.mem_cons.mp hmem with hblank | hmem
        · exact absurd hblank (by decide)
        · exact h (mem_of_mem_trim hmem)
      · simp only [String.toList_append, String.toList_ofList, List.append_assoc]
        rfl
  obtain ⟨cs, hcs, hlist⟩ := htext
  rw [hasCode_of_not_mem, hlist, isCode_comment]
  rw [hlist, List.mem_append]
  rintro (hmem | hmem)
  · exact (commentMark_solid target _ hmem).2 rfl
  · exact hcs hmem

/-! ## Kinds of lines -/

theorem eq_some_or_of_orElse {α : Type} {a : Option α} {f : Unit → Option α} {b : α}
    (h : a.orElse f = some b) : a = some b ∨ f () = some b := by
  cases a with
  | none => exact .inr h
  | some _ => exact .inl h

/-- Whether a line opens, continues or closes a block. -/
def Line.isKeyword : Line → Bool
  | .ifLine _ | .elseIfLine _ | .elseLine | .endIf | .doCase | .caseLine _ | .otherwise | .endCase
  | .forLine .. | .forEachLine .. | .endFor | .doWhile _ | .endDo => true
  | _ => false

theorem isKeyword_of_forEachParts? {cs : List Char} {l : Line} (h : forEachParts? cs = some l) :
    l.isKeyword := by
  unfold forEachParts? at h
  obtain ⟨r1, -, h⟩ := Option.bind_eq_some_iff.mp h
  obtain ⟨r2, -, h⟩ := Option.bind_eq_some_iff.mp h
  dsimp only at h
  split at h
  · cases h
  · obtain ⟨r3, -, h⟩ := Option.bind_eq_some_iff.mp h
    obtain ⟨r4, -, h⟩ := Option.bind_eq_some_iff.mp h
    obtain rfl := Option.some.inj h
    rfl

theorem isKeyword_of_forParts? {cs : List Char} {l : Line} (h : forParts? cs = some l) :
    l.isKeyword := by
  unfold forParts? at h
  obtain ⟨r1, -, h⟩ := Option.bind_eq_some_iff.mp h
  dsimp only at h
  split at h
  · cases h
  · split at h
    · obtain ⟨⟨first, rest⟩, -, h⟩ := Option.bind_eq_some_iff.mp h
      dsimp only at h
      split at h <;> obtain rfl := Option.some.inj h <;> rfl
    · cases h

theorem isKeyword_of_blockLine? {cs : List Char} {l : Line} (h : blockLine? cs = some l) :
    l.isKeyword := by
  have hmap : ∀ {α : Type} {o : Option α} {f : α → Line}, (∀ a, (f a).isKeyword) →
      o.map f = some l → l.isKeyword := by
    rintro α o f hf h
    obtain ⟨a, -, rfl⟩ := Option.map_eq_some_iff.mp h
    exact hf a
  unfold blockLine? at h
  rcases eq_some_or_of_orElse h with h | h
  · exact hmap (fun _ => rfl) h
  rcases eq_some_or_of_orElse h with h | h
  · exact hmap (fun _ => rfl) h
  split at h
  · obtain rfl := Option.some.inj h
    rfl
  split at h
  · obtain rfl := Option.some.inj h
    rfl
  split at h
  · obtain rfl := Option.some.inj h
    rfl
  rcases eq_some_or_of_orElse h with h | h
  · exact hmap (fun _ => rfl) h
  split at h
  · obtain rfl := Option.some.inj h
    rfl
  split at h
  · obtain rfl := Option.some.inj h
    rfl
  rcases eq_some_or_of_orElse h with h | h
  · exact isKeyword_of_forEachParts? h
  rcases eq_some_or_of_orElse h with h | h
  · exact isKeyword_of_forParts? h
  split at h
  · obtain rfl := Option.some.inj h
    rfl
  rcases eq_some_or_of_orElse h with h | h
  · exact hmap (fun _ => rfl) h
  split at h
  · obtain rfl := Option.some.inj h
    rfl
  · cases h

/-- The kinds of lines that are not part of blocks and stand for statements or declarations. -/
def Line.isSimple : Line → Bool
  | .localNames _ | .parameters _ | .returnLine _ | .wait _ | .release | .store .. | .call ..
  | .print _ | .statement _ => true
  | _ => false

/-- The names that a line declares. -/
def Line.declared? : Line → Option (List (List Char))
  | .localNames names | .parameters names => some names
  | _ => none

theorem isSimple_of_simpleLine? {cs : List Char} {l : Line} (h : simpleLine? cs = some l) :
    l.isSimple ∧ (∀ names, l.declared? = some names → ∃ list, names = declaredNames list) ∧
      ∀ text, l ≠ .statement text := by
  unfold simpleLine? at h
  rcases eq_some_or_of_orElse h with h | h
  · obtain ⟨list, -, rfl⟩ := Option.map_eq_some_iff.mp h
    refine ⟨rfl, ?_, nofun⟩
    rintro names ⟨⟩
    exact ⟨list, rfl⟩
  rcases eq_some_or_of_orElse h with h | h
  · obtain ⟨list, -, rfl⟩ := Option.map_eq_some_iff.mp h
    refine ⟨rfl, ?_, nofun⟩
    rintro names ⟨⟩
    exact ⟨list, rfl⟩
  rcases eq_some_or_of_orElse h with h | h
  · obtain ⟨value, -, rfl⟩ := Option.map_eq_some_iff.mp h
    exact ⟨rfl, nofun, nofun⟩
  split at h
  · obtain rfl := Option.some.inj h
    exact ⟨rfl, nofun, nofun⟩
  rcases eq_some_or_of_orElse h with h | h
  · obtain ⟨message, -, rfl⟩ := Option.map_eq_some_iff.mp h
    exact ⟨rfl, nofun, nofun⟩
  rcases eq_some_or_of_orElse h with h | h
  · unfold storeParts? at h
    obtain ⟨rest, -, h⟩ := Option.bind_eq_some_iff.mp h
    obtain ⟨_, -, h⟩ := Option.bind_eq_some_iff.mp h
    obtain ⟨parts, -, h⟩ := Option.bind_eq_some_iff.mp h
    obtain rfl := Option.some.inj h
    exact ⟨rfl, nofun, nofun⟩
  rcases eq_some_or_of_orElse h with h | h
  · unfold callParts? at h
    obtain ⟨rest, -, h⟩ := Option.bind_eq_some_iff.mp h
    dsimp only at h
    split at h
    · cases h
    · split at h
      · obtain rfl := Option.some.inj h
        exact ⟨rfl, nofun, nofun⟩
      · obtain ⟨arguments, -, rfl⟩ := Option.map_eq_some_iff.mp h
        exact ⟨rfl, nofun, nofun⟩
  split at h
  · obtain rfl := Option.some.inj h
    exact ⟨rfl, nofun, nofun⟩
  · obtain rfl := Option.some.inj h
    exact ⟨rfl, nofun, nofun⟩
  · cases h

/-- What a line is: nothing, a comment as it stands, a block keyword, or a simple line. -/
theorem read_cases (code : List Char) :
    Line.read code = .blank ∧ trim code = [] ∨ Line.read code = .comment (trim code) ∨
      (Line.read code).isKeyword ∨
      (Line.read code).isSimple ∧
        (∀ names, (Line.read code).declared? = some names → ∃ list, names = declaredNames list) ∧
        ∀ text, Line.read code = .statement text → text = trim code := by
  unfold Line.read
  dsimp only
  split
  · next h => exact .inl ⟨rfl, h⟩
  · next rest h => exact .inr (.inl rfl)
  · rcases hblock : blockLine? (trim code) with _ | l
    · rcases hsimple : simpleLine? (trim code) with _ | l
      · refine .inr (.inr (.inr ⟨rfl, nofun, ?_⟩))
        rintro text ⟨⟩
        rfl
      · obtain ⟨h, hnames, hstatement⟩ := isSimple_of_simpleLine? hsimple
        exact .inr (.inr (.inr ⟨h, hnames, fun text htext => absurd htext (hstatement text)⟩))
    · exact .inr (.inr (.inl (isKeyword_of_blockLine? hblock)))

theorem mem_of_dropLead? {lead cs rest : List Char} (h : dropLead? lead cs = some rest) {c : Char}
    (hc : c ∈ rest) : c ∈ cs :=
  eq_append_of_dropLead? h ▸ List.mem_append_right _ hc

/-- Declared names have letters, numerals, underscores and dots. Everything from the first other
character on was cut off, and a leading `m.` can only make the name shorter. -/
theorem not_mem_declaredNames {list name : List Char} {c : Char}
    (hc : (isLetterOrNumeral c || c == '_' || c == '.') = false) (h : name ∈ declaredNames list) :
    c ∉ name := by
  unfold declaredNames at h
  obtain ⟨item, -, hitem⟩ := List.mem_filterMap.mp h
  split at hitem
  · cases hitem
  · next word _ _ =>
    dsimp only at hitem
    generalize hword : word.takeWhile (fun c => isLetterOrNumeral c || c == '_' || c == '.') = whole
      at hitem
    have hwhole : c ∉ whole := by
      intro hmem
      rw [← hword] at hmem
      exact absurd (List.mem_takeWhile_imp hmem) (by simp [hc])
    split at hitem
    · cases hitem
    · obtain rfl := Option.some.inj hitem
      intro hmem
      rcases hlower : dropLead? ['m', '.'] whole with _ | rest
      · rw [hlower] at hmem
        rcases hupper : dropLead? ['M', '.'] whole with _ | rest
        · rw [hupper] at hmem
          exact hwhole hmem
        · rw [hupper] at hmem
          exact hwhole (mem_of_dropLead? hupper hmem)
      · rw [hlower] at hmem
        exact hwhole (mem_of_dropLead? hlower hmem)

end ScreenForms.Code
