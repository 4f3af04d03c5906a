import ScreenForms.Proofs.SimpleLines

/-!
# Lines broken into several

A line may be broken at single blanks: a semicolon is put behind the blank, and the line goes on
behind a line end and any indentation (`BrokenLine`). The lines are joined again to the line that was
broken, but for pieces that begin with an asterisk: such a piece is taken for a comment, and ends
the line where it should go on (`staysOpen`). Where there is no such piece, or it is the last and
does not end with a semicolon itself, the translation is that of the line as a whole
(`broken_line_iff`).
-/

namespace ScreenForms.Code

open Text

/-! ## Pieces of a line -/

/-- Blanks within a line. -/
structure Gap where
  text : List Char
  isBlank : ∀ c ∈ text, Text.isBlank c = true
  noBreak : '\n' ∉ text

/-- A part of a line that neither begins nor ends with a blank. -/
structure Piece where
  text : List Char
  begins : ∃ c, text.head? = some c ∧ Text.isBlank c = false
  ends : ∃ c, text.getLast? = some c ∧ Text.isBlank c = false
  noBreak : '\n' ∉ text

namespace Piece

/-- Whether a piece looks like a comment when it stands on a line of its own. -/
def isMarked (p : Piece) : Bool := p.text.head? == some '*'

/-- Whether a piece ends with a semicolon. -/
def isOpen (p : Piece) : Bool := p.text.getLast? == some ';'

variable (p q : Piece)

/-- A piece begins with a character that is no blank, so it is not empty. -/
theorem ne_nil : p.text ≠ [] := by
  obtain ⟨c, hc, -⟩ := p.begins
  rintro hnil
  rw [hnil] at hc
  cases hc

/-- Two pieces with a blank between them. -/
def join : Piece where
  text := p.text ++ ' ' :: q.text
  begins := by
    obtain ⟨c, hc, hblank⟩ := p.begins
    exact ⟨c, by rw [List.head?_append_of_ne_nil _ p.ne_nil, hc], hblank⟩
  ends := by
    obtain ⟨c, hc, hblank⟩ := q.ends
    refine ⟨c, ?_, hblank⟩
    rw [List.append_cons, List.getLast?_append_of_ne_nil _ q.ne_nil, hc]
  noBreak := by
    rw [List.mem_append, not_or]
    exact ⟨p.noBreak, List.not_mem_cons_of_ne_of_not_mem (by decide) q.noBreak⟩

/-- Pieces are joined with one blank between them. -/
theorem text_join : (p.join q).text = p.text ++ ' ' :: q.text := rfl

/-- The last character of a joined line is that of its last piece, since no piece is empty. -/
theorem getLast?_append_join (cs : List Char) :
    (cs ++ ' ' :: q.text).getLast? = q.text.getLast? := by
  rw [List.append_cons, List.getLast?_append_of_ne_nil _ q.ne_nil]

/-- Whether a line is a comment is decided by its first piece. -/
@[simp] theorem isMarked_join : (p.join q).isMarked = p.isMarked := by
  rw [isMarked, text_join, List.head?_append_of_ne_nil _ p.ne_nil, isMarked]

/-- Whether a line goes on is decided by its last piece. -/
@[simp] theorem isOpen_join : (p.join q).isOpen = q.isOpen := by
  rw [isOpen, text_join, getLast?_append_join, isOpen]

end Piece

/-- A break behind a piece, and the piece behind it. -/
structure Break where
  /-- whether a carriage return belongs to the line end -/
  carriage : Bool
  indent : Gap
  piece : Piece

/-- What is put in the place of a blank. -/
def Break.text (b : Break) : List Char :=
  ' ' :: ';' :: (if b.carriage then ['\r', '\n'] else ['\n']) ++ b.indent.text

/-- A line with places in it where it is broken. -/
structure BrokenLine where
  lead : Gap
  first : Piece
  breaks : List Break
  tail : Gap

/-- A piece with further pieces behind it. -/
def Piece.joinAll (p : Piece) (breaks : List Break) : Piece :=
  breaks.foldl (fun p b => p.join b.piece) p

@[simp] theorem Piece.joinAll_nil (p : Piece) : p.joinAll [] = p := rfl

/-- Joining is done from the left, one break after the other. -/
@[simp] theorem Piece.joinAll_cons (p : Piece) (b : Break) (more : List Break) :
    p.joinAll (b :: more) = (p.join b.piece).joinAll more := rfl

/-- However many pieces are joined, the first one decides whether the line is a comment. -/
@[simp] theorem Piece.isMarked_joinAll (p : Piece) (breaks : List Break) :
    (p.joinAll breaks).isMarked = p.isMarked := by
  induction breaks generalizing p with
  | nil => rfl
  | cons b more ih => rw [joinAll_cons, ih, isMarked_join]

namespace BrokenLine

variable (l : BrokenLine)

/-- The line from its first piece to its last. -/
def body : Piece := l.first.joinAll l.breaks

/-- The line as a whole. -/
def whole : String := String.ofList (l.lead.text ++ l.body.text ++ l.tail.text)

/-- The line, broken in all places. -/
def broken : String :=
  String.ofList (l.lead.text ++ l.first.text ++
    (l.breaks.flatMap fun b => b.text ++ b.piece.text) ++ l.tail.text)

end BrokenLine

/-- Whether pieces that stand on lines of their own all belong to the line: none of them looks
like a comment, but for the last, when it does not end with a semicolon. -/
def staysOpen : List Break → Bool
  | [] => true
  | [b] => !(b.piece.isMarked && b.piece.isOpen)
  | b :: next :: more => !b.piece.isMarked && staysOpen (next :: more)

/-! ## The lines of a broken line -/

/-- The lines of a broken line that end with a semicolon, from one on. -/
def openLines : List Char → List Break → List (List Char)
  | _, [] => []
  | front, b :: more => (front ++ [' ', ';']) :: openLines (b.indent.text ++ b.piece.text) more

/-- The last line of a broken line. -/
def lastLine : List Char → List Break → List Char
  | front, [] => front
  | _, b :: more => lastLine (b.indent.text ++ b.piece.text) more

/-- A carriage return behind the semicolon belongs to the line end and is dropped with it. -/
theorem chomp_append_semicolon (cs : List Char) (carriage : Bool) :
    chomp (cs ++ ' ' :: ';' :: if carriage then ['\r'] else []) = cs ++ [' ', ';'] := by
  induction cs with
  | nil => cases carriage <;> rfl
  | cons c cs ih => rw [List.cons_append, chomp_cons (.inr (by simp)), ih, List.cons_append]

/-- Neither the blanks in front of a piece nor the piece itself have a line feed. -/
theorem newline_not_mem_line (b : Break) : '\n' ∉ b.indent.text ++ b.piece.text := by
  rw [List.mem_append, not_or]
  exact ⟨b.indent.noBreak, b.piece.noBreak⟩

/-- A broken text has a line for each break, which ends in a semicolon, and one for its last piece.
Whatever follows is cut into lines as if it stood behind the last piece alone. -/
theorem lines_broken {front : List Char} (hfront : '\n' ∉ front) (breaks : List Break)
    (rest : List Char) :
    lines (front ++ (breaks.flatMap fun b => b.text ++ b.piece.text) ++ rest) =
      openLines front breaks ++ lines (lastLine front breaks ++ rest) := by
  induction breaks generalizing front with
  | nil => rw [List.flatMap_nil, List.append_nil]; rfl
  | cons b more ih =>
    have htext : front ++ ((b :: more).flatMap fun b => b.text ++ b.piece.text) ++ rest =
        (front ++ ' ' :: ';' :: if b.carriage then ['\r'] else []) ++
          '\n' :: (b.indent.text ++ b.piece.text ++
            (more.flatMap fun b => b.text ++ b.piece.text) ++ rest) := by
      rw [List.flatMap_cons, Break.text]
      cases b.carriage <;> simp
    have hline : '\n' ∉ front ++ ' ' :: ';' :: if b.carriage then ['\r'] else [] := by
      cases b.carriage <;> simp [hfront]
    rw [htext, lines_append_newline hline, chomp_append_semicolon, ih (newline_not_mem_line b)]
    rfl

/-! ## Continued lines -/

section

variable {blanks x part : List Char} {p q : Piece} {whole? : Option (List Char)}
  {rest : List (List Char)}

/-- Trimming makes no text longer. -/
theorem length_trimEnd_le (cs : List Char) : (trimEnd cs).length ≤ cs.length :=
  (List.rdropWhile_prefix isBlank cs).length_le

/-- A piece does not begin with a blank, so trimming the front stops at once. -/
theorem Piece.trimStart_append (p : Piece) (cs : List Char) :
    trimStart (p.text ++ cs) = p.text ++ cs := by
  obtain ⟨c, hc, hblank⟩ := p.begins
  obtain ⟨ds, hds⟩ := List.head?_eq_some_iff.mp hc
  rw [hds, trimStart, List.cons_append, List.dropWhile_cons_of_neg (by simp [hblank])]

/-- Without its last character a piece still begins as it did, or is empty. -/
theorem Piece.trimStart_dropLast (p : Piece) : trimStart p.text.dropLast = p.text.dropLast := by
  obtain ⟨c, hc, hblank⟩ := p.begins
  obtain ⟨ds, hds⟩ := List.head?_eq_some_iff.mp hc
  cases ds with
  | nil => rw [hds]; rfl
  | cons d ds =>
    rw [hds, List.dropLast_cons_of_ne_nil (List.cons_ne_nil d ds), trimStart,
      List.dropWhile_cons_of_neg (by simp [hblank])]

/-- A piece does not end with a blank, so trimming the end stops at once. -/
theorem Piece.trimEnd_append (p : Piece) (cs : List Char) :
    trimEnd (cs ++ p.text) = cs ++ p.text := by
  obtain ⟨c, hc, hblank⟩ := p.ends
  refine dropEndWhile_of_getLast? ?_ hblank
  rw [List.getLast?_append_of_ne_nil _ p.ne_nil, hc]

/-- A line goes on where its last character is a semicolon. -/
theorem dropTail?_semicolon (cs : List Char) :
    dropTail? [';'] cs = if cs.getLast? = some ';' then some cs.dropLast else none := by
  rcases List.eq_nil_or_concat cs with rfl | ⟨ds, d, rfl⟩
  · rfl
  · rw [List.concat_eq_append, dropTail?, List.reverse_concat, List.reverse_singleton, dropLead?,
      List.getLast?_concat, List.dropLast_concat]
    by_cases hd : d = ';'
    · simp [hd, dropLead?]
    · simp [hd, Ne.symm hd]

/-- Behind its indent a line begins with its piece, which decides whether it is a comment. -/
theorem Piece.trimStart_line (hblanks : ∀ c ∈ blanks, isBlank c = true) (p : Piece)
    (cs : List Char) : (trimStart (blanks ++ p.text ++ cs)).head? = p.text.head? := by
  rw [List.append_assoc, trimStart_blanks_append hblanks, p.trimStart_append,
    List.head?_append_of_ne_nil _ p.ne_nil]

/-- The line of a piece that has another behind it. -/
theorem lineContinuation_open (hblanks : ∀ c ∈ blanks, isBlank c = true) (p : Piece) :
    lineContinuation (blanks ++ p.text ++ [' ', ';']) =
      if p.isMarked then (blanks ++ p.text ++ [' ', ';'], false) else (blanks ++ p.text, true) := by
  have hend : trimEnd (blanks ++ p.text ++ [' ', ';']) = blanks ++ p.text ++ [' ', ';'] :=
    dropEndWhile_of_getLast? (by simp) (show isBlank ';' = false by decide)
  have htail : dropTail? [';'] (blanks ++ p.text ++ [' ', ';']) =
      some (blanks ++ p.text ++ [' ']) := by
    rw [dropTail?_semicolon]
    simp
  have hpart : trimEnd (blanks ++ p.text ++ [' ']) = blanks ++ p.text := by
    rw [trimEnd_append_blanks (List.forall_mem_singleton.mpr rfl), p.trimEnd_append]
  rw [lineContinuation, hend, p.trimStart_line hblanks, htail]
  simp only [hpart, Piece.isMarked, beq_iff_eq]

/-- The line of the last piece. -/
theorem lineContinuation_last (hblanks : ∀ c ∈ blanks, isBlank c = true)
    (hx : trimEnd x = blanks ++ p.text) :
    lineContinuation x =
      if p.isMarked || !p.isOpen then (blanks ++ p.text, false)
      else (trimEnd (blanks ++ p.text.dropLast), true) := by
  have hhead : (trimStart (blanks ++ p.text)).head? = p.text.head? := by
    simpa using p.trimStart_line hblanks []
  have htail : dropTail? [';'] (blanks ++ p.text) =
      if p.isOpen then some (blanks ++ p.text.dropLast) else none := by
    rw [dropTail?_semicolon, List.getLast?_append_of_ne_nil _ p.ne_nil,
      List.dropLast_append_of_ne_nil p.ne_nil]
    simp only [Piece.isOpen, beq_iff_eq]
  rw [lineContinuation, hx, hhead, htail]
  simp only [Piece.isMarked]
  by_cases hmark : p.text.head? = some '*'
  · simp [hmark]
  · cases p.isOpen <;> simp [hmark]

/-- What a line becomes with the line that is open before it. -/
def joined (whole? : Option (List Char)) (part : List Char) : List Char :=
  match whole? with
  | none => part
  | some whole => whole ++ ' ' :: trimStart part

/-- A line with a semicolon waits for the next one, with what has been joined so far in front. -/
theorem joinFrom_open (h : lineContinuation x = (part, true)) :
    joinFrom whole? (x :: rest) = joinFrom (some (joined whole? part)) rest := by
  cases whole? <;> simp [joinFrom, h, joined]

/-- A line without a semicolon ends a logical line, and the next line begins a new one. -/
theorem joinFrom_closed (h : lineContinuation x = (part, false)) :
    joinFrom whole? (x :: rest) = joined whole? part :: joinFrom none rest := by
  cases whole? <;> simp [joinFrom, h, joined]

/-- Lines never vanish altogether: even a comment or an empty line is a logical line. -/
theorem joinFrom_ne_nil (whole? : Option (List Char)) {ls : List (List Char)} (h : ls ≠ []) :
    joinFrom whole? ls ≠ [] := by
  induction ls generalizing whole? with
  | nil => exact absurd rfl h
  | cons l ls ih =>
    rcases hl : lineContinuation l with ⟨part, _ | _⟩
    · rw [joinFrom_closed hl]
      exact List.cons_ne_nil _ _
    · rw [joinFrom_open hl]
      cases ls with
      | nil => simp [joinFrom]
      | cons m ls => exact ih _ (List.cons_ne_nil m ls)

/-- What stands before a piece that begins a line, when the line is joined to the one before. -/
def before (whole? : Option (List Char)) (blanks : List Char) : List Char :=
  match whole? with
  | none => blanks
  | some whole => whole ++ [' ']

/-- What has been joined so far takes the place of the indent of the next piece. -/
theorem joined_piece (hblanks : ∀ c ∈ blanks, isBlank c = true) (p : Piece) :
    joined whole? (blanks ++ p.text) = before whole? blanks ++ p.text := by
  cases whole? with
  | none => rfl
  | some whole =>
    have htrim : trimStart (blanks ++ p.text) = p.text := by
      simpa using (trimStart_blanks_append hblanks (p.text ++ [])).trans (p.trimStart_append [])
    simp [joined, before, htrim]

/-! ## Joining the pieces -/

variable {lead : List Char} {b next : Break} {more : List Break}

/-- Joining a text with the piece of a break is the text of the joined piece. -/
theorem joined_join (lead : List Char) (p : Piece) (b : Break) :
    joined (some (lead ++ p.text)) (b.indent.text ++ b.piece.text) =
      lead ++ (p.join b.piece).text := by
  rw [joined_piece b.indent.isBlank, before, Piece.text_join]
  simp

/-- A piece that does not look like a comment leaves the line open for the next. -/
theorem joinFrom_next (hb : b.piece.isMarked = false) (next : Break) :
    joinFrom (some (lead ++ p.text))
        (openLines (b.indent.text ++ b.piece.text) (next :: more) ++ rest) =
      joinFrom (some (lead ++ (p.join b.piece).text))
        (openLines (next.indent.text ++ next.piece.text) more ++ rest) := by
  have hline : lineContinuation (b.indent.text ++ b.piece.text ++ [' ', ';']) =
      (b.indent.text ++ b.piece.text, true) := by
    rw [lineContinuation_open b.indent.isBlank, hb]
    rfl
  rw [openLines, List.cons_append, joinFrom_open hline, joined_join]

/-- A piece that looks like a comment ends the line. -/
theorem joinFrom_marked (hb : b.piece.isMarked = true) (next : Break) :
    joinFrom (some (lead ++ p.text))
        (openLines (b.indent.text ++ b.piece.text) (next :: more) ++ rest) =
      joined (some (lead ++ p.text)) (b.indent.text ++ b.piece.text ++ [' ', ';']) ::
        joinFrom none (openLines (next.indent.text ++ next.piece.text) more ++ rest) := by
  have hline : lineContinuation (b.indent.text ++ b.piece.text ++ [' ', ';']) =
      (b.indent.text ++ b.piece.text ++ [' ', ';'], false) := by
    rw [lineContinuation_open b.indent.isBlank, hb]
    rfl
  rw [openLines, List.cons_append, joinFrom_closed hline]

/-- A line that is complete is joined from its pieces. The induction is on the breaks, with the text
joined so far in `lead` and `p`. -/
theorem joinFrom_complete (hstays : staysOpen (b :: more) = true)
    (hlast : (p.joinAll (b :: more)).isOpen = false)
    (hx : trimEnd x = lastLine (b.indent.text ++ b.piece.text) more) :
    joinFrom (some (lead ++ p.text))
        (openLines (b.indent.text ++ b.piece.text) more ++ x :: rest) =
      (lead ++ (p.joinAll (b :: more)).text) :: joinFrom none rest := by
  induction more generalizing p b with
  | nil =>
    have hopen : b.piece.isOpen = false := by simpa using hlast
    have hline : lineContinuation x = (b.indent.text ++ b.piece.text, false) := by
      rw [lineContinuation_last b.indent.isBlank hx, hopen]
      simp
    rw [openLines, List.nil_append, joinFrom_closed hline, joined_join]
    rfl
  | cons next more ih =>
    obtain ⟨hb, hmore⟩ : b.piece.isMarked = false ∧ staysOpen (next :: more) = true := by
      simpa [staysOpen] using hstays
    rw [joinFrom_next hb, ih hmore hlast hx]
    rfl

/-- A line at the end of a body that ends with a semicolon of its own is joined from its pieces
without it. -/
theorem joinFrom_semicolon (lead : List Char) (hstays : staysOpen (b :: more) = true)
    (hlast : (p.joinAll (b :: more)).isOpen = true)
    (hx : trimEnd x = lastLine (b.indent.text ++ b.piece.text) more) :
    ∃ whole, joinFrom (some (lead ++ p.text))
        (openLines (b.indent.text ++ b.piece.text) more ++ [x]) = [whole] ∧
      trimEnd whole = trimEnd (lead ++ (p.joinAll (b :: more)).text.dropLast) := by
  induction more generalizing p b with
  | nil =>
    have hopen : b.piece.isOpen = true := by simpa using hlast
    have hmark : b.piece.isMarked = false := by simpa [staysOpen, hopen] using hstays
    have hline : lineContinuation x = (trimEnd (b.indent.text ++ b.piece.text.dropLast), true) := by
      rw [lineContinuation_last b.indent.isBlank hx, hopen, hmark]
      rfl
    refine ⟨_, by rw [openLines, List.nil_append, joinFrom_open hline, joinFrom], ?_⟩
    have hpart : trimStart (trimEnd (b.indent.text ++ b.piece.text.dropLast)) =
        trimEnd b.piece.text.dropLast := by
      rw [trimStart_trimEnd, trim, trimStart_blanks_append b.indent.isBlank,
        b.piece.trimStart_dropLast]
    rw [joined, hpart, Piece.joinAll_cons, Piece.joinAll_nil, Piece.text_join,
      List.dropLast_append_of_ne_nil (List.cons_ne_nil _ _),
      List.dropLast_cons_of_ne_nil b.piece.ne_nil]
    have hblank := trimEnd_append_trimEnd (lead ++ p.text ++ [' ']) b.piece.text.dropLast
    simpa using hblank
  | cons next more ih =>
    obtain ⟨hb, hmore⟩ : b.piece.isMarked = false ∧ staysOpen (next :: more) = true := by
      simpa [staysOpen] using hstays
    rw [joinFrom_next hb]
    exact ih hmore hlast hx

/-- A line with a piece that looks like a comment falls apart, or keeps a semicolon at its end. Such
a piece closes the line, and only where it is the last one nothing is left to stand alone. -/
theorem joinFrom_apart (lead : List Char) (p : Piece) (hstays : staysOpen (b :: more) = false)
    (hx : trimEnd x = lastLine (b.indent.text ++ b.piece.text) more) :
    2 ≤ (joinFrom (some (lead ++ p.text))
        (openLines (b.indent.text ++ b.piece.text) more ++ [x])).length ∨
      (p.joinAll (b :: more)).isOpen = true ∧
        joinFrom (some (lead ++ p.text))
          (openLines (b.indent.text ++ b.piece.text) more ++ [x]) =
            [lead ++ (p.joinAll (b :: more)).text] := by
  induction more generalizing p b with
  | nil =>
    obtain ⟨hmark, hopen⟩ : b.piece.isMarked = true ∧ b.piece.isOpen = true := by
      simpa [staysOpen] using hstays
    have hline : lineContinuation x = (b.indent.text ++ b.piece.text, false) := by
      rw [lineContinuation_last b.indent.isBlank hx, hmark]
      rfl
    refine .inr ⟨by simpa using hopen, ?_⟩
    rw [openLines, List.nil_append, joinFrom_closed hline, joined_join]
    rfl
  | cons next more ih =>
    cases hb : b.piece.isMarked with
    | true =>
      refine .inl ?_
      have hrest : openLines (next.indent.text ++ next.piece.text) more ++ [x] ≠ [] := by simp
      have hpos := List.length_pos_iff.mpr (joinFrom_ne_nil none hrest)
      rw [joinFrom_marked hb, List.length_cons]
      omega
    | false =>
      have hmore : staysOpen (next :: more) = false := by simpa [staysOpen, hb] using hstays
      rw [joinFrom_next hb]
      exact ih _ hmore hx

/-- A line is joined from its pieces, whatever line is open before it: an open line takes the first
piece as its next one. -/
theorem joinFrom_broken (l : BrokenLine) (hfirst : l.first.isMarked = false)
    (hstays : staysOpen l.breaks = true) (hbody : l.body.isOpen = false)
    (hx : trimEnd x = lastLine (l.lead.text ++ l.first.text) l.breaks) :
    joinFrom whole? (openLines (l.lead.text ++ l.first.text) l.breaks ++ x :: rest) =
      (before whole? l.lead.text ++ l.body.text) :: joinFrom none rest := by
  rw [BrokenLine.body] at hbody ⊢
  cases hbreaks : l.breaks with
  | nil =>
    rw [hbreaks] at hx hbody
    have hline : lineContinuation x = (l.lead.text ++ l.first.text, false) := by
      rw [lineContinuation_last l.lead.isBlank hx, show l.first.isOpen = false from hbody]
      simp
    rw [openLines, List.nil_append, joinFrom_closed hline, joined_piece l.lead.isBlank]
    rfl
  | cons b more =>
    rw [hbreaks] at hx hbody hstays
    have hline : lineContinuation (l.lead.text ++ l.first.text ++ [' ', ';']) =
        (l.lead.text ++ l.first.text, true) := by
      rw [lineContinuation_open l.lead.isBlank, hfirst]
      rfl
    rw [openLines, List.cons_append, joinFrom_open hline, joined_piece l.lead.isBlank,
      joinFrom_complete hstays hbody hx]

/-- Lines that are joined alike behind every text may be exchanged at the end of a body. What stands
in front of them decides only which text they are joined to. -/
theorem joinFrom_append_congr {xs ys : List (List Char)}
    (h : ∀ whole?, joinFrom whole? xs = joinFrom whole? ys) (whole? : Option (List Char))
    (front : List (List Char)) : joinFrom whole? (front ++ xs) = joinFrom whole? (front ++ ys) := by
  induction front generalizing whole? with
  | nil => exact h whole?
  | cons l front ih =>
    rcases hl : lineContinuation l with ⟨part, _ | _⟩
    · rw [List.cons_append, List.cons_append, joinFrom_closed hl, joinFrom_closed hl, ih]
    · rw [List.cons_append, List.cons_append, joinFrom_open hl, joinFrom_open hl, ih]

end

namespace BrokenLine

variable (l : BrokenLine)

/-- The first line of a broken line has no line feed. -/
theorem newline_not_mem_front : '\n' ∉ l.lead.text ++ l.first.text := by
  rw [List.mem_append, not_or]
  exact ⟨l.lead.noBreak, l.first.noBreak⟩

/-- The last line is made from an indent and a piece as well, which is that of the last break if
there is one. -/
theorem exists_lastLine (blanks : Gap) (p : Piece) (breaks : List Break) :
    ∃ (gap : Gap) (q : Piece), lastLine (blanks.text ++ p.text) breaks = gap.text ++ q.text := by
  induction breaks generalizing blanks p with
  | nil => exact ⟨blanks, p, rfl⟩
  | cons b more ih => exact ih b.indent b.piece

/-- The line that it is when it is not broken. -/
def unbroken : BrokenLine := { l with first := l.body, breaks := [] }

/-- A broken line without its breaks is the whole line: the statements about broken lines hold for
whole ones as the case without breaks. -/
theorem broken_unbroken : l.unbroken.broken = l.whole := by
  simp [broken, unbroken, whole]

/-- Both have the same pieces joined to one. -/
@[simp] theorem body_unbroken : l.unbroken.body = l.body := rfl

@[simp] theorem isMarked_body : l.body.isMarked = l.first.isMarked :=
  l.first.isMarked_joinAll l.breaks

/-- The characters of a broken line, part by part. -/
theorem toList_broken (rest : List Char) : l.broken.toList ++ rest =
    l.lead.text ++ l.first.text ++ (l.breaks.flatMap fun b => b.text ++ b.piece.text) ++
      (l.tail.text ++ rest) := by
  simp [broken]

/-- The lines of a broken line, alone and in front of others. They differ in the last line only,
from which a carriage return is taken where more lines follow. -/
theorem exists_lines_broken (after : List Char) :
    ∃ x y, trimEnd x = lastLine (l.lead.text ++ l.first.text) l.breaks ∧
      trimEnd y = lastLine (l.lead.text ++ l.first.text) l.breaks ∧
      lines l.broken.toList = openLines (l.lead.text ++ l.first.text) l.breaks ++ [x] ∧
      lines (l.broken.toList ++ '\n' :: after) =
        openLines (l.lead.text ++ l.first.text) l.breaks ++ y :: lines after := by
  obtain ⟨gap, q, hlast⟩ := exists_lastLine l.lead l.first l.breaks
  have hbreak : '\n' ∉ gap.text ++ q.text ++ l.tail.text := by
    simp only [List.mem_append, not_or]
    exact ⟨⟨gap.noBreak, q.noBreak⟩, l.tail.noBreak⟩
  have htrim : trimEnd (gap.text ++ q.text ++ l.tail.text) = gap.text ++ q.text := by
    rw [trimEnd_append_blanks l.tail.isBlank, q.trimEnd_append]
  refine ⟨gap.text ++ q.text ++ l.tail.text, chomp (gap.text ++ q.text ++ l.tail.text),
    htrim.trans hlast.symm, (trimEnd_chomp _).trans (htrim.trans hlast.symm), ?_, ?_⟩
  · have htext := l.toList_broken []
    rw [List.append_nil, List.append_nil] at htext
    rw [htext, lines_broken l.newline_not_mem_front, hlast, lines_of_not_mem hbreak,
      if_neg (by simp [q.ne_nil])]
  · rw [toList_broken, lines_broken l.newline_not_mem_front, hlast, ← List.append_assoc,
      lines_append_newline hbreak]

/-- The logical lines of a body with a line in it, that is broken or whole. -/
theorem joinFrom_lines_broken (hfirst : l.first.isMarked = false)
    (hstays : staysOpen l.breaks = true) (hbody : l.body.isOpen = false)
    (whole? : Option (List Char)) (after : List Char) :
    joinFrom whole? (lines (l.broken.toList ++ '\n' :: after)) =
      (before whole? l.lead.text ++ l.body.text) :: joinFrom none (lines after) := by
  obtain ⟨x, y, -, hy, -, hlines⟩ := l.exists_lines_broken after
  rw [hlines, joinFrom_broken l hfirst hstays hbody hy]

/-- A whole line that does not end in a semicolon is one logical line, joined to the text before it
if there is one. -/
theorem joinFrom_lines_whole (hfirst : l.first.isMarked = false) (hbody : l.body.isOpen = false)
    (whole? : Option (List Char)) (after : List Char) :
    joinFrom whole? (lines (l.whole.toList ++ '\n' :: after)) =
      (before whole? l.lead.text ++ l.body.text) :: joinFrom none (lines after) := by
  rw [← broken_unbroken]
  exact l.unbroken.joinFrom_lines_broken ((isMarked_body l).trans hfirst) rfl hbody whole? after

/-- A body that is nothing but a whole line has one logical line, and a semicolon at its end is
dropped with the blanks before it. -/
theorem logicalLines_whole (hfirst : l.first.isMarked = false) : logicalLines l.whole =
    [if l.body.isOpen then trimEnd (l.lead.text ++ l.body.text.dropLast)
      else l.lead.text ++ l.body.text] := by
  obtain ⟨x, -, hx, -, hlines, -⟩ := l.unbroken.exists_lines_broken []
  have hmark : l.body.isMarked = false := (isMarked_body l).trans hfirst
  rw [logicalLines, ← broken_unbroken, hlines]
  show joinFrom none [x] = _
  have hline := lineContinuation_last l.lead.isBlank (p := l.body) hx
  rw [hmark] at hline
  cases hopen : l.body.isOpen with
  | true =>
    rw [hopen] at hline
    rw [joinFrom_open hline]
    rfl
  | false =>
    rw [hopen] at hline
    rw [joinFrom_closed hline]
    rfl

/-- Where there is a break, the lines behind it are joined to the first piece. -/
theorem exists_logicalLines_broken {b : Break} {more : List Break} (hbreaks : l.breaks = b :: more)
    (hfirst : l.first.isMarked = false) :
    ∃ x, trimEnd x = lastLine (b.indent.text ++ b.piece.text) more ∧
      logicalLines l.broken = joinFrom (some (l.lead.text ++ l.first.text))
        (openLines (b.indent.text ++ b.piece.text) more ++ [x]) := by
  obtain ⟨x, -, hx, -, hlines, -⟩ := l.exists_lines_broken []
  rw [hbreaks] at hx hlines
  have hline : lineContinuation (l.lead.text ++ l.first.text ++ [' ', ';']) =
      (l.lead.text ++ l.first.text, true) := by
    rw [lineContinuation_open l.lead.isBlank, hfirst]
    rfl
  refine ⟨x, hx, ?_⟩
  rw [logicalLines, hlines]
  exact joinFrom_open hline

/-- A piece that is taken for a comment leaves more than one line, or a semicolon. Either can be
seen in the lines without their blanks at the end, by their number or by their length. -/
theorem trimEnd_logicalLines_ne (hfirst : l.first.isMarked = false)
    (hstays : staysOpen l.breaks = false) :
    (logicalLines l.broken).map trimEnd ≠ (logicalLines l.whole).map trimEnd := by
  intro heq
  obtain ⟨b, more, hbreaks⟩ : ∃ b more, l.breaks = b :: more := by
    cases hbreaks : l.breaks with
    | nil =>
      rw [hbreaks] at hstays
      cases hstays
    | cons b more => exact ⟨b, more, rfl⟩
  obtain ⟨x, hx, hbroken⟩ := l.exists_logicalLines_broken hbreaks hfirst
  rw [hbreaks] at hstays
  have hbody : l.body = l.first.joinAll (b :: more) := by rw [body, hbreaks]
  rw [hbroken, l.logicalLines_whole hfirst, hbody] at heq
  rcases joinFrom_apart l.lead.text l.first hstays hx with htwo | ⟨hopen, hjoin⟩
  · have hlengths := congrArg List.length heq
    simp only [List.length_map, List.length_singleton] at hlengths
    omega
  · rw [hjoin, hopen] at heq
    have hshort := congrArg List.length (List.singleton_inj.mp heq)
    have hle := length_trimEnd_le (l.lead.text ++ (l.first.joinAll (b :: more)).text.dropLast)
    have hle' := length_trimEnd_le
      (trimEnd (l.lead.text ++ (l.first.joinAll (b :: more)).text.dropLast))
    have hpos := List.length_pos_iff.mpr (l.first.joinAll (b :: more)).ne_nil
    rw [Piece.trimEnd_append, if_pos rfl] at hshort
    simp only [List.length_append, List.length_dropLast] at hshort hle
    omega

/-- The logical lines of a broken line are those of the whole, but for blanks, exactly when all
pieces belong to the line. -/
theorem trimEnd_logicalLines_iff (hfirst : l.first.isMarked = false) :
    (logicalLines l.broken).map trimEnd = (logicalLines l.whole).map trimEnd ↔
      staysOpen l.breaks = true := by
  cases hstays : staysOpen l.breaks with
  | false => exact iff_of_false (l.trimEnd_logicalLines_ne hfirst hstays) (by decide)
  | true =>
    refine iff_of_true ?_ rfl
    cases hbreaks : l.breaks with
    | nil =>
      have hsame : l.broken = l.whole := by simp [broken, whole, body, hbreaks]
      rw [hsame]
    | cons b more =>
      obtain ⟨x, hx, hbroken⟩ := l.exists_logicalLines_broken hbreaks hfirst
      rw [hbreaks] at hstays
      have hbody : l.body = l.first.joinAll (b :: more) := by rw [body, hbreaks]
      rw [hbroken, l.logicalLines_whole hfirst, hbody]
      cases hopen : (l.first.joinAll (b :: more)).isOpen with
      | true =>
        obtain ⟨whole, hjoin, htrim⟩ := joinFrom_semicolon l.lead.text hstays hopen hx
        rw [hjoin, List.map_singleton, htrim]
        simp [trimEnd, dropEndWhile_idem]
      | false =>
        rw [joinFrom_complete hstays hopen hx]
        rfl

end BrokenLine

/-! ## Translating broken lines -/

/-- Blanks at the end of a raw line leave no trace in what is written for it. -/
theorem writeLine_trimEnd (ctx : Context) (raw : List Char) (o : Output) (line : Line) :
    writeLine ctx (trimEnd raw) o line = writeLine ctx raw o line := by
  unfold writeLine writeLine.passThrough
  rw [trim_trimEnd]

/-- So a line is translated the same with and without them. -/
theorem translateLine_trimEnd (ctx : Context) (o : Output) (raw : List Char) :
    translateLine ctx o (trimEnd raw) = translateLine ctx o raw := by
  unfold translateLine
  simp only [trim_trimEnd, writeLine_trimEnd]

/-- Bodies with the same logical lines, up to blanks at their ends, have the same translation. This
is why it suffices to compare logical lines. -/
theorem translate_congr (ctx : Context) {body body' : String}
    (h : (logicalLines body).map trimEnd = (logicalLines body').map trimEnd) :
    translate ctx body = translate ctx body' := by
  have hfold : ∀ lines : List (List Char), lines.foldl (translateLine ctx) {} =
      (lines.map trimEnd).foldl (translateLine ctx) {} := by
    intro lines
    rw [List.foldl_map]
    simp only [translateLine_trimEnd]
  rw [translate, translate, translatedLines, translatedLines, hfold, h, ← hfold]

/-- A broken line is joined again, and so translated as the line that was broken, exactly when each
piece that looks like a comment is the last and does not end with a semicolon. A line that is
complete may then stand anywhere in a body. -/
theorem broken_line_iff (ctx : Context) (l : BrokenLine) (hfirst : l.first.isMarked = false) :
    ((logicalLines l.broken).map trimEnd = (logicalLines l.whole).map trimEnd ↔
      staysOpen l.breaks = true) ∧
    (staysOpen l.breaks = true → translate ctx l.broken = translate ctx l.whole ∧
      (l.body.isOpen = false → ∀ before after : String,
        translate ctx (before ++ "\n" ++ l.broken ++ "\n" ++ after) =
          translate ctx (before ++ "\n" ++ l.whole ++ "\n" ++ after))) := by
  refine ⟨l.trimEnd_logicalLines_iff hfirst, fun hstays => ⟨?_, fun hbody before after => ?_⟩⟩
  · exact translate_congr ctx ((l.trimEnd_logicalLines_iff hfirst).mpr hstays)
  · refine translate_congr ctx (congrArg _ ?_)
    have hlines : ∀ text : String, (before ++ "\n" ++ text ++ "\n" ++ after).toList =
        before.toList ++ '\n' :: (text.toList ++ '\n' :: after.toList) := by
      simp
    rw [logicalLines, logicalLines, hlines, hlines,
      lines_append_append _ (l.broken.toList ++ _), lines_append_append _ (l.whole.toList ++ _)]
    refine joinFrom_append_congr (fun whole? => ?_) none _
    rw [l.joinFrom_lines_broken hfirst hstays hbody, l.joinFrom_lines_whole hfirst hbody]

/-- An indented sum over three lines, whose last piece looks like a comment. -/
def brokenSum : BrokenLine where
  lead := { text := [' ', ' '], isBlank := List.all_eq_true.mp (by decide), noBreak := by decide }
  first :=
    { text := "x = 1".toList, begins := ⟨'x', rfl, rfl⟩, ends := ⟨'1', rfl, rfl⟩
      noBreak := by decide }
  breaks :=
    [{ carriage := true
       indent := { text := ['\t'], isBlank := List.all_eq_true.mp (by decide), noBreak := by decide }
       piece :=
         { text := "+ 2".toList, begins := ⟨'+', rfl, rfl⟩, ends := ⟨'2', rfl, rfl⟩
           noBreak := by decide } },
     { carriage := false
       indent := { text := [], isBlank := List.all_eq_true.mp (by decide), noBreak := by decide }
       piece :=
         { text := "* 3".toList, begins := ⟨'*', rfl, rfl⟩, ends := ⟨'3', rfl, rfl⟩
           noBreak := by decide } }]
  tail := { text := [' '], isBlank := List.all_eq_true.mp (by decide), noBreak := by decide }

/-- A sum over three lines, with a carriage return and a piece that looks like a comment. -/
theorem broken_line_sum :
    brokenSum.broken = "  x = 1 ;\r\n\t+ 2 ;\n* 3 " ∧ brokenSum.whole = "  x = 1 + 2 * 3 " ∧
    brokenSum.first.isMarked = false ∧ staysOpen brokenSum.breaks = true ∧
    translate { target := .qt } brokenSum.broken = translate { target := .qt } brokenSum.whole ∧
    ∀ before after : String,
      translate { target := .html } (before ++ "\n" ++ brokenSum.broken ++ "\n" ++ after) =
        translate { target := .html } (before ++ "\n" ++ brokenSum.whole ++ "\n" ++ after) := by
  have hfirst : brokenSum.first.isMarked = false := by decide +kernel
  have hstays : staysOpen brokenSum.breaks = true := by decide +kernel
  refine ⟨by decide +kernel, by decide +kernel, hfirst, hstays, ?_, ?_⟩
  · exact ((broken_line_iff { target := .qt } brokenSum hfirst).2 hstays).1
  · exact ((broken_line_iff { target := .html } brokenSum hfirst).2 hstays).2 (by decide +kernel)

/-- A product and a sum over three lines. -/
def brokenProduct : BrokenLine where
  lead := { text := [], isBlank := List.all_eq_true.mp (by decide), noBreak := by decide }
  first :=
    { text := "x = 2".toList, begins := ⟨'x', rfl, rfl⟩, ends := ⟨'2', rfl, rfl⟩
      noBreak := by decide }
  breaks :=
    [{ carriage := false
       indent := { text := [], isBlank := List.all_eq_true.mp (by decide), noBreak := by decide }
       piece :=
         { text := "* 3".toList, begins := ⟨'*', rfl, rfl⟩, ends := ⟨'3', rfl, rfl⟩
           noBreak := by decide } },
     { carriage := false
       indent := { text := [], isBlank := List.all_eq_true.mp (by decide), noBreak := by decide }
       piece :=
         { text := "+ 4".toList, begins := ⟨'+', rfl, rfl⟩, ends := ⟨'4', rfl, rfl⟩
           noBreak := by decide } }]
  tail := { text := [], isBlank := List.all_eq_true.mp (by decide), noBreak := by decide }

/-- The product ends the line, its semicolon stays, and the sum becomes a statement of its own. -/
theorem broken_product_apart :
    brokenProduct.broken = "x = 2 ;\n* 3 ;\n+ 4" ∧ brokenProduct.whole = "x = 2 * 3 + 4" ∧
    translate { target := .tkinter } brokenProduct.broken = "x = 2 * 3 ;\n+ 4" ∧
    translate { target := .tkinter } brokenProduct.whole = "x = 2 * 3 + 4" := by
  decide +kernel

end ScreenForms.Code
