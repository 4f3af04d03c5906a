import ScreenForms.Code.Translate
import ScreenForms.Proofs.LineBreaks

/-!
# Writing into blocks

What the steps of the translation do to the output, seen from a point before a block: the lines
that were added since, moved to the depth of that point, and the frames that were opened since.
`Output.after` is the output behind a run of complete statements and blocks, `Output.within` the
output inside an open block.
-/

namespace ScreenForms.Code

/-! ## Lines of blocks -/

theorem indented_zero (text : String) : indented 0 text = text := by
  simp [indented]

theorem map_indented_zero (lines : List String) : lines.map (indented 0) = lines := by
  rw [List.map_congr_left fun l _ => indented_zero l]
  exact List.map_id lines

theorem indented_succ (depth : Nat) (text : String) :
    indented (depth + 1) text = indented depth (indented 1 text) := by
  unfold indented
  rw [← String.append_assoc, ← String.ofList_append, List.replicate_append_replicate]
  rfl

/-- Lines moved one level to the right. -/
def deeper (lines : List String) : List String := lines.map (indented 1)

theorem map_indented_deeper (depth : Nat) (lines : List String) :
    (deeper lines).map (indented depth) = lines.map (indented (depth + 1)) := by
  rw [deeper, List.map_map]
  exact List.map_congr_left fun l _ => (indented_succ depth l).symm

/-- The statement that does nothing, where a block needs one. -/
def filler (target : Target) (hasCode : Bool) : List String :=
  if (idiom target).braces || hasCode then [] else ["pass"]

/-- The line that closes a block, where blocks have one. -/
def closing (target : Target) : List String := if (idiom target).braces then ["\x7d"] else []

namespace Output

/-- Marks the innermost of some frames as having a statement. -/
def mark : List Frame → List Frame := updateTop fun f => { f with hasBody := true }

@[simp] theorem mark_mark (frames : List Frame) : mark (mark frames) = mark frames := by
  cases frames <;> rfl

variable (target : Target) (o : Output)

/-- The output behind complete lines, of which some may be statements. -/
def after (lines : List String) (hasCode : Bool) : Output :=
  { o with
    lines := o.lines ++ lines.map (indented o.depth)
    frames := if hasCode then mark o.frames else o.frames }

/-- The output inside a block that was opened over some frames. -/
def within (outer : List Frame) (frame : Frame) (lines : List String) : Output :=
  { lines := o.lines ++ lines.map (indented o.depth)
    frames := frame :: outer
    depth := o.depth + 1 }

theorem after_nil : o.after [] false = o := by
  simp [after]

theorem after_after (xs ys : List String) (a b : Bool) :
    (o.after xs a).after ys b = o.after (xs ++ ys) (a || b) := by
  cases a <;> cases b <;> simp [after]

theorem write_eq_after (text : String) : o.write text = o.after [text] true := rfl

theorem comment_eq_after (text : List Char) :
    o.comment target text = o.after [commentText target text] false := rfl

variable {outer : List Frame} {frame : Frame} {lines : List String}

theorem within_after (ys : List String) (b : Bool) :
    (o.within outer frame lines).after ys b =
      o.within outer { frame with hasBody := frame.hasBody || b } (lines ++ deeper ys) := by
  have hlines : (o.lines ++ lines.map (indented o.depth)) ++ ys.map (indented (o.depth + 1)) =
      o.lines ++ (lines ++ deeper ys).map (indented o.depth) := by
    rw [List.map_append, map_indented_deeper, List.append_assoc]
  cases b with
  | false => simp [after, within, hlines]
  | true => simp [after, within, hlines, mark, updateTop]

theorem fillEmpty_within :
    (o.within outer frame lines).fillEmpty target =
      o.within outer frame (lines ++ deeper (filler target frame.hasBody)) := by
  unfold fillEmpty filler
  rcases (idiom target).braces with _ | _
  · rcases hbody : frame.hasBody with _ | _
    · simp [within, writeAt, hbody, deeper, ← indented_succ]
    · simp [within, hbody, deeper]
  · simp [deeper]

/-- Going on with another branch of a block. -/
theorem branch_within (header : String) :
    (o.within outer frame lines).branch target header =
      o.within outer { frame with hasBody := false }
        (lines ++ deeper (filler target frame.hasBody) ++ [header]) := by
  unfold branch
  rw [fillEmpty_within]
  simp [within, writeAt, updateTop]

/-- Closing a block. -/
theorem close_within (h : frame.kind ≠ .choice ∨ frame.opened = true) :
    (o.within outer frame lines).close target =
      { o with
        lines := o.lines ++
          (lines ++ deeper (filler target frame.hasBody) ++ closing target).map (indented o.depth)
        frames := mark outer } := by
  unfold close
  rw [fillEmpty_within]
  have hkeep : ¬ (frame.kind = .choice ∧ (!frame.opened) = true) := by
    rintro ⟨hkind, hopened⟩
    rcases h with h | h
    · exact h hkind
    · rw [h] at hopened
      cases hopened
  simp only [within, if_neg hkeep, Nat.add_sub_cancel]
  unfold closing
  rcases (idiom target).braces with _ | _
  · simp [mark]
  · simp [writeAt, mark]

end Output

end ScreenForms.Code
