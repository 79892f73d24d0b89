import RowTemplate.Proofs.AppendOnly

/-! Writing a text line by line. The lines of a text are its pieces between newlines, less the
carriage returns before these and less an empty piece at the end. Each line is written between two
line breaks at the level of the buffer, so the buffer ends the line under way, finishes the lines
with contents in order, and is at the same level after them. -/

namespace RowTemplate

/-! ### The lines of a text -/

/-- A piece of a text without the carriage return at its end, if it has one. -/
def withoutReturn (piece : List Char) : List Char :=
  if piece.getLast? = some '\r' then piece.dropLast else piece

/-- The lines of pieces with newlines between them. A carriage return right before a newline is no
part of a line, and there is no line after the last newline if nothing follows it. -/
def linesOfPieces : List (List Char) → List (List Char)
  | [] => []
  | [last] => if last = [] then [] else [last]
  | piece :: next :: pieces => withoutReturn piece :: linesOfPieces (next :: pieces)

theorem withoutReturn_cons (c d : Char) (piece : List Char) :
    withoutReturn (c :: d :: piece) = c :: withoutReturn (d :: piece) := by
  rw [withoutReturn, withoutReturn, List.getLast?_cons_cons, List.dropLast_cons_cons]
  split <;> rfl

/-- A character that is no line end, nor the start of one, is the first of its line. -/
theorem lines_cons {c : Char} {cs : List Char} (hc : c ≠ '\n')
    (hreturn : ∀ rest, c = '\r' → cs ≠ '\n' :: rest) :
    lines (c :: cs) = match lines cs with
      | [] => [[c]]
      | line :: rest => (c :: line) :: rest :=
  lines.eq_4 c cs hc hreturn

/-- A newline ends a line, with the carriage return before it. -/
theorem lines_append_newline {piece : List Char} (h : '\n' ∉ piece) (rest : List Char) :
    lines (piece ++ '\n' :: rest) = withoutReturn piece :: lines rest := by
  induction piece with
  | nil => exact lines.eq_2 rest
  | cons c piece ih =>
      have hc : c ≠ '\n' := (List.ne_of_not_mem_cons h).symm
      have hpiece : '\n' ∉ piece := List.not_mem_of_not_mem_cons h
      cases piece with
      | nil =>
          by_cases hreturn : c = '\r'
          · subst hreturn
            exact lines.eq_3 rest
          · rw [List.singleton_append, lines_cons hc (fun _ h => absurd h hreturn), lines.eq_2,
              withoutReturn, if_neg (by simpa using hreturn)]
      | cons d piece =>
          have hd : d ≠ '\n' := (List.ne_of_not_mem_cons hpiece).symm
          have hnext : ∀ rest', c = '\r' → d :: piece ++ '\n' :: rest ≠ '\n' :: rest' :=
            fun _ _ heq => hd (List.cons.inj heq).1
          rw [List.cons_append, lines_cons hc hnext, ih hpiece, withoutReturn_cons]

/-- What follows the last newline is a line as it is. -/
theorem lines_of_not_mem {piece : List Char} (h : '\n' ∉ piece) :
    lines piece = if piece = [] then [] else [piece] := by
  induction piece with
  | nil => rfl
  | cons c piece ih =>
      have hc : c ≠ '\n' := (List.ne_of_not_mem_cons h).symm
      have hpiece : '\n' ∉ piece := List.not_mem_of_not_mem_cons h
      have hnext : ∀ rest, c = '\r' → piece ≠ '\n' :: rest :=
        fun _ _ heq => hpiece (heq ▸ List.mem_cons_self)
      rw [lines_cons hc hnext, ih hpiece, if_neg (List.cons_ne_nil c piece)]
      cases piece with
      | nil => rfl
      | cons d piece => rfl

theorem lines_eq_linesOfPieces (text : List Char) :
    lines text = linesOfPieces (text.splitOn '\n') := by
  by_cases h : '\n' ∈ text
  · obtain ⟨piece, rest, rfl, hpiece⟩ := List.eq_append_cons_of_mem h
    rw [lines_append_newline hpiece, List.splitOn_append_cons_self_of_not_mem hpiece,
      lines_eq_linesOfPieces rest]
    cases hpieces : rest.splitOn '\n' with
    | nil => exact absurd hpieces (List.splitOn_ne_nil _ _)
    | cons next pieces => rfl
  · rw [lines_of_not_mem h, List.splitOn_eq_singleton h]
    rfl
termination_by text.length

theorem lines_eq_nil_iff {text : List Char} : lines text = [] ↔ text = [] := by
  refine ⟨fun h => ?_, fun h => by rw [h, lines]⟩
  rw [lines.eq_def] at h
  split at h
  case h_1 => rfl
  case h_2 => cases h
  case h_3 => cases h
  case h_4 => split at h <;> cases h

theorem linesOf_eq_nil_iff {text : String} : linesOf text = [] ↔ text = "" := by
  rw [linesOf, List.map_eq_nil_iff, lines_eq_nil_iff, String.toList_eq_nil_iff]

namespace LineBuffer

/-! ### Writing the lines -/

theorem filled_cons (line : Line) (lines : List Line) :
    filled (line :: lines) = filled [line] ++ filled lines := by
  rw [filled, ← List.singleton_append, List.filter_append]
  rfl

theorem current_breakLine (buffer : LineBuffer) :
    buffer.breakLine.current = ⟨buffer.level, ""⟩ := by
  rw [← level_breakLine buffer, ← contents_breakLine buffer]
  rfl

theorem finished_breakLine (buffer : LineBuffer) :
    buffer.breakLine.finished.toList = buffer.finished.toList ++ filled [buffer.current] := by
  cases hempty : buffer.current.contents.isEmpty <;> simp [breakLine, filled, hempty]

theorem breakLine_appendLine (buffer : LineBuffer) (text : String) :
    (buffer.appendLine text).breakLine = buffer.appendLine text :=
  breakLine_breakLine (buffer.breakLine.append text)

theorem level_appendLine (buffer : LineBuffer) (text : String) :
    (buffer.appendLine text).level = buffer.level :=
  level_perform buffer (.appendLine text)

theorem width_appendLine (buffer : LineBuffer) (text : String) :
    (buffer.appendLine text).width = buffer.width := by
  rw [appendLine, width_breakLine]
  exact width_breakLine buffer

/-- A line of its own is finished at the level of the buffer, after the line under way. -/
theorem finished_appendLine (buffer : LineBuffer) (text : String) :
    (buffer.appendLine text).finished.toList =
      buffer.breakLine.finished.toList ++ filled [⟨buffer.level, text⟩] := by
  rw [appendLine, finished_breakLine, append, current_breakLine, String.empty_append]

/-- Texts written one after the other, each as a line of its own. The finished lines are those after a
line break, since the buffer at the beginning may have a line under way. -/
theorem finished_foldl_appendLine (texts : List String) : ∀ buffer : LineBuffer,
    (texts.foldl appendLine buffer).breakLine.finished.toList =
        buffer.breakLine.finished.toList ++ filled (texts.map (Line.mk buffer.level)) ∧
      (texts.foldl appendLine buffer).level = buffer.level ∧
      (texts.foldl appendLine buffer).width = buffer.width := by
  induction texts with
  | nil => exact fun buffer => ⟨(List.append_nil _).symm, rfl, rfl⟩
  | cons text texts ih =>
      intro buffer
      obtain ⟨hfinished, hlevel, hwidth⟩ := ih (buffer.appendLine text)
      rw [breakLine_appendLine, finished_appendLine, level_appendLine, List.append_assoc,
        ← filled_cons] at hfinished
      rw [level_appendLine] at hlevel
      rw [width_appendLine] at hwidth
      exact ⟨hfinished, hlevel, hwidth⟩

theorem breakLine_foldl_appendLine {texts : List String} (h : texts ≠ []) (buffer : LineBuffer) :
    (texts.foldl appendLine buffer).breakLine = texts.foldl appendLine buffer := by
  rcases List.eq_nil_or_concat texts with hnil | ⟨before, last, rfl⟩
  · exact absurd hnil h
  · rw [List.concat_eq_append, List.foldl_append]
    exact breakLine_appendLine _ last

theorem levelAfter_replicate_unindent (n : Nat) : ∀ level : Nat,
    (List.replicate n Step.unindent).foldl Step.levelAfter level = level - n := by
  induction n with
  | zero => exact fun level => rfl
  | succ n ih =>
      intro level
      rw [List.replicate_succ, List.foldl_cons, ih, Step.levelAfter]
      omega

theorem textOfLines_appendLines (buffer : LineBuffer) (text : String) :
    (buffer.appendLines text).text =
      buffer.text ++ textOfLines buffer.width ((linesOf text).map (Line.mk buffer.level)) := by
  obtain ⟨hfinished, _, hwidth⟩ := finished_foldl_appendLine (linesOf text) buffer
  calc (buffer.appendLines text).text
      = (buffer.appendLines text).breakLine.finishedText := by
        rw [← text_breakLine, text_of_no_contents (contents_breakLine _)]
    _ = buffer.breakLine.finishedText ++
          textOfLines buffer.width ((linesOf text).map (Line.mk buffer.level)) := by
        rw [finishedText, appendLines, hfinished, width_breakLine, hwidth, List.map_append,
          String.join_append, finishedText, width_breakLine]
        rfl
    _ = buffer.text ++ textOfLines buffer.width ((linesOf text).map (Line.mk buffer.level)) := by
        rw [← text_of_no_contents (contents_breakLine buffer), text_breakLine]

/-- **Lines are only ever added.** A text is written as its pieces between newlines, less carriage
returns before newlines and an empty last piece. The text of the buffer is the text before followed
by the lines with contents, in order and at the level of the buffer, with all the spaces of that level
if their number fits 64 bits. The level stays: as many steps to the left as it counts lead to level 0,
and no fewer. A text with a line at all, the empty one included, ends the line under way, which is
finished as it was; the empty text changes nothing. -/
theorem text_appendLines (buffer : LineBuffer) (text : String) :
    linesOf text = (linesOfPieces (text.toList.splitOn '\n')).map String.ofList ∧
      (buffer.appendLines text).text =
        buffer.text ++ textOfLines buffer.width ((linesOf text).map (Line.mk buffer.level)) ∧
      (buffer.level * buffer.width < 2 ^ 64 →
        (buffer.appendLines text).text =
          buffer.text ++ setOutLines buffer.width ((linesOf text).map (Line.mk buffer.level))) ∧
      (buffer.appendLines text).level = buffer.level ∧
      (∀ n, ((buffer.appendLines text).performAll (List.replicate n .unindent)).2.level =
        buffer.level - n) ∧
      (text ≠ "" → (buffer.appendLines text).current = ⟨buffer.level, ""⟩ ∧
        (buffer.appendLines text).finished.toList = buffer.finished.toList ++
          filled (buffer.current :: (linesOf text).map (Line.mk buffer.level))) ∧
      buffer.appendLines "" = buffer := by
  obtain ⟨hfinished, hlevel, _⟩ := finished_foldl_appendLine (linesOf text) buffer
  have htext := textOfLines_appendLines buffer text
  refine ⟨by rw [linesOf, lines_eq_linesOfPieces], htext, fun hfits => ?_, hlevel, fun n => ?_,
    fun hne => ?_, rfl⟩
  · rw [htext, textOfLines_eq_setOutLines]
    intro line hline
    obtain ⟨contents, _, rfl⟩ := List.mem_map.1 (mem_filled_iff.1 hline).1
    exact hfits
  · rw [level_performAll, levelAfter_replicate_unindent]
    exact congrArg (· - n) hlevel
  · have hlines : linesOf text ≠ [] := fun h => hne (linesOf_eq_nil_iff.1 h)
    have hbroken : (buffer.appendLines text).breakLine = buffer.appendLines text :=
      breakLine_foldl_appendLine hlines buffer
    rw [← hbroken, current_breakLine, filled_cons, ← List.append_assoc, ← finished_breakLine]
    exact ⟨congrArg (Line.mk · "") hlevel, hfinished⟩

theorem text_appendLines_pending :
    let buffer := ((empty 2).performAll [.indent, .append "a"]).2
    let after := buffer.appendLines "b\r\n\nc\r"
    "b\r\n\nc\r" ≠ "" ∧ linesOf "b\r\n\nc\r" = ["b", "", "c\r"] ∧
      buffer.level * buffer.width < 2 ^ 64 ∧
      after.text = "  a\n  b\n  c\r\n" ∧ after.current = ⟨1, ""⟩ ∧
      after.finished.toList = [⟨1, "a"⟩, ⟨1, "b"⟩, ⟨1, "c\r"⟩] := by
  intro buffer after
  have hne : "b\r\n\nc\r" ≠ "" := by decide
  have hlines : linesOf "b\r\n\nc\r" = ["b", "", "c\r"] := by cbv
  have hfits : buffer.level * buffer.width < 2 ^ 64 := by decide
  obtain ⟨_, _, htext, _, _, hstate, _⟩ := text_appendLines buffer "b\r\n\nc\r"
  obtain ⟨hcurrent, hfinished⟩ := hstate hne
  rw [hlines] at htext hfinished
  refine ⟨hne, hlines, hfits, ?_, ?_, ?_⟩
  · rw [htext hfits]
    cbv
  · exact hcurrent
  · rw [hfinished]
    rfl

/-- Where the spaces of a level do not fit 64 bits, a line of a text starts at other columns. -/
theorem text_appendLines_wraps :
    let buffer := ((empty (2 ^ 62)).performAll [.indent, .indent, .indent, .indent]).2
    buffer.level = 4 ∧ linesOf "x" = ["x"] ∧ (buffer.appendLines "x").text = "x\n" ∧
      (buffer.appendLines "x").text ≠
        buffer.text ++ setOutLines buffer.width ((linesOf "x").map (Line.mk buffer.level)) := by
  intro buffer
  have hbuffer : buffer = ⟨2 ^ 62, #[], ⟨4, ""⟩⟩ := rfl
  have hlines : linesOf "x" = ["x"] := by cbv
  have hempty : buffer.text = "" := by rw [hbuffer]; rfl
  have htext : (buffer.appendLines "x").text = Line.text (2 ^ 62) ⟨4, "x"⟩ := by
    rw [textOfLines_appendLines, hempty, hlines, String.empty_append, hbuffer]
    exact textOfLines_singleton (2 ^ 62) ⟨4, "x"⟩
  have hwide : ¬ Line.Fits (2 ^ 62) ⟨4, "x"⟩ := by simp [Line.Fits]
  refine ⟨?_, hlines, ?_, ?_⟩
  · rw [hbuffer]
    rfl
  · rw [htext]
    decide
  · rw [htext, hempty, hlines, hbuffer, String.empty_append, List.map_singleton,
      setOutLines_singleton (by decide)]
    exact fun h => hwide (Line.text_eq_setOut_iff.1 h)

end LineBuffer

end RowTemplate
