import RowTemplate.Proofs.WritingLog

/-! What is written stays. A step that starts a line leaves the text as it is, since a line that has
its level changed is empty and an empty line under way is not shown; text that is added comes at the
end of the last line. So a later buffer keeps all that an earlier one shows: its text but for the last
newline, its finished lines, and the text of the line under way at its place and level. -/

namespace RowTemplate

namespace Line

/-- A line as it is written, without the newline that ends it. -/
def openText (width : Nat) (line : Line) : String :=
  String.ofList (List.replicate (line.columns width).toNat ' ') ++ line.contents

theorem text_eq_openText (width : Nat) (line : Line) :
    line.text width = line.openText width ++ "\n" := rfl

end Line

/-- A text without the newline at its end is the part before it. -/
theorem dropLast_append_newline (shown : String) :
    (shown ++ "\n").toList.dropLast = shown.toList := by
  rw [String.toList_append]
  exact List.dropLast_concat

namespace LineBuffer

/-! ### The text after a step -/

theorem text_of_contents {buffer : LineBuffer} (h : buffer.current.contents ≠ "") :
    buffer.text = buffer.finishedText ++ buffer.current.openText buffer.width ++ "\n" := by
  have hempty : buffer.current.contents.isEmpty = false := String.isEmpty_eq_false_iff.2 h
  rw [text_eq, textOfLines_singleton, hempty, String.append_assoc, ← Line.text_eq_openText]
  rfl

/-- A text ends in a newline unless it is empty. -/
theorem text_eq_empty_or (buffer : LineBuffer) :
    buffer.text = "" ∨ ∃ shown, buffer.text = shown ++ "\n" := by
  by_cases h : buffer.current.contents = ""
  · rw [text_of_no_contents h, finishedText]
    rcases List.eq_nil_or_concat buffer.finished.toList with hnil | ⟨before, last, hlast⟩
    · rw [hnil]
      exact Or.inl rfl
    · rw [hlast, List.concat_eq_append, List.map_append, String.join_append, List.map_singleton,
        String.join_cons, String.join_nil, String.append_empty, Line.text_eq_openText,
        ← String.append_assoc]
      exact Or.inr ⟨_, rfl⟩
  · exact Or.inr ⟨_, text_of_contents h⟩

theorem text_atLevel {buffer : LineBuffer} (h : buffer.current.contents = "") (level : Nat) :
    (buffer.atLevel level).text = buffer.text := by
  have h' : (buffer.atLevel level).current.contents = "" := h
  rw [text_of_no_contents h, text_of_no_contents h']
  rfl

theorem text_indent (buffer : LineBuffer) : buffer.indent.text = buffer.text := by
  rw [indent_eq_atLevel, text_atLevel (contents_breakLine buffer), text_breakLine]

theorem text_unindent (buffer : LineBuffer) : buffer.unindent.2.text = buffer.text := by
  rw [unindent_eq, text_atLevel (contents_breakLine buffer), text_breakLine]

theorem append_empty (buffer : LineBuffer) : buffer.append "" = buffer := by
  rw [append, String.append_empty]

/-- On a line with contents, added text comes before the newline at the end. -/
theorem text_append_of_contents {buffer : LineBuffer} (h : buffer.current.contents ≠ "")
    (added : String) :
    (buffer.append added).text =
      buffer.finishedText ++ buffer.current.openText buffer.width ++ added ++ "\n" := by
  have h' : (buffer.append added).current.contents ≠ "" :=
    fun hempty => h (String.append_eq_empty_iff.1 hempty).1
  rw [text_of_contents h']
  simp only [append, Line.openText, Line.columns, finishedText, String.append_assoc]

/-- On an empty line, added text starts at the columns of the line. -/
theorem text_append_of_no_contents {buffer : LineBuffer} (h : buffer.current.contents = "")
    {added : String} (hadded : added ≠ "") :
    (buffer.append added).text =
      buffer.text ++
        String.ofList (List.replicate (buffer.current.columns buffer.width).toNat ' ') ++ added ++
          "\n" := by
  have h' : (buffer.append added).current.contents ≠ "" :=
    fun hempty => hadded (String.append_eq_empty_iff.1 hempty).2
  rw [text_of_contents h', text_of_no_contents h]
  simp only [append, Line.openText, finishedText, h, String.empty_append, String.append_assoc]
  rfl

/-! ### What a later buffer keeps -/

/-- What an earlier buffer shows is in a later one: the text without its last newline, the finished
lines, and each line that has contents, at its place and level, with at most more text after them. -/
structure Keeps (earlier later : LineBuffer) : Prop where
  text : earlier.text.toList.dropLast <+: later.text.toList.dropLast
  finished : earlier.finished.toList <+: later.finished.toList
  line : ∀ (i : Nat) (line : Line), earlier.lines[i]? = some line → line.contents ≠ "" →
    ∃ more, later.lines[i]? = some { line with contents := line.contents ++ more }

namespace Keeps

theorem refl (buffer : LineBuffer) : buffer.Keeps buffer where
  text := List.prefix_refl _
  finished := List.prefix_refl _
  line _ line hline _ := ⟨"", by rw [hline, String.append_empty]⟩

theorem trans {first second third : LineBuffer} (h : first.Keeps second) (h' : second.Keeps third) :
    first.Keeps third where
  text := h.text.trans h'.text
  finished := h.finished.trans h'.finished
  line i line hline hcontents := by
    obtain ⟨more, hmore⟩ := h.line i line hline hcontents
    obtain ⟨more', hmore'⟩ := h'.line i _ hmore fun hempty =>
      hcontents (String.append_eq_empty_iff.1 hempty).1
    exact ⟨more ++ more', by rw [hmore', String.append_assoc]⟩

/-- More lines after those of a buffer keep them. -/
theorem of_isPrefix {earlier later : LineBuffer} (htext : later.text = earlier.text)
    (hfinished : earlier.finished.toList <+: later.finished.toList)
    (hlines : earlier.lines <+: later.lines) : earlier.Keeps later where
  text := by rw [htext]
  finished := hfinished
  line i line hline _ := by
    obtain ⟨rest, hrest⟩ := hlines
    have hlt : i < earlier.lines.length := (List.getElem?_eq_some_iff.1 hline).1
    exact ⟨"", by rw [← hrest, List.getElem?_append_left hlt, hline, String.append_empty]⟩

end Keeps

theorem getElem?_lines_eq_some_iff {buffer : LineBuffer} {i : Nat} {line : Line} :
    buffer.lines[i]? = some line ↔
      buffer.finished.toList[i]? = some line ∨ i = buffer.finished.size ∧ line = buffer.current := by
  rw [lines, List.getElem?_append, Array.length_toList]
  grind

/-- A later buffer with the finished lines of an earlier one, and what its last line shows. -/
theorem Keeps.of_finished_eq {earlier later : LineBuffer}
    (htext : earlier.text.toList.dropLast <+: later.text.toList.dropLast)
    (hfinished : later.finished = earlier.finished)
    (hcurrent : earlier.current.contents ≠ "" → ∃ more,
      later.current = { earlier.current with contents := earlier.current.contents ++ more }) :
    earlier.Keeps later where
  text := htext
  finished := by rw [hfinished]
  line i line hline hcontents := by
    rcases getElem?_lines_eq_some_iff.1 hline with hline | ⟨rfl, rfl⟩
    · refine ⟨"", getElem?_lines_eq_some_iff.2 (Or.inl ?_)⟩
      rw [hfinished, hline, String.append_empty]
    · obtain ⟨more, hmore⟩ := hcurrent hcontents
      exact ⟨more, getElem?_lines_eq_some_iff.2 (Or.inr ⟨by rw [hfinished], hmore.symm⟩)⟩

theorem keeps_append (buffer : LineBuffer) (added : String) : buffer.Keeps (buffer.append added) := by
  refine .of_finished_eq ?_ rfl fun _ => ⟨added, rfl⟩
  by_cases hadded : added = ""
  · rw [hadded, append_empty]
  · by_cases h : buffer.current.contents = ""
    · rw [text_append_of_no_contents h hadded, dropLast_append_newline, String.append_assoc]
      exact (List.dropLast_prefix _).trans ⟨_, String.toList_append.symm⟩
    · rw [text_append_of_contents h, text_of_contents h, dropLast_append_newline,
        dropLast_append_newline]
      exact ⟨added.toList, String.toList_append.symm⟩

theorem keeps_atLevel {buffer : LineBuffer} (h : buffer.current.contents = "") (level : Nat) :
    buffer.Keeps (buffer.atLevel level) :=
  .of_finished_eq (by rw [text_atLevel h]) rfl fun hcontents => absurd h hcontents

theorem keeps_breakLine (buffer : LineBuffer) : buffer.Keeps buffer.breakLine := by
  by_cases h : buffer.current.contents.isEmpty
  · rw [breakLine, if_pos h]
    exact .refl buffer
  · refine .of_isPrefix (text_breakLine buffer) ?_ ?_
    · rw [breakLine, if_neg h, Array.toList_push]
      exact List.prefix_append _ _
    · rw [breakLine, if_neg h, lines, lines, Array.toList_push]
      exact List.prefix_append _ _

theorem keeps_perform (buffer : LineBuffer) (step : Step) :
    buffer.Keeps (buffer.perform step).2 := by
  cases step with
  | append added => exact keeps_append buffer added
  | breakLine => exact keeps_breakLine buffer
  | appendLine added =>
      exact ((keeps_breakLine buffer).trans (keeps_append _ added)).trans (keeps_breakLine _)
  | indent =>
      change buffer.Keeps buffer.indent
      rw [indent_eq_atLevel]
      exact (keeps_breakLine buffer).trans (keeps_atLevel (contents_breakLine buffer) _)
  | unindent =>
      change buffer.Keeps buffer.unindent.2
      rw [unindent_eq]
      exact (keeps_breakLine buffer).trans (keeps_atLevel (contents_breakLine buffer) _)

theorem keeps_performAll (buffer : LineBuffer) (steps : List Step) :
    buffer.Keeps (buffer.performAll steps).2 := by
  rw [performAll_eq_runAll]
  exact runAll_invariant perform (fun later step h => h.trans (keeps_perform later step)) steps
    (.refl buffer)

/-- **Text is only ever added at its end.** Starting a line, at any level, leaves the text as it is,
also where a step to the left fails. Text that is added comes before the last newline if the line
under way has contents, and otherwise after it, behind the columns of that line, which are all the
spaces of its level if their number fits 64 bits; the empty text changes nothing. So after any steps
the text without its last newline is still there at the beginning, and every line with contents is at
its place and level, with at most more text after its contents. -/
theorem text_append_only (buffer : LineBuffer) :
    (buffer.breakLine.text = buffer.text ∧ buffer.indent.text = buffer.text ∧
        buffer.unindent.2.text = buffer.text) ∧
      (∀ added, buffer.current.contents ≠ "" → ∃ shown, buffer.text = shown ++ "\n" ∧
        (buffer.append added).text = shown ++ added ++ "\n") ∧
      (∀ added, buffer.current.contents = "" → added ≠ "" →
        (buffer.append added).text =
            buffer.text ++
              String.ofList (List.replicate (buffer.current.columns buffer.width).toNat ' ') ++
                added ++ "\n" ∧
          (buffer.level * buffer.width < 2 ^ 64 →
            (buffer.append added).text =
              buffer.text ++ String.ofList (List.replicate (buffer.level * buffer.width) ' ') ++
                added ++ "\n")) ∧
      buffer.append "" = buffer ∧
      (buffer.text = "" ∨ ∃ shown, buffer.text = shown ++ "\n") ∧
      ∀ steps, buffer.text.toList.dropLast <+: (buffer.performAll steps).2.text.toList ∧
        buffer.Keeps (buffer.performAll steps).2 := by
  refine ⟨⟨text_breakLine buffer, text_indent buffer, text_unindent buffer⟩, ?_, ?_,
    append_empty buffer, text_eq_empty_or buffer, fun steps => ?_⟩
  · exact fun added h => ⟨_, text_of_contents h, text_append_of_contents h added⟩
  · intro added h hadded
    have htext := text_append_of_no_contents h hadded
    refine ⟨htext, fun hfits => ?_⟩
    have hcurrent : buffer.current.Fits buffer.width := hfits
    rw [htext, Line.toNat_columns_of_fits hcurrent]
    rfl
  · have hkeeps := keeps_performAll buffer steps
    exact ⟨hkeeps.text.trans (List.dropLast_prefix _), hkeeps⟩

theorem text_append_only_indented :
    let buffer := ((empty 2).performAll [.append "a", .indent, .append "b"]).2
    buffer.text = "a\n  b\n" ∧ buffer.current.contents ≠ "" ∧
      (∃ shown, buffer.text = shown ++ "\n" ∧ (buffer.append "c").text = shown ++ "c" ++ "\n") ∧
      buffer.indent.current.contents = "" ∧ "c" ≠ "" ∧
      buffer.indent.level * buffer.indent.width < 2 ^ 64 ∧
      (buffer.indent.append "c").text = "a\n  b\n    c\n" ∧
      ∃ more, (buffer.performAll [.append "c", .unindent]).2.lines[1]? =
        some ⟨1, "b" ++ more⟩ := by
  intro buffer
  have htext : buffer.text = "a\n  b\n" := by cbv
  have hcontents : buffer.current.contents ≠ "" := by decide
  have hempty : buffer.indent.current.contents = "" := by cbv
  have hadded : "c" ≠ "" := by decide
  have hfits : buffer.indent.level * buffer.indent.width < 2 ^ 64 := by decide
  obtain ⟨⟨_, hindent, _⟩, hcontinue, _, _, _, hrun⟩ := text_append_only buffer
  obtain ⟨_, _, hstart, _⟩ := text_append_only buffer.indent
  refine ⟨htext, hcontents, hcontinue "c" hcontents, hempty, hadded, hfits, ?_, ?_⟩
  · rw [(hstart "c" hempty hadded).2 hfits, hindent, htext]
    cbv
  · exact (hrun [.append "c", .unindent]).2.line 1 ⟨1, "b"⟩ (by cbv) hcontents

/-- Where the spaces of a level do not fit 64 bits, text that is added starts at other columns. -/
theorem text_append_wraps :
    let buffer := ((empty (2 ^ 62)).performAll [.indent, .indent, .indent, .indent]).2
    buffer.current.contents = "" ∧ buffer.level = 4 ∧ (buffer.append "x").text = "x\n" ∧
      (buffer.append "x").text ≠
        buffer.text ++ String.ofList (List.replicate (buffer.level * buffer.width) ' ') ++ "x" ++
          "\n" := by
  intro buffer
  have hbuffer : buffer = ⟨2 ^ 62, #[], ⟨4, ""⟩⟩ := rfl
  have htext : buffer.text = "" := by rw [hbuffer]; rfl
  have hline : (buffer.append "x").text = Line.text (2 ^ 62) ⟨4, "x"⟩ := by rw [hbuffer]; rfl
  have hwide : ¬ Line.Fits (2 ^ 62) ⟨4, "x"⟩ := by simp [Line.Fits]
  refine ⟨?_, ?_, ?_, ?_⟩
  · rw [hbuffer]
  · rw [hbuffer]
    rfl
  · rw [hline]
    decide
  · rw [hline, htext, hbuffer, String.empty_append]
    exact fun h => hwide (Line.text_eq_setOut_iff.1 h)

end LineBuffer

end RowTemplate
