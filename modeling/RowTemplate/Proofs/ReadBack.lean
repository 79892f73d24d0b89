import RowTemplate.Proofs.Representation

/-! Reading a text back into lines. Every finished line has contents, so the lines that a buffer
shows are those with contents, each up to a newline. Where no contents begin with a space and the
columns of a level fit 64 bits, the spaces in front of contents are those of the level, and dividing
their number by the width gives it back. -/

namespace RowTemplate

namespace Line

/-! ### One line -/

/-- How many spaces a written line begins with. -/
def margin (written : List Char) : Nat := (written.takeWhile (· == ' ')).length

/-- The line that a written line shows, where each level is `width` columns wide. -/
def ofWritten (width : Nat) (written : List Char) : Line :=
  ⟨margin written / width, .ofList (written.dropWhile (· == ' '))⟩

theorem toList_openText (width : Nat) (line : Line) :
    (line.openText width).toList =
      List.replicate (line.columns width).toNat ' ' ++ line.contents.toList := by
  rw [openText, String.toList_append, String.toList_ofList]

/-- The spaces in front of contents that begin with something else are all that there are. -/
theorem split_at_margin {contents : List Char} (h : contents.head? ≠ some ' ') (n : Nat) :
    (List.replicate n ' ' ++ contents).takeWhile (· == ' ') = List.replicate n ' ' ∧
      (List.replicate n ' ' ++ contents).dropWhile (· == ' ') = contents := by
  have hspaces : ∀ c ∈ List.replicate n ' ', (c == ' ') = true :=
    fun c hc => beq_iff_eq.2 (List.eq_of_mem_replicate hc)
  rw [List.takeWhile_append_of_pos hspaces, List.dropWhile_append_of_pos hspaces]
  cases contents with
  | nil => exact ⟨List.append_nil _, rfl⟩
  | cons c rest =>
      have hc : ¬ (c == ' ') = true := fun heq => h (congrArg some (beq_iff_eq.1 heq))
      rw [List.takeWhile_cons_of_neg (p := (· == ' ')) hc,
        List.dropWhile_cons_of_neg (p := (· == ' ')) hc, List.append_nil]
      exact ⟨rfl, rfl⟩

theorem margin_openText {line : Line} (h : line.contents.toList.head? ≠ some ' ') (width : Nat) :
    margin (line.openText width).toList = (line.columns width).toNat := by
  rw [margin, toList_openText, (split_at_margin h _).1, List.length_replicate]

theorem ofWritten_openText {line : Line} (h : line.contents.toList.head? ≠ some ' ') {width : Nat}
    (hwidth : 0 < width) (hfits : line.Fits width) :
    ofWritten width (line.openText width).toList = line := by
  rw [ofWritten, margin_openText h, toNat_columns_of_fits hfits, Nat.mul_div_cancel _ hwidth,
    toList_openText, (split_at_margin h _).2, String.ofList_toList]

end Line

namespace LineBuffer

/-! ### The lines that are shown -/

/-- The lines of a text as they are written: its pieces between newlines but the last one. -/
def writtenLines (text : String) : List (List Char) := (text.toList.splitOn '\n').dropLast

theorem AllFilled.filled_finished {buffer : LineBuffer} (h : buffer.AllFilled) :
    filled buffer.finished.toList = buffer.finished.toList := by
  rw [filled, List.filter_eq_self]
  intro line hline
  rw [Bool.not_eq_true', String.isEmpty_eq_false_iff]
  exact h line hline

/-- A buffer shows its lines with contents. -/
theorem AllFilled.text_eq {buffer : LineBuffer} (h : buffer.AllFilled) :
    buffer.text = String.join ((filled buffer.lines).map (Line.text buffer.width)) := by
  have hlines : filled buffer.lines = buffer.finished.toList ++ filled [buffer.current] := by
    rw [lines, filled, List.filter_append]
    exact congrArg (· ++ filled [buffer.current]) h.filled_finished
  rw [LineBuffer.text_eq, hlines, List.map_append, String.join_append]
  rfl

/-- Lines without newlines end at the newlines of their text. -/
theorem splitOn_join (width : Nat) {lines : List Line}
    (h : ∀ line ∈ lines, '\n' ∉ line.contents.toList) :
    (String.join (lines.map (Line.text width))).toList.splitOn '\n' =
      lines.map (fun line => (line.openText width).toList) ++ [[]] := by
  induction lines with
  | nil => rfl
  | cons line lines ih =>
      obtain ⟨hline, hlines⟩ := List.forall_mem_cons.1 h
      have hopen : '\n' ∉ (line.openText width).toList := by
        rw [Line.toList_openText, List.mem_append, List.mem_replicate]
        rintro (⟨_, hspace⟩ | hmem)
        · exact absurd hspace (by decide)
        · exact hline hmem
      rw [List.map_cons, String.join_cons, Line.text_eq_openText, String.toList_append,
        String.toList_append, List.append_assoc]
      exact (List.splitOn_append_cons_self_of_not_mem hopen _).trans (congrArg _ (ih hlines))

/-! ### A run of steps -/

/-- No line has a newline in its contents. -/
def NoNewline (buffer : LineBuffer) : Prop := ∀ line ∈ buffer.lines, '\n' ∉ line.contents.toList

theorem noNewline_iff {buffer : LineBuffer} : buffer.NoNewline ↔
    (∀ line ∈ buffer.finished.toList, '\n' ∉ line.contents.toList) ∧
      '\n' ∉ buffer.current.contents.toList := by
  rw [NoNewline, lines, List.forall_mem_append, List.forall_mem_singleton]

theorem noNewline_empty (width : Nat) : (empty width).NoNewline :=
  noNewline_iff.2 ⟨nofun, List.not_mem_nil⟩

theorem NoNewline.append {buffer : LineBuffer} (h : buffer.NoNewline) {added : String}
    (hadded : '\n' ∉ added.toList) : (buffer.append added).NoNewline := by
  obtain ⟨hfinished, hcurrent⟩ := noNewline_iff.1 h
  refine noNewline_iff.2 ⟨hfinished, ?_⟩
  rw [LineBuffer.append, String.toList_append, List.mem_append]
  exact not_or.2 ⟨hcurrent, hadded⟩

theorem NoNewline.breakLine {buffer : LineBuffer} (h : buffer.NoNewline) :
    buffer.breakLine.NoNewline := by
  obtain ⟨hfinished, hcurrent⟩ := noNewline_iff.1 h
  refine noNewline_iff.2 ⟨fun line hline => ?_, ?_⟩
  · rcases mem_finished_breakLine_iff.1 hline with hline | ⟨rfl, _⟩
    · exact hfinished line hline
    · exact hcurrent
  · rw [contents_breakLine]
    exact List.not_mem_nil

theorem NoNewline.atLevel {buffer : LineBuffer} (h : buffer.NoNewline) (level : Nat) :
    (buffer.atLevel level).NoNewline := by
  obtain ⟨hfinished, hcurrent⟩ := noNewline_iff.1 h
  exact noNewline_iff.2 ⟨hfinished, hcurrent⟩

theorem NoNewline.perform {buffer : LineBuffer} (h : buffer.NoNewline) {step : Step}
    (hstep : '\n' ∉ step.added.toList) : (buffer.perform step).2.NoNewline :=
  perform_invariant (fun _ h => h.append hstep) (fun _ h => h.breakLine)
    (fun _ level _ h => h.atLevel level) h

theorem NoNewline.performAll {steps : List Step} : ∀ {buffer : LineBuffer}, buffer.NoNewline →
    (∀ step ∈ steps, '\n' ∉ step.added.toList) → (buffer.performAll steps).2.NoNewline := by
  induction steps with
  | nil => exact fun h _ => h
  | cons step steps ih =>
      intro buffer h hsteps
      obtain ⟨hstep, hrest⟩ := List.forall_mem_cons.1 hsteps
      exact ih (h.perform hstep) hrest

theorem width_performAll (buffer : LineBuffer) (steps : List Step) :
    (buffer.performAll steps).2.width = buffer.width := by
  rw [performAll_eq_runAll]
  refine runAll_invariant (P := fun later => later.width = buffer.width) perform ?_ steps rfl
  exact fun later step h => perform_invariant (P := fun later => later.width = buffer.width)
    (fun _ h => h) (fun later h => (width_breakLine later).trans h) (fun _ _ _ h => h) h

/-- A buffer with levels of a width that steps without newlines lead to, and in which no line begins
with a space. -/
def IsReadable (width : Nat) (buffer : LineBuffer) : Prop :=
  (∃ steps, (∀ step ∈ steps, '\n' ∉ step.added.toList) ∧
    buffer = ((empty width).performAll steps).2) ∧
  ∀ line ∈ buffer.lines, line.contents.toList.head? ≠ some ' '

/-- The pieces between the newlines of the text are the lines with contents as they are written. -/
theorem IsReadable.splitOn_text {width : Nat} {buffer : LineBuffer} (h : buffer.IsReadable width) :
    buffer.text.toList.splitOn '\n' =
      (filled buffer.lines).map (fun line => (line.openText width).toList) ++ [[]] := by
  obtain ⟨⟨steps, hsteps, rfl⟩, _⟩ := h
  have hfilled := (allFilled_empty width).performAll steps
  have hnewline := (noNewline_empty width).performAll hsteps
  rw [hfilled.text_eq, width_performAll]
  exact splitOn_join width fun line hline => hnewline line (mem_filled_iff.1 hline).1

theorem IsReadable.writtenLines_text {width : Nat} {buffer : LineBuffer}
    (h : buffer.IsReadable width) :
    writtenLines buffer.text =
      (filled buffer.lines).map fun line => (line.openText width).toList := by
  rw [writtenLines, h.splitOn_text, List.dropLast_concat]

theorem IsReadable.map_writtenLines {width : Nat} {buffer : LineBuffer}
    (h : buffer.IsReadable width) (hwidth : 0 < width)
    (hfits : ∀ line ∈ filled buffer.lines, line.Fits width) :
    (writtenLines buffer.text).map (Line.ofWritten width) = filled buffer.lines := by
  rw [h.writtenLines_text, List.map_map]
  refine (List.map_congr_left fun line hline => ?_).trans (List.map_id _)
  exact Line.ofWritten_openText (h.2 line (mem_filled_iff.1 hline).1) hwidth (hfits line hline)

/-- **A text can be read back.** Let steps without newlines lead to a buffer in which no line begins
with a space, and let levels be at least one column wide. Then after the last newline of its text
there is nothing, and no piece before a newline is empty. If moreover the columns of the lines with
contents fit 64 bits, each piece begins with a number of spaces that the width divides; and the
pieces, with the quotient as the level and the rest as the contents, are the lines with contents in
order. So two such buffers with the same text have the same lines with contents. -/
theorem readBack_text {width : Nat} (hwidth : 0 < width) {buffer : LineBuffer}
    (h : buffer.IsReadable width) :
    buffer.text.toList.splitOn '\n' = writtenLines buffer.text ++ [[]] ∧
      (∀ written ∈ writtenLines buffer.text, written ≠ []) ∧
      ((∀ line ∈ filled buffer.lines, line.level * width < 2 ^ 64) →
        (∀ written ∈ writtenLines buffer.text, width ∣ Line.margin written) ∧
        (writtenLines buffer.text).map (Line.ofWritten width) = filled buffer.lines ∧
        ∀ other : LineBuffer, other.IsReadable width →
          (∀ line ∈ filled other.lines, line.level * width < 2 ^ 64) →
            other.text = buffer.text → filled other.lines = filled buffer.lines) := by
  have hwritten := h.writtenLines_text
  refine ⟨?_, ?_, fun hfits => ⟨?_, h.map_writtenLines hwidth hfits, ?_⟩⟩
  · rw [hwritten, h.splitOn_text]
  · rw [hwritten, List.forall_mem_map]
    intro line hline hnil
    rw [Line.toList_openText, List.append_eq_nil_iff, String.toList_eq_nil_iff] at hnil
    exact (mem_filled_iff.1 hline).2 hnil.2
  · rw [hwritten, List.forall_mem_map]
    intro line hline
    rw [Line.margin_openText (h.2 line (mem_filled_iff.1 hline).1),
      Line.toNat_columns_of_fits (hfits line hline)]
    exact Nat.dvd_mul_left width line.level
  · intro other hother hotherFits htext
    calc filled other.lines
        = (writtenLines other.text).map (Line.ofWritten width) :=
          (hother.map_writtenLines hwidth hotherFits).symm
      _ = (writtenLines buffer.text).map (Line.ofWritten width) := by rw [htext]
      _ = filled buffer.lines := h.map_writtenLines hwidth hfits

theorem readBack_text_levels :
    let buffer := ((empty 2).performAll
      [.indent, .append "a", .append " b", .unindent, .unindent, .appendLine "c", .indent]).2
    let other := ((empty 2).performAll [.indent, .appendLine "a b", .unindent, .append "c"]).2
    0 < 2 ∧ buffer.IsReadable 2 ∧ other.IsReadable 2 ∧
      (∀ line ∈ filled buffer.lines, line.level * 2 < 2 ^ 64) ∧
      (∀ line ∈ filled other.lines, line.level * 2 < 2 ^ 64) ∧ other.text = buffer.text ∧
      buffer ≠ other ∧ writtenLines buffer.text = ["  a b".toList, "c".toList] ∧
      (writtenLines buffer.text).map (Line.ofWritten 2) = [⟨1, "a b"⟩, ⟨0, "c"⟩] ∧
      filled other.lines = filled buffer.lines := by
  intro buffer other
  have hwidth : 0 < 2 := by decide
  have hbuffer : buffer.IsReadable 2 := ⟨⟨_, by decide, rfl⟩, by decide⟩
  have hother : other.IsReadable 2 := ⟨⟨_, by decide, rfl⟩, by decide⟩
  have hfits : ∀ line ∈ filled buffer.lines, line.level * 2 < 2 ^ 64 := by decide
  have hotherFits : ∀ line ∈ filled other.lines, line.level * 2 < 2 ^ 64 := by decide
  have htext : other.text = buffer.text := by decide
  obtain ⟨_, _, hread⟩ := readBack_text hwidth hbuffer
  obtain ⟨_, hlines, hsame⟩ := hread hfits
  refine ⟨hwidth, hbuffer, hother, hfits, hotherFits, htext, by decide, by decide, ?_,
    hsame other hother hotherFits htext⟩
  rw [hlines]
  rfl

/-- Where the columns of a level do not fit 64 bits, lines of different levels have one text. -/
theorem readBack_text_wraps :
    let buffer := ((empty (2 ^ 62)).performAll
      [.indent, .indent, .indent, .indent, .appendLine "x"]).2
    let other := ((empty (2 ^ 62)).performAll [.appendLine "x"]).2
    0 < 2 ^ 62 ∧ buffer.IsReadable (2 ^ 62) ∧ other.IsReadable (2 ^ 62) ∧
      (writtenLines buffer.text).map (Line.ofWritten (2 ^ 62)) ≠ filled buffer.lines ∧
      other.text = buffer.text ∧ filled other.lines ≠ filled buffer.lines := by
  intro buffer other
  have hbuffer : buffer = ⟨2 ^ 62, #[⟨4, "x"⟩], ⟨4, ""⟩⟩ := rfl
  have hother : other = ⟨2 ^ 62, #[⟨0, "x"⟩], ⟨0, ""⟩⟩ := rfl
  have htext : buffer.text = "x\n" := by rw [hbuffer]; decide
  refine ⟨Nat.two_pow_pos 62, ⟨⟨_, by decide, rfl⟩, ?_⟩, ⟨⟨_, by decide, rfl⟩, ?_⟩, ?_, ?_, ?_⟩
  · rw [hbuffer]
    decide
  · rw [hother]
    decide
  · rw [htext, hbuffer]
    decide
  · rw [htext, hother]
    decide
  · rw [hbuffer, hother]
    decide

end LineBuffer

end RowTemplate
