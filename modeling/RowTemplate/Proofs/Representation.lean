import RowTemplate.LineArray
import RowTemplate.Proofs.WrittenLines

/-! The lines of a buffer as one array. Each step does to the array with the lines of a buffer what
it does to the buffer, so there is always a last line, and a run of steps never asks for one in
vain. A line is finished only with contents, and the level of the last line counts the steps to the
right less those to the left that have succeeded. -/

namespace RowTemplate

namespace LineBuffer

/-! ### What a step is made of -/

namespace Step

/-- The text that a step writes. -/
def added : Step → String
  | append text => text
  | breakLine => ""
  | appendLine text => text
  | indent => ""
  | unindent => ""

end Step

/-- Writing the text of a step, starting a line, and changing the level of an empty line: what all
of these keep, the step keeps. -/
theorem perform_invariant {P : LineBuffer → Prop} {step : Step}
    (happend : ∀ buffer, P buffer → P (buffer.append step.added))
    (hbreak : ∀ buffer, P buffer → P buffer.breakLine)
    (hlevel : ∀ buffer level, buffer.current.contents = "" → P buffer → P (buffer.atLevel level))
    {buffer : LineBuffer} (h : P buffer) : P (buffer.perform step).2 := by
  have hbroken : ∀ level, P (buffer.breakLine.atLevel level) :=
    fun level => hlevel _ level (contents_breakLine buffer) (hbreak buffer h)
  cases step with
  | append text => exact happend buffer h
  | breakLine => exact hbreak buffer h
  | appendLine text => exact hbreak _ (happend _ (hbreak buffer h))
  | indent =>
      change P buffer.indent
      rw [indent_eq_atLevel]
      exact hbroken _
  | unindent =>
      change P buffer.unindent.2
      rw [unindent_eq]
      exact hbroken _

/-! ### Finished lines -/

/-- A line break finishes the line under way if that has contents. -/
theorem mem_finished_breakLine_iff {buffer : LineBuffer} {line : Line} :
    line ∈ buffer.breakLine.finished.toList ↔
      line ∈ buffer.finished.toList ∨ line = buffer.current ∧ line.contents ≠ "" := by
  rw [finished_breakLine, List.mem_append, mem_filled_iff, List.mem_singleton]

/-- Every finished line has contents. -/
def AllFilled (buffer : LineBuffer) : Prop := ∀ line ∈ buffer.finished.toList, line.contents ≠ ""

theorem allFilled_empty (width : Nat) : (empty width).AllFilled := nofun

theorem AllFilled.breakLine {buffer : LineBuffer} (h : buffer.AllFilled) :
    buffer.breakLine.AllFilled := by
  intro line hline
  rcases mem_finished_breakLine_iff.1 hline with hline | ⟨_, hcontents⟩
  · exact h line hline
  · exact hcontents

theorem AllFilled.performAll {buffer : LineBuffer} (h : buffer.AllFilled) (steps : List Step) :
    (buffer.performAll steps).2.AllFilled := by
  rw [performAll_eq_runAll]
  refine runAll_invariant perform (fun later step hlater => ?_) steps h
  exact perform_invariant (fun _ h => h) (fun _ h => h.breakLine) (fun _ _ _ h => h) hlater

end LineBuffer

namespace LineArray

open LineBuffer (Step)

/-! ### One step -/

theorem lastIndex?_ofBuffer (buffer : LineBuffer) :
    (ofBuffer buffer).lastIndex? = some buffer.finished.size := by
  rw [lastIndex?, ofBuffer, Array.size_push]

theorem current?_ofBuffer (buffer : LineBuffer) :
    (ofBuffer buffer).current? = some buffer.current := by
  rw [current?, lastIndex?_ofBuffer]
  exact Array.getElem?_push_size

theorem modify_push_size {α : Type} (xs : Array α) (x : α) (change : α → α) :
    (xs.push x).modify xs.size change = xs.push (change x) := by
  apply Array.ext_getElem?
  intro i
  rw [Array.getElem?_modify, Array.getElem?_push, Array.getElem?_push]
  grind

theorem modify?_ofBuffer (buffer : LineBuffer) (change : Line → Line) :
    (ofBuffer buffer).modify? change =
      some (ofBuffer { buffer with current := change buffer.current }) := by
  rw [modify?, lastIndex?_ofBuffer]
  have hlines := modify_push_size buffer.finished buffer.current change
  exact congrArg (fun lines => some (mk buffer.width lines)) hlines

theorem append?_ofBuffer (buffer : LineBuffer) (text : String) :
    (ofBuffer buffer).append? text = some (ofBuffer (buffer.append text)) :=
  modify?_ofBuffer buffer _

theorem breakLine?_ofBuffer (buffer : LineBuffer) :
    (ofBuffer buffer).breakLine? = some (ofBuffer buffer.breakLine) := by
  rw [breakLine?, current?_ofBuffer, LineBuffer.breakLine]
  simp only [Option.bind_eq_bind, Option.bind_some]
  split <;> rfl

theorem appendLine?_ofBuffer (buffer : LineBuffer) (text : String) :
    (ofBuffer buffer).appendLine? text = some (ofBuffer (buffer.appendLine text)) := by
  rw [appendLine?, breakLine?_ofBuffer]
  simp only [Option.bind_eq_bind, Option.bind_some]
  rw [append?_ofBuffer]
  exact breakLine?_ofBuffer _

theorem indent?_ofBuffer (buffer : LineBuffer) :
    (ofBuffer buffer).indent? = some (ofBuffer buffer.indent) := by
  rw [indent?, breakLine?_ofBuffer]
  exact modify?_ofBuffer buffer.breakLine _

theorem unindent?_ofBuffer (buffer : LineBuffer) :
    (ofBuffer buffer).unindent? = some (buffer.unindent.1, ofBuffer buffer.unindent.2) := by
  rw [unindent?, breakLine?_ofBuffer, LineBuffer.unindent]
  simp only [Option.bind_eq_bind, Option.bind_some]
  rw [current?_ofBuffer, Option.bind_some]
  cases hlevel : buffer.breakLine.current.level with
  | zero => rfl
  | succ level =>
      rw [if_neg (Nat.succ_ne_zero level), modify?_ofBuffer, hlevel]
      rfl

/-- A step does the same to the array as to the buffer. -/
theorem perform?_ofBuffer (buffer : LineBuffer) (step : Step) :
    (ofBuffer buffer).perform? step =
      some ((buffer.perform step).1, ofBuffer (buffer.perform step).2) := by
  cases step with
  | append text =>
      rw [perform?, append?_ofBuffer]
      rfl
  | breakLine =>
      rw [perform?, breakLine?_ofBuffer]
      rfl
  | appendLine text =>
      rw [perform?, appendLine?_ofBuffer]
      rfl
  | indent =>
      rw [perform?, indent?_ofBuffer]
      rfl
  | unindent => exact unindent?_ofBuffer buffer

theorem text_ofBuffer (buffer : LineBuffer) : (ofBuffer buffer).text = buffer.text := by
  rw [text, current?_ofBuffer, LineBuffer.text]
  simp only [ofBuffer, Array.pop_push]

/-! ### A run of steps -/

theorem performAll?_ofBuffer (steps : List Step) : ∀ buffer : LineBuffer,
    (ofBuffer buffer).performAll? steps =
      some ((buffer.performAll steps).1, ofBuffer (buffer.performAll steps).2) := by
  induction steps with
  | nil => exact fun _ => rfl
  | cons step steps ih =>
      intro buffer
      rw [performAll?, perform?_ofBuffer]
      simp only [Option.bind_eq_bind, Option.bind_some]
      rw [ih]
      rfl

theorem getElem?_lines_ofBuffer (buffer : LineBuffer) (i : Nat) :
    (ofBuffer buffer).lines[i]? = buffer.lines[i]? := by
  rw [← Array.getElem?_toList, ofBuffer, Array.toList_push]
  rfl

theorem size_lines_ofBuffer (buffer : LineBuffer) :
    (ofBuffer buffer).lines.size = buffer.finished.size + 1 :=
  Array.size_push _

theorem getElem?_lines_of_lt {buffer : LineBuffer} {i : Nat} (h : i < buffer.finished.size) :
    buffer.lines[i]? = buffer.finished.toList[i]? :=
  List.getElem?_append_left h

/-- **The lines in one array.** From an empty buffer of any width, the array of lines goes through
any steps as the buffer does, with the same outcomes and the same text: it always has a last line,
so none is asked for in vain, whatever has failed before. Every line before the last has contents.
The level of the last line is the number of steps to the right less those to the left that have
succeeded. After any further steps the lines before the last are as they were, and each line with
contents is at its place and level. -/
theorem lines_of_run (width : Nat) (steps : List Step) :
    ∃ (outcomes : List (Except Error Unit)) (array : LineArray),
      (empty width).performAll? steps = some (outcomes, array) ∧
      outcomes = ((LineBuffer.empty width).performAll steps).1 ∧
      array = ofBuffer ((LineBuffer.empty width).performAll steps).2 ∧
      array.text = ((LineBuffer.empty width).performAll steps).2.text ∧
      0 < array.lines.size ∧
      (∀ (i : Nat) (line : Line), i + 1 < array.lines.size →
        array.lines[i]? = some line → line.contents ≠ "") ∧
      (∃ last, array.current? = some last ∧
        last.level + LineBuffer.unindents steps outcomes = steps.count .indent) ∧
      ∀ more, ∃ (moreOutcomes : List (Except Error Unit)) (later : LineArray),
        array.performAll? more = some (moreOutcomes, later) ∧
        (∀ i : Nat, i + 1 < array.lines.size → later.lines[i]? = array.lines[i]?) ∧
        ∀ (i : Nat) (line : Line), array.lines[i]? = some line → line.contents ≠ "" →
          ∃ added, later.lines[i]? = some { line with contents := line.contents ++ added } := by
  generalize hrun : (LineBuffer.empty width).performAll steps = run
  have hstart : (empty width).performAll? steps = some (run.1, ofBuffer run.2) :=
    hrun ▸ performAll?_ofBuffer steps (.empty width)
  have hfilled : run.2.AllFilled := hrun ▸ (LineBuffer.allFilled_empty width).performAll steps
  have hlevel := LineBuffer.level_performAll_add steps (.empty width)
  rw [hrun] at hlevel
  have hsize := size_lines_ofBuffer run.2
  refine ⟨run.1, ofBuffer run.2, hstart, rfl, rfl, text_ofBuffer run.2, by omega, ?_,
    ⟨run.2.current, current?_ofBuffer run.2, ?_⟩, fun more => ?_⟩
  · intro i line hi hline
    rw [getElem?_lines_ofBuffer, getElem?_lines_of_lt (by omega)] at hline
    exact hfilled line (List.mem_of_getElem? hline)
  · exact hlevel.trans (Nat.zero_add _)
  · have hkeeps := LineBuffer.keeps_performAll run.2 more
    refine ⟨_, _, performAll?_ofBuffer more run.2, fun i hi => ?_, fun i line hline hcontents => ?_⟩
    · have hfinished : i < run.2.finished.toList.length := by
        rw [Array.length_toList]
        omega
      rw [getElem?_lines_ofBuffer, getElem?_lines_ofBuffer, getElem?_lines_of_lt hfinished,
        getElem?_lines_of_lt (hfinished.trans_le hkeeps.finished.length_le),
        List.prefix_iff_getElem?.1 hkeeps.finished i hfinished, List.getElem?_eq_getElem hfinished]
    · rw [getElem?_lines_ofBuffer] at hline
      rw [getElem?_lines_ofBuffer]
      exact hkeeps.line i line hline hcontents

theorem lines_of_run_failed :
    ∃ array : LineArray,
      (empty 2).performAll? [.indent, .append "a", .unindent, .unindent, .append "b"] =
        some ([.ok (), .ok (), .ok (), .error .negativeIndentation, .ok ()], array) ∧
      array.lines = #[⟨1, "a"⟩, ⟨0, "b"⟩] ∧ 0 + 1 < array.lines.size ∧ "b" ≠ "" ∧
      ∃ (outcomes : List (Except Error Unit)) (later : LineArray),
        array.performAll? [.append "c", .indent] = some (outcomes, later) ∧
        later.lines[0]? = some ⟨1, "a"⟩ ∧ ∃ added, later.lines[1]? = some ⟨0, "b" ++ added⟩ := by
  obtain ⟨outcomes, array, hrun, houtcomes, harray, _, _, _, _, hmore⟩ :=
    lines_of_run 2 [.indent, .append "a", .unindent, .unindent, .append "b"]
  obtain ⟨moreOutcomes, later, hlater, hbefore, hline⟩ := hmore [.append "c", .indent]
  have hlines : array.lines = #[⟨1, "a"⟩, ⟨0, "b"⟩] := by
    rw [harray]
    rfl
  have hsize : 0 + 1 < array.lines.size := by
    rw [hlines]
    decide
  have hcontents : "b" ≠ "" := by decide
  refine ⟨array, ?_, hlines, hsize, hcontents, moreOutcomes, later, hlater, ?_, ?_⟩
  · rw [hrun, houtcomes]
    rfl
  · rw [hbefore 0 hsize, hlines]
    rfl
  · exact hline 1 ⟨0, "b"⟩ (by rw [hlines]; rfl) hcontents

end LineArray

end RowTemplate
