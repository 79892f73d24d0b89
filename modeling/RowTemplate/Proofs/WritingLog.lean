import RowTemplate.LineBuffer.Log
import RowTemplate.Proofs.Runs

/-! A run of writing steps against the log of its steps. Between two cuts the text that is written is
the contents of the line under way, and a cut keeps that line exactly if it is not empty; so a buffer
and the log of what is still to be done stand for one text, which no step changes. The level is what
the log counts, and a step to the left fails where there is nothing left to undo. -/

namespace RowTemplate.LineBuffer

/-! ### The text of lines -/

/-- The text of lines, where those without contents are left out. -/
def textOfLines (width : Nat) (lines : List Line) : String :=
  String.join ((filled lines).map (Line.text width))

theorem textOfLines_cons (width : Nat) (line : Line) (lines : List Line) :
    textOfLines width (line :: lines) = textOfLines width [line] ++ textOfLines width lines := by
  rw [textOfLines, filled, ← List.singleton_append, List.filter_append, List.map_append,
    String.join_append]
  rfl

theorem textOfLines_singleton (width : Nat) (line : Line) :
    textOfLines width [line] = if line.contents.isEmpty then "" else line.text width := by
  cases hempty : line.contents.isEmpty <;> simp [textOfLines, filled, hempty]

theorem setOutLines_singleton {width : Nat} {line : Line} (h : line.contents ≠ "") :
    setOutLines width [line] = line.setOut width := by
  simp [setOutLines, filled, h]

theorem mem_filled_iff {line : Line} {lines : List Line} :
    line ∈ filled lines ↔ line ∈ lines ∧ line.contents ≠ "" := by
  rw [filled, List.mem_filter, Bool.not_eq_true', String.isEmpty_eq_false_iff]

/-- Lines are written as they are set out if the columns of those that are shown fit 64 bits. -/
theorem textOfLines_eq_setOutLines {width : Nat} {lines : List Line}
    (h : ∀ line ∈ filled lines, line.Fits width) : textOfLines width lines = setOutLines width lines :=
  congrArg String.join (List.map_congr_left fun line hline => Line.text_eq_setOut_iff.2 (h line hline))

/-- The text of the finished lines. -/
def finishedText (buffer : LineBuffer) : String :=
  String.join (buffer.finished.toList.map (Line.text buffer.width))

theorem text_eq (buffer : LineBuffer) :
    buffer.text = buffer.finishedText ++ textOfLines buffer.width [buffer.current] := by
  rw [textOfLines_singleton, text, finishedText]
  split
  case isTrue => rw [String.append_empty]
  case isFalse => simp

theorem text_of_no_contents {buffer : LineBuffer} (h : buffer.current.contents = "") :
    buffer.text = buffer.finishedText := by
  rw [text_eq, textOfLines_singleton, h]
  exact String.append_empty

theorem width_breakLine (buffer : LineBuffer) : buffer.breakLine.width = buffer.width := by
  unfold breakLine
  split <;> rfl

theorem finishedText_breakLine (buffer : LineBuffer) :
    buffer.breakLine.finishedText =
      buffer.finishedText ++ textOfLines buffer.width [buffer.current] := by
  rw [← text_of_no_contents (contents_breakLine buffer), text_breakLine, text_eq]

theorem breakLine_breakLine (buffer : LineBuffer) :
    buffer.breakLine.breakLine = buffer.breakLine := by
  rw [breakLine, contents_breakLine]
  rfl

/-! ### One step -/

/-- The buffer with the line under way at another level. -/
def atLevel (buffer : LineBuffer) (level : Nat) : LineBuffer :=
  { buffer with current.level := level }

theorem breakLine_eq_atLevel (buffer : LineBuffer) :
    buffer.breakLine = buffer.breakLine.atLevel buffer.level :=
  congrArg buffer.breakLine.atLevel (level_breakLine buffer)

theorem indent_eq_atLevel (buffer : LineBuffer) :
    buffer.indent = buffer.breakLine.atLevel (buffer.level + 1) :=
  congrArg (fun level => buffer.breakLine.atLevel (level + 1)) (level_breakLine buffer)

/-- A step to the left fails exactly at level 0, and a line is started in any case. -/
theorem unindent_eq (buffer : LineBuffer) :
    buffer.unindent = (if buffer.level = 0 then .error .negativeIndentation else .ok (),
      buffer.breakLine.atLevel (buffer.level - 1)) := by
  have hlevel : buffer.breakLine.current.level = buffer.level := level_breakLine buffer
  rw [unindent]
  split
  case h_1 hzero =>
    rw [hlevel] at hzero
    rw [if_pos hzero, hzero]
    refine Prod.ext rfl ?_
    rw [Nat.zero_sub, ← hzero]
    exact breakLine_eq_atLevel buffer
  case h_2 below hsucc =>
    rw [hlevel] at hsucc
    rw [if_neg (by omega), hsucc, Nat.succ_sub_one]
    rfl

theorem outcome_perform (buffer : LineBuffer) (step : Step) :
    (buffer.perform step).1 =
      if step = .unindent ∧ buffer.level = 0 then .error .negativeIndentation else .ok () := by
  cases step with
  | append text => rfl
  | breakLine => rfl
  | appendLine text => rfl
  | indent => rfl
  | unindent =>
      change buffer.unindent.1 = _
      rw [unindent_eq]
      simp only [true_and]

/-- The text that a buffer and the log of the steps that follow stand for. -/
def textWith (buffer : LineBuffer) (steps : List Step) : String :=
  buffer.finishedText ++
    textOfLines buffer.width (stretches buffer.level buffer.current.contents steps)

/-- A cut finishes the line under way, and the log goes on at the level of the next one. -/
theorem textWith_cut (buffer : LineBuffer) (level : Nat) (steps : List Step) :
    (buffer.breakLine.atLevel level).textWith steps =
      buffer.finishedText ++ textOfLines buffer.width (buffer.current :: stretches level "" steps) := by
  change buffer.breakLine.finishedText ++ textOfLines buffer.breakLine.width
    (stretches level buffer.breakLine.current.contents steps) = _
  rw [finishedText_breakLine, width_breakLine, contents_breakLine, String.append_assoc,
    ← textOfLines_cons]

theorem textWith_breakLine (buffer : LineBuffer) (steps : List Step) :
    buffer.breakLine.textWith steps = buffer.textWith (.breakLine :: steps) := by
  rw [breakLine_eq_atLevel, textWith_cut]
  rfl

/-- A whole line in the log is its text between two cuts. -/
theorem stretches_appendLine (level : Nat) (pending text : String) (steps : List Step) :
    stretches level pending (.appendLine text :: steps) =
      stretches level pending (.breakLine :: .append text :: .breakLine :: steps) := by
  simp [stretches, Step.levelAfter]

/-- No step changes the text that the buffer and the rest of the log stand for. -/
theorem textWith_perform (buffer : LineBuffer) (step : Step) (steps : List Step) :
    (buffer.perform step).2.textWith steps = buffer.textWith (step :: steps) := by
  cases step with
  | append text => rfl
  | breakLine => exact textWith_breakLine buffer steps
  | appendLine text =>
      calc (buffer.appendLine text).textWith steps
          = (buffer.breakLine.append text).textWith (.breakLine :: steps) :=
            textWith_breakLine _ steps
        _ = buffer.breakLine.textWith (.append text :: .breakLine :: steps) := rfl
        _ = buffer.textWith (.breakLine :: .append text :: .breakLine :: steps) :=
            textWith_breakLine buffer _
        _ = buffer.textWith (.appendLine text :: steps) := by
            rw [textWith, textWith, stretches_appendLine]
  | indent =>
      change buffer.indent.textWith steps = _
      rw [indent_eq_atLevel, textWith_cut]
      rfl
  | unindent =>
      change buffer.unindent.2.textWith steps = _
      rw [unindent_eq, textWith_cut]
      rfl

/-! ### A run of steps -/

theorem text_performAll (steps : List Step) :
    ∀ buffer : LineBuffer, (buffer.performAll steps).2.text = buffer.textWith steps := by
  induction steps with
  | nil => exact text_eq
  | cons step steps ih =>
      intro buffer
      exact (ih (buffer.perform step).2).trans (textWith_perform buffer step steps)

/-- The level after steps from level 0. -/
def levelOfLog (steps : List Step) : Nat := steps.foldl Step.levelAfter 0

theorem level_performAll (steps : List Step) : ∀ buffer : LineBuffer,
    (buffer.performAll steps).2.level = steps.foldl Step.levelAfter buffer.level := by
  induction steps with
  | nil => exact fun _ => rfl
  | cons step steps ih =>
      intro buffer
      rw [List.foldl_cons, ← level_perform]
      exact ih (buffer.perform step).2

theorem performAll_eq_runAll (steps : List Step) :
    ∀ buffer : LineBuffer, buffer.performAll steps = runAll perform buffer steps := by
  induction steps with
  | nil => exact fun _ => rfl
  | cons step steps ih =>
      intro buffer
      rw [runAll, ← ih]
      rfl

/-- How often a run has stepped to the left: the steps that failed do not count. -/
def unindents (steps : List Step) (outcomes : List (Except Error Unit)) : Nat :=
  (steps.zip outcomes).count (.unindent, .ok ())

theorem unindents_cons (step : Step) (steps : List Step) (outcome : Except Error Unit)
    (outcomes : List (Except Error Unit)) :
    unindents (step :: steps) (outcome :: outcomes) =
      unindents [step] [outcome] + unindents steps outcomes := by
  rw [unindents, List.zip_cons_cons, ← List.singleton_append, List.count_append]
  rfl

/-- A step to the right counts up by one, and one to the left that succeeds counts down by one. -/
theorem level_perform_add (buffer : LineBuffer) (step : Step) :
    (buffer.perform step).2.level + unindents [step] [(buffer.perform step).1] =
      buffer.level + [step].count .indent := by
  rw [level_perform]
  cases step with
  | append text => rfl
  | breakLine => rfl
  | appendLine text => rfl
  | indent => rfl
  | unindent =>
      change buffer.level - 1 + unindents [.unindent] [buffer.unindent.1] = buffer.level
      rw [unindent_eq]
      by_cases hzero : buffer.level = 0
      · rw [if_pos hzero, hzero]
        rfl
      · rw [if_neg hzero]
        exact Nat.sub_add_cancel (Nat.pos_of_ne_zero hzero)

theorem level_performAll_add (steps : List Step) : ∀ buffer : LineBuffer,
    (buffer.performAll steps).2.level + unindents steps (buffer.performAll steps).1 =
      buffer.level + steps.count .indent := by
  induction steps with
  | nil => exact fun _ => rfl
  | cons step steps ih =>
      intro buffer
      have hstep := level_perform_add buffer step
      have hrest := ih (buffer.perform step).2
      have hcount : (step :: steps).count .indent = [step].count .indent + steps.count .indent := by
        rw [← List.singleton_append, List.count_append]
      change ((buffer.perform step).2.performAll steps).2.level + unindents (step :: steps)
        ((buffer.perform step).1 :: ((buffer.perform step).2.performAll steps).1) = _
      rw [unindents_cons, hcount]
      omega

/-- The outcome of a step after other steps. -/
theorem outcome_performAll (before after : List Step) (step : Step) (buffer : LineBuffer) :
    (buffer.performAll (before ++ step :: after)).1[before.length]? =
      some (if step = .unindent ∧ before.foldl Step.levelAfter buffer.level = 0 then
        .error .negativeIndentation else .ok ()) := by
  rw [performAll_eq_runAll, outcome_runAll, ← performAll_eq_runAll, outcome_perform,
    level_performAll]

theorem outcome_unindent (before after : List Step) (buffer : LineBuffer) :
    (buffer.performAll (before ++ .unindent :: after)).1[before.length]? =
      some (if (buffer.performAll before).2.level = 0 then .error .negativeIndentation
        else .ok ()) := by
  rw [outcome_performAll, level_performAll]
  simp only [true_and]

/-- **The log of a run.** After any steps from an empty buffer the text is that of the stretches of
text between the cuts, the empty ones left out, each at the level that was in force. If their columns
fit 64 bits it is the text of the log, where each of them has all the spaces of its level. The level
is the number of steps to the right less those to the left that succeeded, and a step to the left
fails exactly if the level before it is 0. -/
theorem performAll_eq_log (width : Nat) (steps : List Step) :
    ((empty width).performAll steps).2.text = textOfLines width (stretches 0 "" steps) ∧
      ((∀ line ∈ filled (stretches 0 "" steps), line.Fits width) →
        ((empty width).performAll steps).2.text = textOfLog width steps) ∧
      ((empty width).performAll steps).2.level = levelOfLog steps ∧
      levelOfLog steps + unindents steps ((empty width).performAll steps).1 = steps.count .indent ∧
      ∀ before after, ((empty width).performAll (before ++ .unindent :: after)).1[before.length]? =
        some (if levelOfLog before = 0 then .error .negativeIndentation else .ok ()) := by
  have htext : ((empty width).performAll steps).2.text = textOfLines width (stretches 0 "" steps) :=
    (text_performAll steps (empty width)).trans String.empty_append
  have hlevel : ∀ before, ((empty width).performAll before).2.level = levelOfLog before :=
    fun before => level_performAll before (empty width)
  refine ⟨htext, fun hfits => ?_, hlevel steps, ?_, fun before after => ?_⟩
  · rw [htext, textOfLines_eq_setOutLines hfits]
    rfl
  · rw [← hlevel, level_performAll_add]
    exact Nat.zero_add _
  · rw [outcome_unindent, hlevel]

theorem performAll_eq_log_failed :
    let steps : List Step :=
      [.indent, .append "a", .unindent, .append "b", .unindent, .append "c", .indent]
    (∀ line ∈ filled (stretches 0 "" steps), line.Fits 2) ∧
      textOfLog 2 steps = "  a\nb\nc\n" ∧
      ((empty 2).performAll steps).2.text = "  a\nb\nc\n" ∧
      ((empty 2).performAll steps).1[4]? = some (.error .negativeIndentation) ∧
      levelOfLog steps = 1 := by
  intro steps
  have hfits : ∀ line ∈ filled (stretches 0 "" steps), line.Fits 2 := by
    simp [steps, stretches, Step.levelAfter, filled, Line.Fits]
  have hlog : textOfLog 2 steps = "  a\nb\nc\n" := by cbv
  obtain ⟨_, htext, _, _, hfailed⟩ := performAll_eq_log 2 steps
  refine ⟨hfits, hlog, (htext hfits).trans hlog, ?_, rfl⟩
  exact hfailed [.indent, .append "a", .unindent, .append "b"] [.append "c", .indent]

end RowTemplate.LineBuffer
