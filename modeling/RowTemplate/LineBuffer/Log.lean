import RowTemplate.LineBuffer

/-! The text of a run of writing steps, read off a log of the steps. The log is cut at every step
that starts a line, and before and after every whole line; the text added between two cuts is a
line at the level then in force, and it is set out with all the spaces of that level. -/

namespace RowTemplate

namespace Line

/-- A line after all the spaces of its level, however many, and with a newline at its end. -/
def setOut (width : Nat) (line : Line) : String :=
  String.ofList (List.replicate (line.level * width) ' ') ++ line.contents ++ "\n"

/-- The columns of a line fit 64 bits. -/
def Fits (width : Nat) (line : Line) : Prop := line.level * width < Nat.pow 2 64

theorem toNat_columns_of_fits {width : Nat} {line : Line} (h : line.Fits width) :
    (line.columns width).toNat = line.level * width := by
  rw [toNat_columns, Nat.mod_eq_of_lt h]

/-- A line is written with all the spaces of its level exactly if their number fits 64 bits. -/
theorem text_eq_setOut_iff {width : Nat} {line : Line} :
    line.text width = line.setOut width ↔ line.Fits width := by
  constructor
  · intro h
    have hlength := congrArg String.length h
    simp only [text, setOut, String.length_append, String.length_ofList, List.length_replicate,
      Nat.add_right_cancel_iff] at hlength
    rw [Fits, ← hlength]
    exact (line.columns width).toNat_lt
  · intro h
    rw [text, setOut, toNat_columns_of_fits h]

end Line

namespace LineBuffer

namespace Step

/-- The level after a step. -/
def levelAfter (level : Nat) : Step → Nat
  | .indent => level + 1
  | .unindent => level - 1
  | _ => level

end Step

/-- A step moves the level of a buffer as the log says. -/
theorem level_perform (buffer : LineBuffer) (step : Step) :
    (buffer.perform step).2.level = step.levelAfter buffer.level := by
  cases step with
  | append text => rfl
  | breakLine => exact level_breakLine buffer
  | appendLine text =>
      simp only [perform, appendLine, level_breakLine]
      exact level_breakLine buffer
  | indent => exact congrArg (· + 1) (level_breakLine buffer)
  | unindent =>
      have hlevel : buffer.breakLine.current.level = buffer.level := level_breakLine buffer
      simp only [perform, unindent, Step.levelAfter]
      split
      case h_1 hzero => rw [level, hzero, ← hlevel, hzero]
      case h_2 below hsucc => rw [level, ← hlevel, hsucc, Nat.succ_sub_one]

/-- The stretches of text between the cuts, each with its level; `level` and `pending` are those
of the stretch that the steps go on with. -/
def stretches (level : Nat) (pending : String) : List Step → List Line
  | [] => [⟨level, pending⟩]
  | .append text :: steps => stretches level (pending ++ text) steps
  | .appendLine text :: steps => ⟨level, pending⟩ :: ⟨level, text⟩ :: stretches level "" steps
  | step :: steps => ⟨level, pending⟩ :: stretches (step.levelAfter level) "" steps

/-- The lines that are shown: those with contents. -/
def filled (lines : List Line) : List Line := lines.filter (!·.contents.isEmpty)

/-- Lines set out one after the other, where those without contents are left out. -/
def setOutLines (width : Nat) (lines : List Line) : String :=
  String.join ((filled lines).map (Line.setOut width))

/-- The text of a run of steps from an empty buffer. -/
def textOfLog (width : Nat) (steps : List Step) : String :=
  setOutLines width (stretches 0 "" steps)

end LineBuffer

end RowTemplate
