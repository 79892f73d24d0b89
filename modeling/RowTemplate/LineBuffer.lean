import RowTemplate.Error
import RowTemplate.Text

/-! Text built line by line at changing levels of indentation. The buffer holds finished lines and
the line that is being written, which is finished only once it has contents. -/

namespace RowTemplate

/-- A line and its level of indentation. -/
structure Line where
  level : Nat
  contents : String
  deriving DecidableEq

namespace Line

/-- The columns in front of a line, each level `width` columns wide. They are counted in 64 bits. -/
def columns (width : Nat) (line : Line) : UInt64 := .ofNat line.level * .ofNat width

/-- A line as it is written, after a space for each of its columns. -/
def text (width : Nat) (line : Line) : String :=
  String.ofList (List.replicate (line.columns width).toNat ' ') ++ line.contents ++ "\n"

theorem toNat_columns (width : Nat) (line : Line) :
    (line.columns width).toNat = line.level * width % Nat.pow 2 64 := by
  rw [Nat.pow_eq, columns, UInt64.toNat_mul, UInt64.toNat_ofNat', UInt64.toNat_ofNat', ← Nat.mul_mod]

end Line

/-- Finished lines, and the line that is being written. -/
structure LineBuffer where
  width : Nat
  finished : Array Line
  current : Line
  deriving DecidableEq

namespace LineBuffer

/-- The columns of a level where none are asked for. -/
def defaultWidth : Nat := 4

/-- The buffer without text, at level 0. -/
def empty (width : Nat) : LineBuffer := ⟨width, #[], ⟨0, ""⟩⟩

/-- All lines in order, the one being written at the end. -/
def lines (buffer : LineBuffer) : List Line := buffer.finished.toList ++ [buffer.current]

/-- The level of the line that is being written. -/
def level (buffer : LineBuffer) : Nat := buffer.current.level

/-- The text of all lines; a line being written counts once it has contents. -/
def text (buffer : LineBuffer) : String :=
  let shown :=
    if buffer.current.contents.isEmpty then buffer.finished
    else buffer.finished.push buffer.current
  String.join (shown.toList.map (Line.text buffer.width))

/-- Writes on at the end of the line; a newline in the text is contents like any other character. -/
def append (buffer : LineBuffer) (text : String) : LineBuffer :=
  { buffer with current.contents := buffer.current.contents ++ text }

/-- Finishes the line and starts one at its level; a line without contents stays. -/
def breakLine (buffer : LineBuffer) : LineBuffer :=
  if buffer.current.contents.isEmpty then buffer
  else { buffer with
    finished := buffer.finished.push buffer.current
    current.contents := "" }

/-- Writes a line of its own. -/
def appendLine (buffer : LineBuffer) (text : String) : LineBuffer :=
  (buffer.breakLine.append text).breakLine

/-- Writes each line of a text as a line of its own. -/
def appendLines (buffer : LineBuffer) (text : String) : LineBuffer :=
  (linesOf text).foldl appendLine buffer

/-- Starts a line one level further right. -/
def indent (buffer : LineBuffer) : LineBuffer :=
  let broken := buffer.breakLine
  { broken with current.level := broken.current.level + 1 }

/-- Starts a line one level further left. At level 0 this fails, and the line is started all the
same. -/
def unindent (buffer : LineBuffer) : Except Error Unit × LineBuffer :=
  let broken := buffer.breakLine
  match broken.current.level with
  | 0 => (.error .negativeIndentation, broken)
  | level + 1 => (.ok (), { broken with current.level := level })

/-- A step of writing. -/
inductive Step
  | append (text : String)
  | breakLine
  | appendLine (text : String)
  | indent
  | unindent
  deriving DecidableEq

/-- Performs a step: its outcome, and the buffer after it. -/
def perform (buffer : LineBuffer) : Step → Except Error Unit × LineBuffer
  | .append text => (.ok (), buffer.append text)
  | .breakLine => (.ok (), buffer.breakLine)
  | .appendLine text => (.ok (), buffer.appendLine text)
  | .indent => (.ok (), buffer.indent)
  | .unindent => buffer.unindent

/-- Performs steps in order: their outcomes, and the buffer after them. A step that fails does not
stop the others. -/
def performAll (buffer : LineBuffer) : List Step → List (Except Error Unit) × LineBuffer
  | [] => ([], buffer)
  | step :: steps =>
      let (outcome, after) := buffer.perform step
      let (outcomes, last) := after.performAll steps
      (outcome :: outcomes, last)

@[simp] theorem level_breakLine (buffer : LineBuffer) : buffer.breakLine.level = buffer.level := by
  unfold breakLine
  split <;> rfl

@[simp] theorem contents_breakLine (buffer : LineBuffer) :
    buffer.breakLine.current.contents = "" := by
  unfold breakLine
  split
  case isTrue h => simpa using h
  case isFalse => rfl

/-- Starting a line shows nothing. -/
@[simp] theorem text_breakLine (buffer : LineBuffer) : buffer.breakLine.text = buffer.text := by
  unfold breakLine
  split
  case isTrue => rfl
  case isFalse h => simp [text, h]

end LineBuffer

end RowTemplate
