import RowTemplate.LineBuffer

/-! The lines of a buffer kept in one array, where the last one is being written. The array may be
without lines, and then there is no last one: a step that asks for it has no result. -/

namespace RowTemplate

/-- Lines in one array, each level `width` columns wide. -/
structure LineArray where
  width : Nat
  lines : Array Line
  deriving DecidableEq

namespace LineArray

open LineBuffer (Step)

/-- One line at level 0, without contents. -/
def empty (width : Nat) : LineArray := ⟨width, #[⟨0, ""⟩]⟩

/-- The array with the lines of a buffer. -/
def ofBuffer (buffer : LineBuffer) : LineArray :=
  ⟨buffer.width, buffer.finished.push buffer.current⟩

/-- The index of the last line. -/
def lastIndex? (array : LineArray) : Option Nat :=
  match array.lines.size with
  | 0 => none
  | last + 1 => some last

/-- The last line, which is the one being written. -/
def current? (array : LineArray) : Option Line := do array.lines[← array.lastIndex?]?

/-- Changes the last line. -/
def modify? (array : LineArray) (change : Line → Line) : Option LineArray :=
  return { array with lines := array.lines.modify (← array.lastIndex?) change }

/-- The text of all lines, where a last one without contents is left out. -/
def text (array : LineArray) : String :=
  let shown :=
    match array.current? with
    | some line => if line.contents.isEmpty then array.lines.pop else array.lines
    | none => array.lines
  String.join (shown.toList.map (Line.text array.width))

/-- Writes on at the end of the last line. -/
def append? (array : LineArray) (text : String) : Option LineArray :=
  array.modify? fun line => { line with contents := line.contents ++ text }

/-- Starts a line at the level of the last one, unless that is without contents. -/
def breakLine? (array : LineArray) : Option LineArray := do
  let line ← array.current?
  if line.contents.isEmpty then return array
  else return { array with lines := array.lines.push ⟨line.level, ""⟩ }

/-- Writes a line of its own. -/
def appendLine? (array : LineArray) (text : String) : Option LineArray := do
  (← (← array.breakLine?).append? text).breakLine?

/-- Starts a line one level further right. -/
def indent? (array : LineArray) : Option LineArray := do
  (← array.breakLine?).modify? fun line => { line with level := line.level + 1 }

/-- Starts a line one level further left; at level 0 this fails after the line has been started. -/
def unindent? (array : LineArray) : Option (Except Error Unit × LineArray) := do
  let broken ← array.breakLine?
  let line ← broken.current?
  if line.level = 0 then return (.error .negativeIndentation, broken)
  else return (.ok (), ← broken.modify? fun line => { line with level := line.level - 1 })

/-- Performs a step: its outcome, and the array after it. -/
def perform? (array : LineArray) : Step → Option (Except Error Unit × LineArray)
  | .append text => return (.ok (), ← array.append? text)
  | .breakLine => return (.ok (), ← array.breakLine?)
  | .appendLine text => return (.ok (), ← array.appendLine? text)
  | .indent => return (.ok (), ← array.indent?)
  | .unindent => array.unindent?

/-- Performs steps in order: their outcomes, and the array after them. -/
def performAll? (array : LineArray) : List Step → Option (List (Except Error Unit) × LineArray)
  | [] => some ([], array)
  | step :: steps => do
      let (outcome, after) ← array.perform? step
      let (outcomes, last) ← after.performAll? steps
      return (outcome :: outcomes, last)

end LineArray

end RowTemplate
