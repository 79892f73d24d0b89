import RowTemplate.Scope
import RowTemplate.Template.Scan

/-! Rendering a template with parameters. Text is copied, a tag gives the value of its name, and a
block gives its body once per row of its list. Output grows at its end, and a row that is entered
is left again, also when its body fails. The places that rendering gets to are the nodes that are
still to be rendered, in a scope. -/

namespace RowTemplate

/-- What rendering works on: the visible names, and the text written so far. -/
structure RenderState where
  scope : Scope
  output : String
  deriving DecidableEq

/-- A rendering step: it may fail, and keeps what it has written when it does. -/
abbrev RenderM := EStateM Error RenderState

namespace RenderM

/-- Writes text at the end of the output. -/
def write (text : String) : RenderM Unit :=
  modify fun state => { state with output := state.output ++ text }

/-- Writes the value of a name. -/
def writeValue (name : String) : RenderM Unit := do
  match (← get).scope.lookup name with
  | some value => write value
  | none => throw (.notSet name .scalar)

/-- Runs a step inside a row, and leaves the row whatever the outcome. -/
def within (frame : Frame) (step : RenderM Unit) : RenderM Unit := fun state =>
  match state.scope.enter frame with
  | .error e => .error e state
  | .ok inner =>
      match step { state with scope := inner } with
      | .ok _ after => .ok () { after with scope := after.scope.leave }
      | .error e after => .error e { after with scope := after.scope.leave }

/-- Runs a step once inside each row of a list. -/
def forRows (list : String) (step : RenderM Unit) : RenderM Unit := do
  if list.isEmpty then throw (.malformedBlock "the list name is empty")
  match (← get).scope.rows? list with
  | some rows => rows.forM fun row => within ⟨list, row⟩ step
  | none => throw (.notSet list .list)

/-- Renders nodes in order; the body of a block is read when the block is reached. -/
def nodes : List Node → RenderM Unit
  | [] => pure ()
  | .text content :: rest => do
      write content
      nodes rest
  | .tag name :: rest => do
      writeValue name
      nodes rest
  | .block list body :: rest => do
      forRows list (nodes (Template.parse body))
      nodes rest
termination_by ns => ((Node.sources ns).length, ns.length)
decreasing_by
  · exact .right' _ (by simp) (Nat.lt_succ_self _)
  · exact .right' _ (by simp) (Nat.lt_succ_self _)
  · exact .left _ _ (by simp [Node.source, opener]; omega)
  · exact .right' _ (by simp) (Nat.lt_succ_self _)

end RenderM

/-- Renders a template with parameters. -/
def Template.render (template : String) (params : Params) : Except Error String :=
  match RenderM.nodes (parse template) ⟨.ofParams params, ""⟩ with
  | .ok _ state => .ok state.output
  | .error e _ => .error e

/-- A place that rendering a template may get to. A block leads into its body with each of its rows
that the scope lets in, and past it. -/
inductive Reaches (template : String) (params : Params) : Scope → List Node → Prop
  | start : Reaches template params (.ofParams params) (Template.parse template)
  | past {scope : Scope} {node : Node} {rest : List Node}
      (h : Reaches template params scope (node :: rest)) : Reaches template params scope rest
  | into {scope inner : Scope} {list body : String} {rest : List Node} {rows : List Row} {row : Row}
      (h : Reaches template params scope (.block list body :: rest)) (hlist : list ≠ "")
      (hrows : scope.rows? list = some rows) (hrow : row ∈ rows)
      (henter : scope.enter ⟨list, row⟩ = .ok inner) :
      Reaches template params inner (Template.parse body)

end RowTemplate
