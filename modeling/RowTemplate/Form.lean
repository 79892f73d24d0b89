import RowTemplate.Render
import RowTemplate.Row

/-! A template together with the parameters bound so far. A name is bound once, and a call that
fails leaves the form as it is, so a form can be rendered at any time and as often as needed. -/

namespace RowTemplate

/-- A template, and the parameters bound for it. -/
structure Form where
  template : String
  params : Params
  deriving DecidableEq

namespace Form

/-- A template with nothing bound. -/
def ofTemplate (template : String) : Form := ⟨template, .empty⟩

/-- Binds a name that is still free. -/
def bind (form : Form) (name : String) (param : Param) : Except Error Form :=
  return { form with params := ← form.params.bind name param }

/-- Binds a name to a list of rows, each built from a datum. All rows are built before the name is
looked at. -/
def bindData (form : Form) (name : String) (data : List Datum) : Except Error Form := do
  let rows ← data.mapM Row.ofDatum
  form.bind name (.list rows)

/-- The text of the template with the parameters bound so far. -/
def render (form : Form) : Except Error String := Template.render form.template form.params

/-- What can be asked of a form. -/
inductive Call
  | bindScalar (name value : String)
  | bindList (name : String) (rows : List Row)
  | bindData (name : String) (data : List Datum)
  | render

/-- What a call that succeeds answers: how many names are bound, or the rendered text. -/
inductive Reply
  | bound (size : Nat)
  | rendered (text : String)
  deriving DecidableEq

/-- Makes a call: its answer, and the form after it. -/
def answer (form : Form) (call : Call) : Except Error Reply × Form :=
  let binding (result : Except Error Form) : Except Error Reply × Form :=
    match result with
    | .ok bound => (.ok (.bound bound.params.size), bound)
    | .error e => (.error e, form)
  match call with
  | .bindScalar name value => binding (form.bind name (.scalar value))
  | .bindList name rows => binding (form.bind name (.list rows))
  | .bindData name data => binding (form.bindData name data)
  | .render => (form.render.map .rendered, form)

/-- Makes calls in order: their answers, and the form after them. -/
def answerAll (form : Form) : List Call → List (Except Error Reply) × Form
  | [] => ([], form)
  | call :: calls =>
      let (reply, after) := form.answer call
      let (replies, last) := after.answerAll calls
      (reply :: replies, last)

end Form

end RowTemplate
