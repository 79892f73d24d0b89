import RowTemplate.Datum.Failure

/-! The ways in which binding, rendering and writing fail, each with the text that it shows. -/

namespace RowTemplate

/-- What a name may be bound to: a scalar, for tags, or a list of rows, for blocks. -/
inductive Kind
  | scalar
  | list
  deriving DecidableEq

namespace Kind

/-- The word for a kind in texts. -/
def text : Kind → String
  | scalar => "scalar"
  | list => "list"

end Kind

/-- Why something failed. -/
inductive Error
  /-- A failure described by its text alone. -/
  | message (text : String)
  /-- A failure described by a text, with the failure that caused it. -/
  | context (text : String) (source : Error)
  /-- A name bound a second time: `existing` is its kind, `attempted` the kind asked for. -/
  | alreadySet (name : String) (existing attempted : Kind)
  /-- A tag whose name is no scalar, or a block whose name is no list. -/
  | notSet (name : String) (kind : Kind)
  /-- A row of `list` with a key that is visible already. -/
  | collision (name list : String)
  /-- A block that cannot be expanded. -/
  | malformedBlock (reason : String)
  /-- A step left of the first column. -/
  | negativeIndentation
  /-- A datum without a JSON form. -/
  | unserializable (failure : Datum.Failure)
  deriving DecidableEq

namespace Error

/-- The text that an error shows; names stand in it as they are. -/
def text : Error → String
  | message text => text
  | context text _ => text
  | alreadySet name existing attempted =>
      if existing = attempted then s!"`{name}` already set"
      else s!"`{name}` already set as a {existing.text} parameter"
  | notSet name .scalar => s!"Tag `{name}` not found"
  | notSet name .list => s!"List parameter `{name}` not set"
  | collision name list => s!"Parameter collision: `{name}` from a row of `{list}` is already bound"
  | malformedBlock reason => s!"Malformed block tag: {reason}"
  | negativeIndentation => "Negative indentation"
  | unserializable failure => failure.text

/-- The causes of an error, its own cause first. -/
def sources : Error → List Error
  | context _ source => source :: source.sources
  | _ => []

end Error

end RowTemplate
