import RowTemplate.Datum
import RowTemplate.Params

/-! Rows from data. A datum becomes a row if its JSON form is an object whose values all have a
text: strings as they are, booleans by their names, and numbers as a printer writes them. -/

namespace RowTemplate

namespace Json

/-- The text of a value in a row; `null`, arrays and objects have none. -/
def rowText? (printer : Printer) : Json → Option String
  | string s => some s
  | number n => some (printer.number n)
  | bool true => some "true"
  | bool false => some "false"
  | _ => none

end Json

namespace Row

/-- A member of an object as a pair of a row. -/
def pairOfMember (printer : Json.Printer) (member : String × Json) :
    Except Error (String × String) :=
  match member.2.rowText? printer with
  | some text => .ok (member.1, text)
  | none =>
      let text := printer.value member.2
      .error (.message
        s!"Row value `{member.1}` must be a string, a number or a boolean, got `{text}`")

/-- The row of a JSON value. Members are taken in key order, up to the first without a text. -/
def ofJson (printer : Json.Printer) : Json → Except Error Row
  | .object members => Table.ofList <$> members.mapM (pairOfMember printer)
  | _ => .error (.message "Creating a Row from a value that is not an object")

/-- The row of a datum, with numbers and values as a printer writes them. -/
def ofDatumBy (printer : Json.Printer) (datum : Datum) : Except Error Row :=
  match datum.toJson with
  | .ok value => ofJson printer value
  | .error failure => .error (.unserializable failure)

/-- The row of a datum. -/
def ofDatum (datum : Datum) : Except Error Row := ofDatumBy .compact datum

end Row

end RowTemplate
