import RowTemplate.Substitution

/-! The shape of parameters: which names are bound, how many rows the lists have and which keys the
rows have, but no value. The values of a shape are the places where parameters have theirs. -/

namespace RowTemplate

/-- A place for a value: a scalar, or a key in a row of a list. -/
inductive Place
  | scalar (name : String)
  | cell (list : String) (row : Nat) (key : String)
  deriving DecidableEq

/-- The kind of a binding, with the keys of each row of a list. -/
inductive ParamShape
  | scalar
  | list (rows : List (List String))
  deriving DecidableEq

namespace Params

/-- What is bound, without the values. -/
def shape (params : Params) : List (String × ParamShape) :=
  params.table.entries.map fun
    | (name, .scalar _) => (name, .scalar)
    | (name, .list rows) => (name, .list (rows.map Table.keys))

/-- The value at a place. -/
def value? (params : Params) : Place → Option String
  | .scalar name => params.scalar? name
  | .cell list row key => do (← (← params.list? list)[row]?).get? key

end Params

/-- The places of the scalars of a shape. -/
def placesOfScalars (shape : List (String × ParamShape)) : Table Place :=
  .ofList (shape.filterMap fun
    | (name, .scalar) => some (name, .scalar name)
    | (_, .list _) => none)

/-- The places in the rows of a list. -/
def placesOfList? (shape : List (String × ParamShape)) (list : String) :
    Option (List (Table Place)) :=
  match shape.lookup list with
  | some (.list rows) =>
      some (rows.mapIdx fun i keys => .ofList (keys.map fun key => (key, .cell list i key)))
  | _ => none

/-- The stretches of text and the places that a template stands for, read off a shape. -/
def outline (shape : List (String × ParamShape)) (template : String) :
    Except Error (List (Piece Place)) :=
  substitute (placesOfList? shape) (placesOfScalars shape) (Template.parse template)

end RowTemplate
