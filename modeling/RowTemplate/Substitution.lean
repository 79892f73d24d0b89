import RowTemplate.Params
import RowTemplate.Template.Scan

/-! What a template stands for, said without a stack of rows. There is one table of the visible
names; a row is joined to it for the body of a block. Values stay apart from the text around them,
so the names may be bound to anything. -/

namespace RowTemplate

universe u

variable {α : Type u}

/-- A stretch of the template's text, or a value in the place of a tag. -/
inductive Piece (α : Type u)
  | literal (text : String)
  | value (a : α)

namespace Piece

/-- The text of a piece, where values have texts. -/
def text (spell : α → String) : Piece α → String
  | literal text => text
  | value a => spell a

/-- The text of pieces in order. -/
def texts (spell : α → String) (pieces : List (Piece α)) : String :=
  String.join (pieces.map (text spell))

end Piece

namespace Table

/-- All entries of two tables; where both have a key, the second table's value counts. -/
def union (t u : Table α) : Table α := u.entries.foldl (fun t e => t.insert e.1 e.2) t

/-- Joins a row to the visible names; it must not bind one of them again. -/
def join (scope : Table α) (list : String) (row : Table α) : Except Error (Table α) :=
  match row.keys.find? scope.contains with
  | some key => .error (.collision key list)
  | none => .ok (scope.union row)

end Table

/-- The rows that a block goes through. -/
def rowsOfBlock (lists : String → Option (List (Table α))) (list : String) :
    Except Error (List (Table α)) :=
  if list.isEmpty then .error (.malformedBlock "the list name is empty")
  else
    match lists list with
    | some rows => .ok rows
    | none => .error (.notSet list .list)

/-- The pieces that nodes stand for, where the lists and the visible names are given. -/
def substitute (lists : String → Option (List (Table α))) :
    Table α → List Node → Except Error (List (Piece α))
  | _, [] => .ok []
  | scope, .text content :: rest => return .literal content :: (← substitute lists scope rest)
  | scope, .tag name :: rest =>
      match scope.get? name with
      | some a => return .value a :: (← substitute lists scope rest)
      | none => .error (.notSet name .scalar)
  | scope, .block list body :: rest => do
      let rows ← rowsOfBlock lists list
      let copies ← rows.mapM fun row => do
        substitute lists (← scope.join list row) (Template.parse body)
      return copies.flatten ++ (← substitute lists scope rest)
termination_by _ nodes => ((Node.sources nodes).length, nodes.length)
decreasing_by
  · exact .right' _ (by simp) (Nat.lt_succ_self _)
  · exact .right' _ (by simp) (Nat.lt_succ_self _)
  · exact .left _ _ (by simp [Node.source, opener]; omega)
  · exact .right' _ (by simp) (Nat.lt_succ_self _)

namespace Params

/-- The scalars of the parameters, as one table. -/
def scalars (params : Params) : Row :=
  .ofList (params.table.entries.filterMap fun e => e.2.scalar?.map (e.1, ·))

/-- The text that a template stands for. -/
def substitute (params : Params) (template : String) : Except Error String :=
  (RowTemplate.substitute params.list? params.scalars (Template.parse template)).map
    (Piece.texts id)

end Params

end RowTemplate
