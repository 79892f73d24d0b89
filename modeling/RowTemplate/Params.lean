import RowTemplate.Error
import RowTemplate.Table

/-! The parameters of a template. Scalars and lists share one table, in which every name is bound
at most once: the first binding of a name stays. -/

namespace RowTemplate

/-- One element of a list: the values that the names in a block's body stand for. -/
abbrev Row := Table String

/-- What a name is bound to. -/
inductive Param
  | scalar (value : String)
  | list (rows : List Row)
  deriving DecidableEq

namespace Param

def kind : Param → Kind
  | scalar _ => .scalar
  | list _ => .list

def scalar? : Param → Option String
  | scalar value => some value
  | list _ => none

def list? : Param → Option (List Row)
  | scalar _ => none
  | list rows => some rows

end Param

/-- Names bound to scalars and to lists, each name once. -/
structure Params where
  table : Table Param
  deriving DecidableEq

namespace Params

/-- Nothing bound. -/
def empty : Params := ⟨.empty⟩

instance : Inhabited Params := ⟨empty⟩

def get? (params : Params) (name : String) : Option Param := params.table.get? name

/-- The value of a scalar; nothing for a list. -/
def scalar? (params : Params) (name : String) : Option String :=
  (params.get? name).bind Param.scalar?

/-- The rows of a list; nothing for a scalar. -/
def list? (params : Params) (name : String) : Option (List Row) :=
  (params.get? name).bind Param.list?

def kind? (params : Params) (name : String) : Option Kind := (params.get? name).map Param.kind

def contains (params : Params) (name : String) : Bool := params.table.contains name

/-- How many names are bound. -/
def size (params : Params) : Nat := params.table.size

def isEmpty (params : Params) : Bool := params.table.isEmpty

/-- Binds a name that is still free. -/
def bind (params : Params) (name : String) (param : Param) : Except Error Params :=
  match params.get? name with
  | some earlier => .error (.alreadySet name earlier.kind param.kind)
  | none => .ok ⟨params.table.insert name param⟩

/-- Tries to bind a name: the outcome, and the parameters after it. A name that is taken keeps its
binding. -/
def attempt (params : Params) (name : String) (param : Param) : Except Error Unit × Params :=
  match params.bind name param with
  | .ok bound => (.ok (), bound)
  | .error e => (.error e, params)

/-- Tries to bind names in order: the outcomes, and the parameters after them. -/
def attemptAll (params : Params) : List (String × Param) → List (Except Error Unit) × Params
  | [] => ([], params)
  | (name, param) :: rest =>
      let (outcome, after) := params.attempt name param
      let (outcomes, last) := after.attemptAll rest
      (outcome :: outcomes, last)

/-- Binds names in order, up to the first one that is taken. -/
def bindAll (params : Params) (bindings : List (String × Param)) : Except Error Params :=
  bindings.foldlM (fun params binding => params.bind binding.1 binding.2) params

@[simp] theorem get?_empty (name : String) : empty.get? name = none := rfl

theorem bind_of_free {params : Params} {name : String} (param : Param)
    (h : params.get? name = none) :
    params.bind name param = .ok ⟨params.table.insert name param⟩ := by
  simp [bind, h]

theorem bind_of_taken {params : Params} {name : String} {earlier : Param} (param : Param)
    (h : params.get? name = some earlier) :
    params.bind name param = .error (.alreadySet name earlier.kind param.kind) := by
  simp [bind, h]

/-- After a successful binding, the name has the new value and every other name what it had. -/
theorem get?_of_bind {params bound : Params} {name : String} {param : Param}
    (h : params.bind name param = .ok bound) (n : String) :
    bound.get? n = if n = name then some param else params.get? n := by
  cases hname : params.get? name with
  | some earlier => simp [bind_of_taken param hname] at h
  | none =>
      rw [bind_of_free param hname] at h
      cases h
      exact Table.get?_insert ..

end Params

end RowTemplate
