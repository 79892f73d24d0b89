import RowTemplate.Params

/-! What is visible while a template is rendered: the rows that are being expanded, innermost
first, over the parameters. A row enters only if it hides nothing, so no name is ever shadowed. -/

namespace RowTemplate

/-- A row under expansion, with the list that it comes from. -/
structure Frame where
  list : String
  row : Row
  deriving DecidableEq

/-- The frames of the rows under expansion, innermost first, over the parameters. -/
structure Scope where
  params : Params
  frames : List Frame
  deriving DecidableEq

namespace Scope

/-- The scope outside every block. -/
def ofParams (params : Params) : Scope := ⟨params, []⟩

/-- The value of a name: in the innermost row that has it, else as a scalar parameter. -/
def lookup (scope : Scope) (name : String) : Option String :=
  (scope.frames.findSome? (·.row.get? name)).or (scope.params.scalar? name)

/-- The rows of a list. Lists are parameters only: rows hold no lists. -/
def rows? (scope : Scope) (list : String) : Option (List Row) := scope.params.list? list

def isVisible (scope : Scope) (name : String) : Bool := (scope.lookup name).isSome

/-- Puts a row in front. A row with a visible key is refused, and the least such key reported. -/
def enter (scope : Scope) (frame : Frame) : Except Error Scope :=
  match frame.row.keys.find? scope.isVisible with
  | some key => .error (.collision key frame.list)
  | none => .ok { scope with frames := frame :: scope.frames }

/-- Takes the innermost row away. -/
def leave (scope : Scope) : Scope := { scope with frames := scope.frames.tail }

/-- How many rows are under expansion. -/
def depth (scope : Scope) : Nat := scope.frames.length

theorem enter_eq_ok_iff {scope inner : Scope} {frame : Frame} :
    scope.enter frame = .ok inner ↔
      (∀ key ∈ frame.row.keys, scope.isVisible key = false) ∧
        inner = { scope with frames := frame :: scope.frames } := by
  unfold enter
  split
  case h_1 key hkey =>
    have hmem := List.mem_of_find?_eq_some hkey
    have hvisible := List.find?_some hkey
    simp only [reduceCtorEq, false_iff, not_and]
    intro h
    simp [h key hmem] at hvisible
  case h_2 hnone =>
    have hfree : ∀ key ∈ frame.row.keys, scope.isVisible key = false := by
      simpa using List.find?_eq_none.1 hnone
    exact ⟨fun h => ⟨hfree, (Except.ok.inj h).symm⟩, fun h => congrArg Except.ok h.2.symm⟩

theorem leave_of_enter {scope inner : Scope} {frame : Frame} (h : scope.enter frame = .ok inner) :
    inner.leave = scope := by
  rw [(enter_eq_ok_iff.1 h).2, leave]
  rfl

/-- Inside a row, its keys have its values and every other name what it had outside. -/
theorem lookup_of_enter {scope inner : Scope} {frame : Frame} (h : scope.enter frame = .ok inner)
    (name : String) : inner.lookup name = (frame.row.get? name).or (scope.lookup name) := by
  rw [(enter_eq_ok_iff.1 h).2]
  simp only [lookup, List.findSome?_cons]
  cases frame.row.get? name <;> rfl

end Scope

end RowTemplate
