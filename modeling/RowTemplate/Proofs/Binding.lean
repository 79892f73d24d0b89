import RowTemplate.Proofs.Rendering

/-! Parameters after names have been bound: a name that is bound anew is a scalar or a list as asked
for, and every other name is what it was. Names that are free and distinct can be bound in one
go. -/

namespace RowTemplate.Params

variable {params bound : Params} {name : String} {param : Param}

/-- A row of the list has the key. -/
def HasKey (params : Params) (list key : String) : Prop :=
  ∃ rows row, params.list? list = some rows ∧ row ∈ rows ∧ row.contains key = true

theorem scalar?_eq_none_of_free (h : params.get? name = none) : params.scalar? name = none := by
  rw [scalar?, h]
  rfl

theorem list?_eq_none_of_free (h : params.get? name = none) : params.list? name = none := by
  rw [list?, h]
  rfl

theorem scalar?_of_bind (h : params.bind name param = .ok bound) (n : String) :
    bound.scalar? n = if n = name then param.scalar? else params.scalar? n := by
  rw [scalar?, get?_of_bind h]
  split <;> rfl

theorem list?_of_bind (h : params.bind name param = .ok bound) (n : String) :
    bound.list? n = if n = name then param.list? else params.list? n := by
  rw [list?, get?_of_bind h]
  split <;> rfl

theorem scalars_eq_of_scalar? {names : Row} (h : ∀ n, names.get? n = params.scalar? n) :
    params.scalars = names :=
  Table.eq_of_get? fun n => (get?_scalars params n).trans (h n).symm

/-- A list is no scalar. -/
theorem scalars_of_bind_list {rows : List Row} (hfree : params.get? name = none)
    (hbind : params.bind name (.list rows) = .ok bound) : bound.scalars = params.scalars := by
  refine scalars_eq_of_scalar? fun n => ?_
  rw [get?_scalars, scalar?_of_bind hbind]
  by_cases hn : n = name
  · rw [if_pos hn, hn, scalar?_eq_none_of_free hfree]
    rfl
  · rw [if_neg hn]

/-- A scalar is no list. -/
theorem list?_of_bind_scalar {value : String} (hfree : params.get? name = none)
    (hbind : params.bind name (.scalar value) = .ok bound) : bound.list? = params.list? := by
  funext n
  rw [list?_of_bind hbind]
  by_cases hn : n = name
  · rw [if_pos hn, hn, list?_eq_none_of_free hfree]
    rfl
  · rw [if_neg hn]

theorem get?_eq_none_of_kinds (hscalar : params.scalar? name = none)
    (hlist : params.list? name = none) : params.get? name = none := by
  cases hget : params.get? name with
  | none => rfl
  | some param =>
      rw [scalar?, hget] at hscalar
      rw [list?, hget] at hlist
      cases param with
      | scalar value => cases hscalar
      | list rows => cases hlist

/-! ### Names bound in one go -/

theorem bindAll_of_free {bindings : List (String × Param)} (hnodup : (bindings.map Prod.fst).Nodup)
    (hfree : ∀ binding ∈ bindings, params.get? binding.1 = none) :
    ∃ bound, params.bindAll bindings = .ok bound ∧
      ∀ n, bound.get? n = (bindings.lookup n).or (params.get? n) := by
  induction bindings generalizing params with
  | nil => exact ⟨params, rfl, fun _ => rfl⟩
  | cons binding rest ih =>
      obtain ⟨name, param⟩ := binding
      rw [List.map_cons, List.nodup_cons] at hnodup
      have hother : ∀ later ∈ rest, later.1 ≠ name := fun later hlater heq =>
        hnodup.1 (List.mem_map.2 ⟨later, hlater, heq⟩)
      have hbind := bind_of_free param (hfree _ List.mem_cons_self)
      obtain ⟨bound, hbound, hget⟩ := ih hnodup.2 fun later hlater => by
        rw [get?_of_bind hbind, if_neg (hother later hlater)]
        exact hfree later (List.mem_cons_of_mem _ hlater)
      refine ⟨bound, ?_, fun n => ?_⟩
      · rw [bindAll, List.foldlM_cons, hbind]
        exact hbound
      · rw [hget, get?_of_bind hbind, lookup_cons_eq_ite]
        by_cases hn : n = name
        · have hlookup : rest.lookup n = none := by
            rw [List.lookup_eq_none_iff]
            intro later hlater
            simpa [hn] using (hother later hlater).symm
          rw [if_pos hn, if_pos hn, hlookup]
          rfl
        · rw [if_neg hn, if_neg hn]

/-- Binds the values of a row as scalars, each under its key. -/
def bindRow (params : Params) (row : Row) : Except Error Params :=
  params.bindAll (row.entries.map fun entry => (entry.1, .scalar entry.2))

theorem bindRow_of_free {row : Row} (hfree : ∀ key ∈ row.keys, params.get? key = none) :
    ∃ bound, params.bindRow row = .ok bound ∧
      ∀ n, bound.get? n = ((row.get? n).map Param.scalar).or (params.get? n) := by
  have hnodup := (row.map Param.scalar).nodup_keys
  obtain ⟨bound, hbound, hget⟩ := bindAll_of_free hnodup fun binding hbinding => by
    obtain ⟨entry, hentry, rfl⟩ := List.mem_map.1 hbinding
    exact hfree entry.1 (List.mem_map.2 ⟨entry, hentry, rfl⟩)
  refine ⟨bound, hbound, fun n => ?_⟩
  rw [← Table.get?_map]
  exact hget n

end RowTemplate.Params
