import RowTemplate.Proofs.Binding
import RowTemplate.Proofs.Reading

/-! A block unrolled. A row under expansion and the values of the row bound as scalars answer every
look-up alike, and rows hold no lists; so a block gives for each row what its body gives with the
row bound, as long as no key of the row is taken by a list. -/

namespace RowTemplate

namespace Template

/-- A template that is one block. -/
def ofBlock (list body : String) : String := "<#" ++ list ++ ">" ++ body ++ "</" ++ list ++ ">"

theorem parse_ofBlock {list body : String} (hname : '>' ∉ list.toList)
    (hbody : ¬ closer list.toList <:+: body.toList) :
    parse (ofBlock list body) = [.block list body] := by
  have hsource : (ofBlock list body).toList =
      opener list.toList ++ body.toList ++ closer list.toList ++ [] := by
    simp [ofBlock, opener, closer]
  rw [parse_eq_read, hsource, read_block hname hbody, read_nil, String.ofList_toList,
    String.ofList_toList]

end Template

namespace Params

variable {params : Params} {list body : String} {row : Row}

/-- A body with the values of a row bound as scalars; a key of the row that is a scalar already is a
collision, and the least such key is reported. -/
def unroll (params : Params) (list body : String) (row : Row) : Except Error String :=
  match row.keys.find? fun key => (params.scalar? key).isSome with
  | some key => .error (.collision key list)
  | none => do Template.render body (← params.bindRow row)

theorem unroll_of_free (hfree : ∀ key ∈ row.keys, params.scalar? key = none) :
    params.unroll list body row = params.bindRow row >>= Template.render body := by
  have hfind : row.keys.find? (fun key => (params.scalar? key).isSome) = none := by
    rw [List.find?_eq_none]
    intro key hkey
    simp [hfree key hkey]
  rw [unroll, hfind]

theorem unroll_of_collision {key : String} (hkey : key ∈ row.keys)
    (hscalar : (params.scalar? key).isSome = true)
    (hleast : ∀ k ∈ row.keys, (params.scalar? k).isSome = true → key ≤ k) :
    params.unroll list body row = .error (.collision key list) := by
  rw [unroll, Table.find?_keys_eq_some_iff.2 ⟨hkey, hscalar, hleast⟩]

theorem unroll_cases (list body : String) (hkeys : ∀ key ∈ row.keys, params.list? key = none) :
    (∃ key ∈ row.keys, (params.scalar? key).isSome = true ∧
      (∀ k ∈ row.keys, (params.scalar? k).isSome = true → key ≤ k) ∧
      params.unroll list body row = .error (.collision key list)) ∨
    (∀ key ∈ row.keys, params.scalar? key = none) ∧
      ∃ bound, params.bindRow row = .ok bound ∧
        (∀ n, bound.get? n = ((row.get? n).map Param.scalar).or (params.get? n)) ∧
        params.unroll list body row = Template.render body bound := by
  cases hfind : row.keys.find? fun key => (params.scalar? key).isSome with
  | some key =>
      obtain ⟨hkey, hscalar, hleast⟩ := Table.find?_keys_eq_some_iff.1 hfind
      exact Or.inl ⟨key, hkey, hscalar, hleast, unroll_of_collision hkey hscalar hleast⟩
  | none =>
      have hfree : ∀ key ∈ row.keys, params.scalar? key = none := by
        simpa using List.find?_eq_none.1 hfind
      obtain ⟨bound, hbound, hget⟩ := bindRow_of_free fun key hkey =>
        get?_eq_none_of_kinds (hfree key hkey) (hkeys key hkey)
      refine Or.inr ⟨hfree, bound, hbound, hget, ?_⟩
      rw [unroll_of_free hfree, hbound]
      rfl

theorem copyText_eq_unroll (hkeys : ∀ key ∈ row.keys, params.list? key = none) :
    copyText params.list? params.scalars list body row = params.unroll list body row := by
  have hcontains : ∀ key, params.scalars.contains key = (params.scalar? key).isSome := by
    intro key
    rw [Table.contains, get?_scalars]
  rcases unroll_cases list body hkeys with
    ⟨key, hkey, hscalar, hleast, hunroll⟩ | ⟨hfree, bound, _, hget, hunroll⟩
  · have hjoin : params.scalars.join list row = .error (.collision key list) := by
      refine Table.join_eq_error_iff.2 ⟨key, rfl, hkey, ?_, fun k hk hvisible => ?_⟩
      · rw [hcontains, hscalar]
      · exact hleast k hk (hcontains k ▸ hvisible)
    rw [copyText, hjoin, hunroll]
    rfl
  · have hjoin : params.scalars.join list row = .ok (params.scalars.union row) := by
      refine Table.join_eq_ok_iff.2 ⟨fun key hkey => ?_, rfl⟩
      rw [hcontains, hfree key hkey]
      rfl
    have hscalars : bound.scalars = params.scalars.union row := by
      refine scalars_eq_of_scalar? fun n => ?_
      rw [Table.get?_union, get?_scalars, scalar?, scalar?, hget]
      cases row.get? n <;> rfl
    have hlists : bound.list? = params.list? := by
      funext n
      rw [list?, hget]
      cases hrow : row.get? n with
      | none => rfl
      | some value =>
          rw [hkeys n (Table.mem_keys_iff.2 ((row.contains_iff n).2 ⟨value, hrow⟩))]
          rfl
    rw [copyText, hjoin, hunroll, Template.render_eq, hscalars, hlists]
    rfl

end Params

namespace Template

/-- **Unrolling.** A block gives, for the rows of its list in order and up to the first failure,
what its body gives with the values of the row bound as scalars. A row with a key that is a scalar
already is a collision, for the least such key; otherwise its values can be bound. -/
theorem render_ofBlock_eq_unroll {params : Params} {list body : String} {rows : List Row}
    (hne : list ≠ "") (hname : '>' ∉ list.toList) (hrows : params.list? list = some rows)
    (hbody : ¬ closer list.toList <:+: body.toList)
    (hkeys : ∀ row ∈ rows, ∀ key ∈ row.keys, params.list? key = none) :
    render (ofBlock list body) params = (rows.mapM (params.unroll list body)).map String.join ∧
      (∀ row ∈ rows,
        (∃ key ∈ row.keys, (params.scalar? key).isSome = true ∧
          (∀ k ∈ row.keys, (params.scalar? k).isSome = true → key ≤ k) ∧
          params.unroll list body row = .error (.collision key list)) ∨
        (∀ key ∈ row.keys, params.scalar? key = none) ∧
          ∃ bound, params.bindRow row = .ok bound ∧
            params.unroll list body row = render body bound) ∧
      (rows = [] → render (ofBlock list body) params = .ok "") ∧
      (rows = [.empty] → render (ofBlock list body) params = render body params) := by
  have hcopies : rows.mapM (copyText params.list? params.scalars list body) =
      rows.mapM (params.unroll list body) :=
    mapM_congr_of_mem fun row hrow => Params.copyText_eq_unroll (hkeys row hrow)
  have hunroll : render (ofBlock list body) params =
      (rows.mapM (params.unroll list body)).map String.join := by
    rw [render_eq, parse_ofBlock hname hbody, substituteText_block, substituteText_nil,
      followedBy_empty, rowsOfBlock_eq_ok_iff.2 ⟨hne, hrows⟩, ← hcopies]
    rfl
  refine ⟨hunroll, fun row hrow => ?_, ?_, ?_⟩
  · rcases Params.unroll_cases list body (hkeys row hrow) with
      hcollides | ⟨hfree, bound, hbound, _, hbody⟩
    · exact Or.inl hcollides
    · exact Or.inr ⟨hfree, bound, hbound, hbody⟩
  · rintro rfl
    exact hunroll
  · rintro rfl
    rw [hunroll, List.mapM_cons]
    change (render body params >>= _).map _ = _
    cases render body params with
    | error e => rfl
    | ok text => exact congrArg Except.ok (by simp)

theorem render_ofBlock_eq_unroll_nested :
    ∃ (params : Params) (rows : List Row), params.list? "l" = some rows ∧
      ¬ closer "l".toList <:+: "<#m><k></m>".toList ∧
      (∀ row ∈ rows, ∀ key ∈ row.keys, params.list? key = none) ∧
      rows.mapM (params.unroll "l" "<#m><k></m>") = .ok ["11", "22"] ∧
      render (ofBlock "l" "<#m><k></m>") params = .ok "1122" := by
  let rows : List Row := [⟨[("k", "1")], by decide⟩, ⟨[("k", "2")], by decide⟩]
  let params : Params := ⟨⟨[("l", .list rows), ("m", .list [.empty, .empty])], by decide⟩⟩
  have hrows : params.list? "l" = some rows := by decide
  have hbody : ¬ closer "l".toList <:+: "<#m><k></m>".toList := by decide
  have hkeys : ∀ row ∈ rows, ∀ key ∈ row.keys, params.list? key = none := by decide
  have hcopies : rows.mapM (params.unroll "l" "<#m><k></m>") = .ok ["11", "22"] := by cbv
  obtain ⟨hunroll, _⟩ := render_ofBlock_eq_unroll (by decide) (by decide) hrows hbody hkeys
  refine ⟨params, rows, hrows, hbody, hkeys, hcopies, ?_⟩
  rw [hunroll, hcopies]
  decide

end Template

end RowTemplate
