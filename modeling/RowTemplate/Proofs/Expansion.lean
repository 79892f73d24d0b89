import RowTemplate.Proofs.Mentions
import RowTemplate.Proofs.Unrolling

/-! A block expanded for rows in two parts. A body does not hold the closer of its own block, so no
block of the same list occurs in it at any depth, and its text for a row is the same whatever rows
the list has besides. The block therefore gives for some rows and then others what it gives for the
former and then what it gives for the latter. -/

namespace RowTemplate

/-! ### The copies of a body -/

section Copies

variable (lists : String → Option (List Row)) (names : Row) (list body : String)

/-- The text of the copies of a body for some rows. -/
def copiesText (rows : List Row) : Except Error String :=
  (rows.mapM (copyText lists names list body)).map String.join

theorem copiesText_append (rows rows' : List Row) :
    copiesText lists names list body (rows ++ rows') =
      followedBy (copiesText lists names list body rows)
        (copiesText lists names list body rows') := by
  rw [copiesText, copiesText, copiesText, List.mapM_append]
  cases rows.mapM (copyText lists names list body) with
  | error e => rfl
  | ok texts =>
      cases rows'.mapM (copyText lists names list body) with
      | error e => rfl
      | ok texts' => exact congrArg Except.ok String.join_append

end Copies

namespace Template

/-! ### Lists that a body does not mention -/

variable {lists lists' : String → Option (List Row)} {template list body : String}

/-- Nodes go through no lists but those of the blocks that occur in their template. -/
theorem substituteText_congr_of_occurs
    (hlists : ∀ list body, Occurs (.block list body) template → lists list = lists' list)
    (names : Row) :
    substituteText lists names (parse template) = substituteText lists' names (parse template) := by
  have hmatch : Matches (fun _ => False) (fun _ => False) Eq
      (substituteText lists names (parse template))
      (substituteText lists' names (parse template)) := by
    refine matches_of_nodes (S := Eq) (P := fun node => Occurs node template) ?_ ?_ ?_ ?_
      (parse template) (fun node hnode => .here hnode) names names rfl
    · exact fun list body hblock node hnode => hblock.of_body hnode
    · rintro names _ rfl name _
      exact .of_eq rfl
    · intro list body hblock
      refine .of_eq ?_
      rw [rowsOfBlock, rowsOfBlock, hlists list body hblock]
    · rintro names _ rfl list body rows _ _ row _
      exact .of_eq rfl
  exact hmatch.eq

/-- Without its closer no block occurs, however deep. -/
theorem not_occurs_of_closer (hcloser : ¬ closer list.toList <:+: template.toList)
    (inner : String) : ¬ Occurs (.block list inner) template := fun hoccurs =>
  hcloser ((List.suffix_append _ _).isInfix.trans hoccurs.isInfix_source)

theorem copyText_congr_of_ne (hbody : ¬ closer list.toList <:+: body.toList)
    (hlists : ∀ other, other ≠ list → lists other = lists' other) (names row : Row) :
    copyText lists names list body row = copyText lists' names list body row := by
  have hmentioned : ∀ other inner, Occurs (.block other inner) body →
      lists other = lists' other := by
    intro other inner hoccurs
    refine hlists other ?_
    rintro rfl
    exact not_occurs_of_closer hbody inner hoccurs
  rw [copyText, copyText]
  cases names.join list row with
  | error e => rfl
  | ok joined => exact substituteText_congr_of_occurs hmentioned joined

/-! ### A block with its list bound -/

variable {params bound : Params} {rows : List Row}

/-- A block gives the copies of its body for the rows that its list is bound to, and these copies
look at nothing but what was bound before. -/
theorem render_ofBlock_of_bind (hne : list ≠ "") (hname : '>' ∉ list.toList)
    (hbody : ¬ closer list.toList <:+: body.toList) (hfree : params.get? list = none)
    (hbind : params.bind list (.list rows) = .ok bound) :
    render (ofBlock list body) bound =
      copiesText params.list? params.scalars list body rows := by
  have hrows : rowsOfBlock bound.list? list = .ok rows := by
    rw [rowsOfBlock_eq_ok_iff, Params.list?_of_bind hbind, if_pos rfl]
    exact ⟨hne, rfl⟩
  have hother : ∀ other, other ≠ list → bound.list? other = params.list? other := by
    intro other hother
    rw [Params.list?_of_bind hbind, if_neg hother]
  have hcopies : rows.mapM (copyText bound.list? params.scalars list body) =
      rows.mapM (copyText params.list? params.scalars list body) :=
    mapM_congr_of_mem fun row _ => copyText_congr_of_ne hbody hother params.scalars row
  rw [render_eq, parse_ofBlock hname hbody, substituteText_block, substituteText_nil,
    followedBy_empty, hrows, Params.scalars_of_bind_list hfree hbind, copiesText, ← hcopies]
  rfl

/-- **Rows in two parts.** Let a name be free. A block of that name gives, with the name bound to
some rows and then others, what it gives with the name bound to the former rows and then what it
gives with the name bound to the latter; the first failure of the two counts. -/
theorem render_ofBlock_append_rows {params : Params} {list body : String} (hne : list ≠ "")
    (hname : '>' ∉ list.toList) (hbody : ¬ closer list.toList <:+: body.toList)
    (hfree : params.get? list = none) (rows rows' : List Row) :
    ∃ first second both, params.bind list (.list rows) = .ok first ∧
      params.bind list (.list rows') = .ok second ∧
      params.bind list (.list (rows ++ rows')) = .ok both ∧
      render (ofBlock list body) both =
        followedBy (render (ofBlock list body) first) (render (ofBlock list body) second) := by
  have hfirst := Params.bind_of_free (.list rows) hfree
  have hsecond := Params.bind_of_free (.list rows') hfree
  have hboth := Params.bind_of_free (.list (rows ++ rows')) hfree
  refine ⟨_, _, _, hfirst, hsecond, hboth, ?_⟩
  rw [render_ofBlock_of_bind hne hname hbody hfree hfirst,
    render_ofBlock_of_bind hne hname hbody hfree hsecond,
    render_ofBlock_of_bind hne hname hbody hfree hboth, copiesText_append]

/-- The body holds an opener of its own list, and goes through another list. -/
theorem render_ofBlock_append_rows_nested :
    ∃ (params first second both : Params) (rows rows' : List Row), params.get? "l" = none ∧
      ¬ closer "l".toList <:+: "<#l><k><#m><j></m>".toList ∧
      params.bind "l" (.list rows) = .ok first ∧ params.bind "l" (.list rows') = .ok second ∧
      params.bind "l" (.list (rows ++ rows')) = .ok both ∧
      render (ofBlock "l" "<#l><k><#m><j></m>") first = .ok "<#l>1ab" ∧
      render (ofBlock "l" "<#l><k><#m><j></m>") second = .ok "<#l>2ab<#l>3ab" ∧
      render (ofBlock "l" "<#l><k><#m><j></m>") both = .ok "<#l>1ab<#l>2ab<#l>3ab" := by
  let k (value : String) : Row := ⟨[("k", value)], by simp⟩
  let j (value : String) : Row := ⟨[("j", value)], by simp⟩
  let params : Params := ⟨⟨[("m", .list [j "a", j "b"])], by decide⟩⟩
  have hfree : params.get? "l" = none := by decide
  have hbody : ¬ closer "l".toList <:+: "<#l><k><#m><j></m>".toList := by decide
  obtain ⟨first, second, both, hfirst, hsecond, hboth, hrender⟩ :=
    render_ofBlock_append_rows (by decide) (by decide) hbody hfree [k "1"] [k "2", k "3"]
  have htext : render (ofBlock "l" "<#l><k><#m><j></m>") first = .ok "<#l>1ab" := by
    cases hfirst
    cbv
  have htext' : render (ofBlock "l" "<#l><k><#m><j></m>") second = .ok "<#l>2ab<#l>3ab" := by
    cases hsecond
    cbv
  refine ⟨params, first, second, both, _, _, hfree, hbody, hfirst, hsecond, hboth, htext, htext',
    ?_⟩
  rw [hrender, htext, htext']
  decide

end Template

end RowTemplate
