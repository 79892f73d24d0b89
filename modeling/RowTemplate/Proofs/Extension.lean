import RowTemplate.Proofs.Binding
import RowTemplate.Proofs.Matching

/-! One name more in the parameters. A new list is looked at only by a block of its name, which
fails without it; a new scalar only by a tag of its name, which fails without it, and by a row that
has its name as a key and then collides with it. So apart from these failures a rendering is the
same with the new name and without it. -/

namespace RowTemplate

/-- A further name is visible in the second table, and the tables agree otherwise. -/
structure OneMore (name : String) (names names' : Row) : Prop where
  get?_eq_none : names.get? name = none
  contains : names'.contains name = true
  get?_eq : ∀ n, n ≠ name → names'.get? n = names.get? n

namespace OneMore

variable {name list : String} {names names' row : Row} {lost gained : Error → Prop}

theorem contains_iff (h : OneMore name names names') (n : String) :
    names'.contains n = true ↔ n = name ∨ names.contains n = true := by
  by_cases hn : n = name
  · simp only [hn, h.contains, true_or]
  · simp only [hn, false_or, Table.contains, h.get?_eq n hn]

/-- A row collides for the same key with one name more, or it collides with that name. -/
theorem join_eq_error {e : Error} (h : OneMore name names names')
    (hjoin : names'.join list row = .error e) :
    names.join list row = .error e ∨ (e = .collision name list ∧ row.contains name = true) := by
  obtain ⟨key, rfl, hmem, hvisible, hleast⟩ := Table.join_eq_error_iff.1 hjoin
  rcases (h.contains_iff key).1 hvisible with rfl | hearlier
  · exact Or.inr ⟨rfl, Table.mem_keys_iff.1 hmem⟩
  · refine Or.inl (Table.join_eq_error_iff.2 ⟨key, rfl, hmem, hearlier, fun k hk hkvisible => ?_⟩)
    exact hleast k hk ((h.contains_iff k).2 (Or.inr hkvisible))

theorem matches_join (h : OneMore name names names')
    (hgained : row.contains name = true → gained (.collision name list)) :
    Matches lost gained (OneMore name) (names.join list row) (names'.join list row) := by
  cases hjoin : names'.join list row with
  | error e =>
      rcases h.join_eq_error hjoin with hearlier | ⟨rfl, hrow⟩
      · rw [hearlier]
        exact .same e
      · exact .gained (hgained hrow)
  | ok joined' =>
      obtain ⟨hfree, hjoined'⟩ := Table.join_eq_ok_iff.1 hjoin
      have hkeys : ∀ key ∈ row.keys, key ≠ name ∧ names.contains key = false := by
        intro key hkey
        have hhidden := hfree key hkey
        rw [← Bool.not_eq_true, h.contains_iff, not_or, Bool.not_eq_true] at hhidden
        exact hhidden
      have hrow : row.get? name = none := by
        by_contra hget
        exact (hkeys name (Table.mem_keys_iff.2 (Option.isSome_iff_ne_none.2 hget))).1 rfl
      rw [Table.join_eq_ok_iff.2 ⟨fun key hkey => (hkeys key hkey).2, rfl⟩]
      refine .ok ⟨?_, ?_, fun n hn => ?_⟩
      · rw [Table.get?_union, hrow, h.get?_eq_none]
        rfl
      · rw [Table.contains, hjoined', Table.get?_union, hrow]
        exact h.contains
      · rw [hjoined', Table.get?_union, Table.get?_union, h.get?_eq n hn]

theorem matches_tagText (h : OneMore name names names') (hlost : lost (.notSet name .scalar))
    (n : String) : Matches lost gained Eq (tagText names n) (tagText names' n) := by
  by_cases hn : n = name
  · have hfails : tagText names n = .error (.notSet name .scalar) := by
      rw [tagText, hn, h.get?_eq_none]
    rw [hfails]
    exact .lost hlost
  · refine .of_eq ?_
    rw [tagText, tagText, h.get?_eq n hn]

end OneMore

namespace Template

variable {params bound : Params} {name : String}

theorem matches_rowsOfBlock_of_bind_list {rows : List Row} (hfree : params.get? name = none)
    (hbind : params.bind name (.list rows) = .ok bound) (list : String) :
    Matches (· = .notSet name .list) (fun _ => False) Eq
      (rowsOfBlock params.list? list) (rowsOfBlock bound.list? list) := by
  unfold rowsOfBlock
  by_cases hempty : list.isEmpty = true
  · rw [if_pos hempty, if_pos hempty]
    exact .of_eq rfl
  · rw [if_neg hempty, if_neg hempty, Params.list?_of_bind hbind]
    by_cases hlist : list = name
    · rw [hlist, Params.list?_eq_none_of_free hfree]
      exact .lost rfl
    · rw [if_neg hlist]
      exact .of_eq rfl

/-- With one list more, only a failure for the want of that list can change. -/
theorem matches_render_of_bind_list {rows : List Row} (hfree : params.get? name = none)
    (hbind : params.bind name (.list rows) = .ok bound) (template : String) :
    Matches (· = .notSet name .list) (fun _ => False) Eq
      (render template params) (render template bound) := by
  rw [render_eq, render_eq, Params.scalars_of_bind_list hfree hbind]
  refine matches_substituteText (S := Eq) ?_ ?_ ?_ (parse template) _ _ rfl
  · rintro names _ rfl n
    exact .of_eq rfl
  · exact matches_rowsOfBlock_of_bind_list hfree hbind
  · rintro names _ rfl list rows' _ row _
    exact .of_eq rfl

/-- With one scalar more, only a failure for the want of that scalar can go, and only a collision of
a row with that scalar can come. -/
theorem matches_render_of_bind_scalar {value : String} (hfree : params.get? name = none)
    (hbind : params.bind name (.scalar value) = .ok bound) (template : String) :
    Matches (· = .notSet name .scalar)
      (fun e => ∃ list, params.HasKey list name ∧ e = .collision name list) Eq
      (render template params) (render template bound) := by
  have hmore : OneMore name params.scalars bound.scalars := by
    refine ⟨?_, ?_, fun n hn => ?_⟩
    · rw [Params.get?_scalars, Params.scalar?_eq_none_of_free hfree]
    · rw [Table.contains, Params.get?_scalars, Params.scalar?_of_bind hbind, if_pos rfl]
      rfl
    · rw [Params.get?_scalars, Params.get?_scalars, Params.scalar?_of_bind hbind, if_neg hn]
  rw [render_eq, render_eq, Params.list?_of_bind_scalar hfree hbind]
  refine matches_substituteText (S := OneMore name) ?_ ?_ ?_ (parse template) _ _ hmore
  · refine fun names names' h n => h.matches_tagText ?_ n
    rfl
  · exact fun list => .of_eq rfl
  · exact fun names names' h list rows hrows row hrow =>
      h.matches_join fun hkey => ⟨list, ⟨rows, row, hrows, hrow, hkey⟩, rfl⟩

/-- **One name more.** A free name can be bound. As a list it changes no rendering but one that
fails for the want of the list. As a scalar it changes no rendering but one that fails for the want
of the scalar, if no row has the name as a key; and in any case a text stays the same text, or a row
with that key collides with the new scalar. -/
theorem render_of_bind {params : Params} {name : String} (hfree : params.get? name = none)
    (template : String) :
    (∀ rows, ∃ bound, params.bind name (.list rows) = .ok bound ∧
      (render template params ≠ .error (.notSet name .list) →
        render template bound = render template params)) ∧
    ∀ value, ∃ bound, params.bind name (.scalar value) = .ok bound ∧
      ((∀ list, ¬ params.HasKey list name) →
        render template params ≠ .error (.notSet name .scalar) →
          render template bound = render template params) ∧
      ∀ text, render template params = .ok text →
        render template bound = .ok text ∨ ∃ list, params.HasKey list name ∧
          render template bound = .error (.collision name list) := by
  constructor
  · intro rows
    have hbind := Params.bind_of_free (.list rows) hfree
    refine ⟨_, hbind, fun hset => ?_⟩
    rcases (matches_render_of_bind_list hfree hbind template).eq_or with
      heq | ⟨e, rfl, hfails⟩ | ⟨e, hfalse, _⟩
    · exact heq
    · exact absurd hfails hset
    · exact hfalse.elim
  · intro value
    have hbind := Params.bind_of_free (.scalar value) hfree
    have hmatches := (matches_render_of_bind_scalar hfree hbind template).eq_or
    refine ⟨_, hbind, fun hkeys hset => ?_, fun text htext => ?_⟩
    · rcases hmatches with heq | ⟨e, rfl, hfails⟩ | ⟨e, ⟨list, hkey, _⟩, _⟩
      · exact heq
      · exact absurd hfails hset
      · exact absurd hkey (hkeys list)
    · rcases hmatches with heq | ⟨e, rfl, hfails⟩ | ⟨e, ⟨list, hkey, rfl⟩, hfails⟩
      · exact Or.inl (heq.trans htext)
      · rw [htext] at hfails
        cases hfails
      · exact Or.inr ⟨list, hkey, hfails⟩

theorem render_of_bind_key_of_row :
    ∃ params bound bound' : Params, params.get? "k" = none ∧
      render "<#l><k></l>" params = .ok "1" ∧
      params.bind "k" (.list []) = .ok bound ∧ render "<#l><k></l>" bound = .ok "1" ∧
      params.bind "k" (.scalar "2") = .ok bound' ∧
      ∃ list, params.HasKey list "k" ∧
        render "<#l><k></l>" bound' = .error (.collision "k" list) := by
  let params : Params := ⟨⟨[("l", .list [⟨[("k", "1")], by decide⟩])], by decide⟩⟩
  have hfree : params.get? "k" = none := by decide
  have hrender : render "<#l><k></l>" params = .ok "1" := by cbv
  have hset : render "<#l><k></l>" params ≠ .error (.notSet "k" .list) := by
    intro hfails
    rw [hrender] at hfails
    cases hfails
  obtain ⟨hlists, hscalars⟩ := render_of_bind hfree "<#l><k></l>"
  obtain ⟨bound, hbind, hlist⟩ := hlists []
  obtain ⟨bound', hbind', _, hscalar⟩ := hscalars "2"
  refine ⟨params, bound, bound', hfree, hrender, hbind, ?_, hbind', ?_⟩
  · rw [hlist hset, hrender]
  · rcases hscalar "1" hrender with hsame | hcollides
    · have hbound : bound' = ⟨params.table.insert "k" (.scalar "2")⟩ :=
        Except.ok.inj (hbind'.symm.trans (Params.bind_of_free _ hfree))
      have hfails : render "<#l><k></l>" ⟨params.table.insert "k" (.scalar "2")⟩ =
          .error (.collision "k" "l") := by
        cbv
      rw [hbound, hfails] at hsame
      cases hsame
    · exact hcollides

end Template

end RowTemplate
