import RowTemplate.Params.Shape
import RowTemplate.Proofs.Rendering

/-! Rendering does not look at values. The outline of a template is read off the shape of the
parameters, with a place for each value; with the values put into their places it is the rendering.
So parameters of one shape fail alike, or give texts that are cut into the same pieces. -/

namespace RowTemplate

namespace ParamShape

/-- A binding without its values. -/
def ofParam : Param → ParamShape
  | .scalar _ => .scalar
  | .list rows => .list (rows.map Table.keys)

end ParamShape

namespace Params

/-- The value at a place that the parameters have. -/
def valueAt (params : Params) (place : Place) : String := (params.value? place).getD ""

theorem shape_eq (params : Params) : params.shape = (params.table.map ParamShape.ofParam).entries := by
  unfold shape Table.map
  apply List.map_congr_left
  rintro ⟨name, param⟩ _
  cases param <;> rfl

theorem lookup_shape (params : Params) (name : String) :
    params.shape.lookup name = (params.get? name).map ParamShape.ofParam := by
  rw [shape_eq]
  exact Table.get?_map ParamShape.ofParam params.table name

/-! ### The places of the scalars -/

/-- The place that an entry of a shape gives to its name. -/
def scalarPlace? (entry : String × ParamShape) : Option (String × Place) :=
  if entry.2 = .scalar then some (entry.1, .scalar entry.1) else none

theorem scalarPlace?_eq_some_iff {entry : String × ParamShape} {kept : String × Place} :
    scalarPlace? entry = some kept ↔ entry.2 = .scalar ∧ kept = (entry.1, .scalar entry.1) := by
  rw [scalarPlace?]
  split
  case isTrue h => simp [h, eq_comm]
  case isFalse h => simp [h]

theorem placesOfScalars_eq (shape : List (String × ParamShape)) :
    placesOfScalars shape = .ofList (shape.filterMap scalarPlace?) := by
  rw [placesOfScalars]
  congr 2
  funext entry
  obtain ⟨name, shape⟩ := entry
  cases shape <;> rfl

theorem get?_placesOfScalars (params : Params) (name : String) (place : Place) :
    (placesOfScalars params.shape).get? name = some place ↔
      place = .scalar name ∧ ∃ value, params.scalar? name = some value := by
  have hnodup : ((params.shape.filterMap scalarPlace?).map Prod.fst).Nodup := by
    rw [shape_eq]
    refine Table.nodup_filterMap _ fun entry kept hkept => ?_
    rw [(scalarPlace?_eq_some_iff.1 hkept).2]
  have hscalar : (name, ParamShape.scalar) ∈ params.shape ↔
      ∃ value, params.scalar? name = some value := by
    rw [shape_eq, Table.mem_entries_iff, Table.get?_map, scalar?, get?]
    cases params.table.get? name with
    | none => simp
    | some param => cases param <;> simp [ParamShape.ofParam, Param.scalar?]
  rw [placesOfScalars_eq, Table.get?_ofList_eq_some_iff hnodup, List.mem_filterMap, ← hscalar]
  constructor
  · rintro ⟨⟨key, shape⟩, hmem, hkept⟩
    obtain ⟨hshape, hpair⟩ := scalarPlace?_eq_some_iff.1 hkept
    cases hpair
    cases hshape
    exact ⟨rfl, hmem⟩
  · rintro ⟨rfl, hmem⟩
    exact ⟨(name, .scalar), hmem, scalarPlace?_eq_some_iff.2 ⟨rfl, rfl⟩⟩

theorem map_placesOfScalars (params : Params) :
    (placesOfScalars params.shape).map params.valueAt = params.scalars := by
  apply Table.eq_of_get?
  intro name
  apply Option.ext
  intro value
  rw [Table.get?_map, Option.map_eq_some_iff, get?_scalars]
  constructor
  · rintro ⟨place, hplace, rfl⟩
    obtain ⟨rfl, value, hvalue⟩ := (params.get?_placesOfScalars name place).1 hplace
    rw [valueAt, value?, hvalue, Option.getD_some]
  · intro hvalue
    refine ⟨.scalar name, (params.get?_placesOfScalars name _).2 ⟨rfl, value, hvalue⟩, ?_⟩
    rw [valueAt, value?, hvalue, Option.getD_some]

/-! ### The places in the rows -/

/-- The places of the keys of a row. -/
def placesOfRow (list : String) (i : Nat) (keys : List String) : Table Place :=
  .ofList (keys.map fun key => (key, .cell list i key))

theorem get?_placesOfRow (list : String) (i : Nat) (row : Row) (key : String) (place : Place) :
    (placesOfRow list i row.keys).get? key = some place ↔
      place = .cell list i key ∧ ∃ value, row.get? key = some value := by
  have hnodup : ((row.keys.map fun key => (key, Place.cell list i key)).map Prod.fst).Nodup := by
    rw [List.map_map]
    exact (List.map_id row.keys).symm ▸ row.nodup_keys
  rw [placesOfRow, Table.get?_ofList_eq_some_iff hnodup, List.mem_map, ← Table.contains_iff,
    ← Table.mem_keys_iff]
  constructor
  · rintro ⟨key', hmem, hpair⟩
    cases hpair
    exact ⟨rfl, hmem⟩
  · rintro ⟨rfl, hmem⟩
    exact ⟨key, hmem, rfl⟩

theorem value?_cell {params : Params} {list : String} {rows : List Row} {row : Row} {i : Nat}
    (hrows : params.list? list = some rows) (hrow : rows[i]? = some row) (key : String) :
    params.value? (.cell list i key) = row.get? key := by
  simp [value?, hrows, hrow]

theorem map_placesOfRow {params : Params} {list : String} {rows : List Row} {row : Row} {i : Nat}
    (hrows : params.list? list = some rows) (hrow : rows[i]? = some row) :
    (placesOfRow list i row.keys).map params.valueAt = row := by
  apply Table.eq_of_get?
  intro key
  apply Option.ext
  intro value
  rw [Table.get?_map, Option.map_eq_some_iff]
  constructor
  · rintro ⟨place, hplace, rfl⟩
    obtain ⟨rfl, value, hvalue⟩ := (get?_placesOfRow list i row key place).1 hplace
    rw [valueAt, value?_cell hrows hrow, hvalue, Option.getD_some]
  · intro hvalue
    refine ⟨.cell list i key, (get?_placesOfRow list i row key _).2 ⟨rfl, value, hvalue⟩, ?_⟩
    rw [valueAt, value?_cell hrows hrow, hvalue, Option.getD_some]

theorem placesOfList?_eq (params : Params) (list : String) :
    placesOfList? params.shape list =
      (params.list? list).map fun rows => (rows.map Table.keys).mapIdx (placesOfRow list) := by
  rw [placesOfList?, lookup_shape, list?]
  cases params.get? list with
  | none => rfl
  | some param => cases param <;> rfl

theorem mapLists_placesOfList? (params : Params) :
    mapLists params.valueAt (placesOfList? params.shape) = params.list? := by
  funext list
  rw [mapLists, placesOfList?_eq]
  cases hrows : params.list? list with
  | none => rfl
  | some rows =>
      change some _ = some _
      congr 1
      apply List.ext_getElem?
      intro i
      rw [List.getElem?_map, List.getElem?_mapIdx, List.getElem?_map]
      cases hrow : rows[i]? with
      | none => rfl
      | some row => exact congrArg some (map_placesOfRow hrows hrow)

/-! ### The outline -/

theorem all_placesOfScalars (params : Params) :
    (placesOfScalars params.shape).All fun place => (params.value? place).isSome := by
  intro name place hplace
  obtain ⟨rfl, value, hvalue⟩ := (params.get?_placesOfScalars name place).1 hplace
  rw [value?, hvalue, Option.isSome_some]

theorem all_placesOfList? {params : Params} {list : String} {tables : List (Table Place)}
    (h : placesOfList? params.shape list = some tables) (table : Table Place)
    (hmem : table ∈ tables) : table.All fun place => (params.value? place).isSome := by
  rw [placesOfList?_eq] at h
  obtain ⟨rows, hrows, rfl⟩ := Option.map_eq_some_iff.1 h
  obtain ⟨i, hi, rfl⟩ := List.mem_mapIdx.1 hmem
  have hrow : i < rows.length := by rwa [List.length_map] at hi
  rw [List.getElem_map]
  intro key place hplace
  obtain ⟨rfl, value, hvalue⟩ := (get?_placesOfRow list i _ key place).1 hplace
  rw [value?_cell hrows (List.getElem?_eq_getElem hrow) key, hvalue, Option.isSome_some]

end Params

theorem render_eq_outline (template : String) (params : Params) :
    Template.render template params =
      (outline params.shape template).map (Piece.texts params.valueAt) := by
  have hmap := substitute_map params.valueAt (placesOfList? params.shape)
    (Template.parse template) (placesOfScalars params.shape)
  rw [params.mapLists_placesOfList?, params.map_placesOfScalars] at hmap
  rw [Template.render_eq, substituteText, hmap, outline]
  cases substitute (placesOfList? params.shape) (placesOfScalars params.shape)
      (Template.parse template) with
  | error e => rfl
  | ok pieces =>
      change Except.ok _ = Except.ok _
      rw [Piece.texts_map]
      rfl

theorem outline_pieces {template : String} {params : Params} {pieces : List (Piece Place)}
    (h : outline params.shape template = .ok pieces) (piece : Piece Place) (hmem : piece ∈ pieces) :
    piece.From template.toList fun place => (params.value? place).isSome := by
  have hlists : ∀ list tables, placesOfList? params.shape list = some tables → ∀ table ∈ tables,
      table.All fun place => (params.value? place).isSome :=
    fun list tables htables => Params.all_placesOfList? htables
  have hpieces := pieces_of_substitute hlists (Template.parse template) params.all_placesOfScalars h
  rw [Template.sources_parse] at hpieces
  exact hpieces piece hmem

/-- **Opaque values.** With parameters of one shape a template fails with the same error, or gives
texts made of the same pieces. The pieces are stretches of the template and places of values; the
template and the shape alone determine them, and each text has its own values in the places. -/
theorem render_of_shape_eq (template : String) {p q : Params} (hshape : p.shape = q.shape) :
    (∃ e, outline p.shape template = .error e ∧
      Template.render template p = .error e ∧ Template.render template q = .error e) ∨
    ∃ pieces, outline p.shape template = .ok pieces ∧
      (∀ piece ∈ pieces, piece.From template.toList fun place =>
        (p.value? place).isSome ∧ (q.value? place).isSome) ∧
      Template.render template p = .ok (Piece.texts p.valueAt pieces) ∧
      Template.render template q = .ok (Piece.texts q.valueAt pieces) := by
  have hp := render_eq_outline template p
  have hq := render_eq_outline template q
  rw [← hshape] at hq
  cases houtline : outline p.shape template with
  | error e =>
      rw [houtline] at hp hq
      exact Or.inl ⟨e, rfl, hp, hq⟩
  | ok pieces =>
      rw [houtline] at hp hq
      refine Or.inr ⟨pieces, rfl, fun piece hmem => ?_, hp, hq⟩
      have hfromp := outline_pieces houtline piece hmem
      have hfromq := outline_pieces (hshape ▸ houtline) piece hmem
      cases piece with
      | literal text => exact hfromp
      | value place => exact ⟨hfromp, hfromq⟩

theorem render_of_shape_eq_marks :
    ∃ p q : Params, p.shape = q.shape ∧
      Template.render "<t><#l><k></l>" p = .ok "<k></l>" ∧
      Template.render "<t><#l><k></l>" q = .ok "12" ∧
      ∃ pieces, outline p.shape "<t><#l><k></l>" = .ok pieces ∧
        Piece.texts p.valueAt pieces = "<k></l>" ∧ Piece.texts q.valueAt pieces = "12" := by
  let p : Params := ⟨⟨[("l", .list [⟨[("k", "</l>")], by decide⟩]), ("t", .scalar "<k>")], by decide⟩⟩
  let q : Params := ⟨⟨[("l", .list [⟨[("k", "2")], by decide⟩]), ("t", .scalar "1")], by decide⟩⟩
  have hshape : p.shape = q.shape := by decide
  have hp : Template.render "<t><#l><k></l>" p = .ok "<k></l>" := by cbv
  have hq : Template.render "<t><#l><k></l>" q = .ok "12" := by cbv
  rcases render_of_shape_eq "<t><#l><k></l>" hshape with
    ⟨e, _, herror, _⟩ | ⟨pieces, houtline, _, hokp, hokq⟩
  · rw [hp] at herror
    cases herror
  · refine ⟨p, q, hshape, hp, hq, pieces, houtline, ?_, ?_⟩
    · exact Except.ok.inj (hokp.symm.trans hp)
    · exact Except.ok.inj (hokq.symm.trans hq)

end RowTemplate
