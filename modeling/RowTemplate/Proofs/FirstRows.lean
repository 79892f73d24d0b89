import RowTemplate.Proofs.Binding
import RowTemplate.Proofs.Matching

/-! One row for each list. Whether a row can be joined, and whether a tag has a value, depends on the
names that are visible and not on their values. Rows with the same keys make the same names visible,
so the copies that a block gives for them fail alike, at any depth and under any rows of the blocks
around it; a block fails with the first of its rows or not at all. -/

namespace RowTemplate

/-- The two outcomes are values, or they are the same failure. -/
abbrev FailAlike {α β : Type} (first : Except Error α) (second : Except Error β) : Prop :=
  Matches (fun _ => False) (fun _ => False) (fun _ _ => True) first second

namespace FailAlike

variable {α β ι : Type} {first : Except Error α} {second : Except Error β}

theorem error_iff (h : FailAlike first second) (e : Error) :
    first = .error e ↔ second = .error e := by
  cases h with
  | ok _ => simp only [reduceCtorEq]
  | same e' => simp only [Except.error.injEq]
  | lost hfalse => exact hfalse.elim
  | gained hfalse => exact hfalse.elim

theorem exists_ok_iff (h : FailAlike first second) :
    (∃ a, first = .ok a) ↔ ∃ b, second = .ok b := by
  cases h with
  | @ok a b _ => exact ⟨fun _ => ⟨b, rfl⟩, fun _ => ⟨a, rfl⟩⟩
  | same e => simp only [reduceCtorEq, exists_false]
  | lost hfalse => exact hfalse.elim
  | gained hfalse => exact hfalse.elim

/-- Items that all fail like the first one fail in a row like the first one alone. -/
theorem mapM_singleton {f : ι → Except Error α} {g : ι → Except Error β} {item : ι} {rest : List ι}
    (h : ∀ later ∈ item :: rest, FailAlike (f later) (g item)) :
    FailAlike ((item :: rest).mapM f) ([item].mapM g) := by
  have hsingle : [item].mapM g = (g item).map fun b => [b] := by
    rw [List.mapM_cons]
    cases g item <;> rfl
  rw [hsingle]
  cases hitem : g item with
  | ok b =>
      have hall : ∀ later ∈ item :: rest, ∃ a, f later = .ok a := fun later hlater =>
        (h later hlater).exists_ok_iff.2 ⟨b, hitem⟩
      obtain ⟨results, hresults⟩ := exists_mapM_eq_ok_iff.2 hall
      rw [hresults]
      exact .ok trivial
  | error e =>
      have hfirst : f item = .error e := ((h item List.mem_cons_self).error_iff e).2 hitem
      rw [List.mapM_cons, hfirst]
      exact .same e

end FailAlike

/-! ### Rows with the same keys -/

/-- The two tables have the same keys. -/
def Table.SameKeys {α β : Type} (t : Table α) (u : Table β) : Prop :=
  ∀ key, t.contains key = u.contains key

namespace Table.SameKeys

variable {names names' row row' : Row}

theorem of_keys_eq (h : row.keys = row'.keys) : row.SameKeys row' := by
  intro key
  rw [Bool.eq_iff_iff, ← mem_keys_iff, ← mem_keys_iff, h]

/-- A table without its values is determined by its keys, which it lists in order. -/
theorem keys_eq (h : row.SameKeys row') : row.keys = row'.keys := by
  have hkeys : row.map (fun _ => ()) = row'.map (fun _ => ()) := by
    apply Table.eq_of_get?
    intro key
    have hkey := h key
    rw [contains, contains] at hkey
    rw [get?_map, get?_map]
    cases hget : row.get? key <;> cases hget' : row'.get? key <;> simp_all
  calc row.keys = (row.map fun _ => ()).keys := (keys_map _ row).symm
    _ = (row'.map fun _ => ()).keys := by rw [hkeys]
    _ = row'.keys := keys_map _ row'

theorem union (h : names.SameKeys names') (hrow : row.SameKeys row') :
    (names.union row).SameKeys (names'.union row') := by
  intro key
  have hkey := hrow key
  have hname := h key
  rw [contains, contains] at hkey hname ⊢
  rw [get?_union, get?_union, Option.isSome_or, Option.isSome_or, hkey, hname]

/-- Rows with the same keys collide for the same key, or both can be joined. -/
theorem matches_join (h : names.SameKeys names') (hrow : row.SameKeys row') (list : String) :
    Matches (fun _ => False) (fun _ => False) Table.SameKeys
      (names.join list row) (names'.join list row') := by
  rw [join, join, hrow.keys_eq, show names.contains = names'.contains from funext h]
  cases row'.keys.find? names'.contains with
  | some key => exact .same _
  | none => exact .ok (h.union hrow)

theorem failAlike_tagText (h : names.SameKeys names') (name : String) :
    FailAlike (tagText names name) (tagText names' name) := by
  have hname := h name
  rw [contains, contains] at hname
  rw [tagText, tagText]
  cases hget : names.get? name with
  | some value =>
      rw [hget, Option.isSome_some, eq_comm, Option.isSome_iff_exists] at hname
      obtain ⟨value', hget'⟩ := hname
      rw [hget']
      exact .ok trivial
  | none =>
      rw [hget, Option.isSome_none, eq_comm, Option.isSome_eq_false_iff, Option.isNone_iff_eq_none]
        at hname
      rw [hname]
      exact .same _

end Table.SameKeys

/-! ### Lists cut to their first row -/

/-- In each list all rows have the same keys. -/
def RowsAlike (lists : String → Option (List Row)) : Prop :=
  ∀ list rows, lists list = some rows → ∀ row ∈ rows, ∀ row' ∈ rows, row.SameKeys row'

/-- The lists cut to their first row. -/
def firstRowOf (lists : String → Option (List Row)) (list : String) : Option (List Row) :=
  (lists list).map (List.take 1)

section Lists

variable {lists : String → Option (List Row)}

theorem rowsOfBlock_firstRowOf (list : String) :
    rowsOfBlock (firstRowOf lists) list = (rowsOfBlock lists list).map (List.take 1) := by
  unfold rowsOfBlock firstRowOf
  by_cases hempty : list.isEmpty = true
  · rw [if_pos hempty, if_pos hempty]
    rfl
  · rw [if_neg hempty, if_neg hempty]
    cases lists list <;> rfl

theorem failAlike_blockText (hrows : RowsAlike lists) {names names' : Row}
    (h : names.SameKeys names') {list body : String}
    (hcopy : ∀ joined joined' : Row, joined.SameKeys joined' →
      FailAlike (substituteText lists joined (Template.parse body))
        (substituteText (firstRowOf lists) joined' (Template.parse body))) :
    FailAlike (blockText lists names list body) (blockText (firstRowOf lists) names' list body) := by
  rw [blockText, blockText, rowsOfBlock_firstRowOf]
  cases hblock : rowsOfBlock lists list with
  | error e => exact .same e
  | ok rows =>
      cases rows with
      | nil => exact .ok trivial
      | cons row rest =>
          have hcopies : FailAlike ((row :: rest).mapM (copyText lists names list body))
              ([row].mapM (copyText (firstRowOf lists) names' list body)) := by
            apply FailAlike.mapM_singleton
            intro later hlater
            have hkeys : later.SameKeys row :=
              hrows list _ (rowsOfBlock_eq_ok_iff.1 hblock).2 later hlater row List.mem_cons_self
            refine (h.matches_join hkeys list).bind ?_
            exact fun joined joined' _ hjoined => hcopy joined joined' hjoined
          exact hcopies.map fun _ _ _ => trivial

/-- With the lists cut to their first row nodes fail as with all rows. -/
theorem failAlike_substituteText (hrows : RowsAlike lists) (nodes : List Node) (names : Row) :
    FailAlike (substituteText lists names nodes) (substituteText (firstRowOf lists) names nodes) := by
  refine matches_of_blocks (S := Table.SameKeys) (P := fun _ => True) ?_ ?_ ?_ ?_ ?_ nodes
    (fun _ _ => trivial) names names (fun _ => rfl)
  · exact fun _ => trivial
  · exact fun _ _ _ _ _ _ => trivial
  · exact fun _ _ _ _ _ => trivial
  · exact fun names names' h name _ => h.failAlike_tagText name
  · exact fun names names' h list body _ hcopy => failAlike_blockText hrows h hcopy

end Lists

/-- A list cut to its first row, if it has one. -/
def Param.firstRow : Param → Param
  | scalar value => scalar value
  | list rows => list (rows.take 1)

namespace Params

/-- The parameters with each list cut to its first row. -/
def firstRows (params : Params) : Params := ⟨params.table.map Param.firstRow⟩

theorem scalar?_firstRows (params : Params) (name : String) :
    params.firstRows.scalar? name = params.scalar? name := by
  rw [scalar?, scalar?, get?, firstRows, Table.get?_map, get?]
  cases params.table.get? name with
  | none => rfl
  | some param => cases param <;> rfl

theorem list?_firstRows (params : Params) (name : String) :
    params.firstRows.list? name = firstRowOf params.list? name := by
  rw [firstRowOf, list?, list?, get?, firstRows, Table.get?_map, get?]
  cases params.table.get? name with
  | none => rfl
  | some param => cases param <;> rfl

end Params

namespace Template

/-- **One row for each list.** If in each list all rows have the same keys, a template fails with the
parameters exactly when it fails with each list cut to its first row, and with the same error. -/
theorem render_error_iff_firstRows {params : Params} (hrows : RowsAlike params.list?)
    (template : String) (e : Error) :
    render template params = .error e ↔ render template params.firstRows = .error e := by
  have hlists : params.firstRows.list? = firstRowOf params.list? := funext params.list?_firstRows
  have hnames : params.firstRows.scalars = params.scalars := Params.scalars_eq_of_scalar? fun name =>
    (Params.get?_scalars params name).trans (params.scalar?_firstRows name).symm
  rw [render_eq, render_eq, hlists, hnames]
  exact (failAlike_substituteText hrows (parse template) params.scalars).error_iff e

theorem render_error_iff_firstRows_nested :
    ∃ params : Params, RowsAlike params.list? ∧
      (params.list? "m").map List.length = some 2 ∧
      (params.firstRows.list? "m").map List.length = some 1 ∧
      render "<#l><k><#m><j></m></l>" params = .error (.collision "k" "m") ∧
      render "<#l><k><#m><j></m></l>" params.firstRows = .error (.collision "k" "m") := by
  let params : Params := ⟨⟨[
    ("l", .list [⟨[("k", "1")], by decide⟩, ⟨[("k", "2")], by decide⟩]),
    ("m", .list [⟨[("j", "3"), ("k", "4")], by decide⟩, ⟨[("j", "5"), ("k", "6")], by decide⟩])],
    by decide⟩⟩
  have hkeys : ∀ list rows, params.list? list = some rows →
      ∃ keys, ∀ row ∈ rows, row.keys = keys := by
    intro list rows hsome
    simp only [Params.list?, Params.get?, Table.get?, params, lookup_cons_eq_ite] at hsome
    split at hsome
    · cases hsome
      exact ⟨["k"], by decide⟩
    · split at hsome
      · cases hsome
        exact ⟨["j", "k"], by decide⟩
      · cases hsome
  have hrows : RowsAlike params.list? := by
    intro list rows hsome row hrow row' hrow'
    obtain ⟨keys, hall⟩ := hkeys list rows hsome
    exact .of_keys_eq ((hall row hrow).trans (hall row' hrow').symm)
  have hrender : render "<#l><k><#m><j></m></l>" params = .error (.collision "k" "m") := by cbv
  refine ⟨params, hrows, by decide, by decide, hrender, ?_⟩
  exact (render_error_iff_firstRows hrows _ _).1 hrender

end Template

end RowTemplate
