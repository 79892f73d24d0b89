import RowTemplate.Proofs.Binding
import RowTemplate.Proofs.Matching
import RowTemplate.Proofs.Nesting

/-! What a rendering reads of its parameters. It looks up the tags and the lists that the template
mentions, also in the bodies of its blocks, and of the other names it asks only whether they are
scalars, where they are keys in the rows of those lists. Parameters that agree on this much agree on
the text of every body, as the visible names go on agreeing when a row is joined. -/

namespace RowTemplate

namespace Template

variable {template : String}

/-- What occurs in the body of a block of the template occurs in the template. -/
theorem Occurs.of_body {list body : String} (h : Occurs (.block list body) template) {node : Node}
    (hnode : node ∈ parse body) : Occurs node template := by
  generalize hblock : Node.block list body = block at h
  induction h with
  | here hmem => exact .inside (hblock ▸ hmem) (.here hnode)
  | inside houter _ ih => exact .inside houter ih

/-- A node that occurs in the template is written in it. -/
theorem Occurs.isInfix_source {node : Node} (h : Occurs node template) :
    node.source <:+: template.toList := by
  induction h with
  | @here template hmem =>
      have hsource := Node.source_infix_sources hmem
      rwa [sources_parse] at hsource
  | inside houter _ ih => exact ih.trans (Template.body_infix houter)

end Template

/-! ### Names that agree where they are read -/

/-- Visible names agree on the values of tags, and on which keys of rows are visible. -/
structure AgreeOn (tags keys : String → Prop) (names names' : Row) : Prop where
  get?_eq : ∀ name, tags name → names.get? name = names'.get? name
  contains_eq : ∀ key, keys key → names.contains key = names'.contains key

namespace AgreeOn

variable {tags keys : String → Prop} {names names' row : Row} {list : String}
  {lost gained : Error → Prop}

theorem tagText_eq (h : AgreeOn tags keys names names') {name : String} (hname : tags name) :
    tagText names name = tagText names' name := by
  rw [tagText, tagText, h.get?_eq name hname]

/-- Joining a row fails for the same key, or the names inside the row agree as those outside. -/
theorem matches_join (h : AgreeOn tags keys names names') (hrow : ∀ key ∈ row.keys, keys key) :
    Matches lost gained (AgreeOn tags keys) (names.join list row) (names'.join list row) := by
  have hfind : row.keys.find? names'.contains = row.keys.find? names.contains :=
    List.find?_congr fun key hkey => (h.contains_eq key (hrow key hkey)).symm
  rw [Table.join, Table.join, hfind]
  cases row.keys.find? names.contains with
  | some key => exact .same _
  | none =>
      refine .ok ⟨fun name hname => ?_, fun key hkey => ?_⟩
      · rw [Table.get?_union, Table.get?_union, h.get?_eq name hname]
      · have hvisible := h.contains_eq key hkey
        rw [Table.contains, Table.contains] at hvisible ⊢
        rw [Table.get?_union, Table.get?_union, Option.isSome_or, Option.isSome_or, hvisible]

end AgreeOn

namespace Template

/-- **What a rendering reads.** Let two parameters have the same list, or none, under each name of a
block that occurs in the template, and the same scalar, or none, under each name of a tag that occurs
in it, and agree on which keys of the rows of these lists are scalars. Then the template has the same
rendering with both, be it a text or an error. -/
theorem render_eq_of_occurs {template : String} {p q : Params}
    (hlists : ∀ list body, Occurs (.block list body) template → p.list? list = q.list? list)
    (hscalars : ∀ name, Occurs (.tag name) template → p.scalar? name = q.scalar? name)
    (hkeys : ∀ list body key, Occurs (.block list body) template → p.HasKey list key →
      (p.scalar? key).isSome = (q.scalar? key).isSome) :
    render template p = render template q := by
  have hagree : AgreeOn (fun name => Occurs (.tag name) template)
      (fun key => ∃ list body, Occurs (.block list body) template ∧ p.HasKey list key)
      p.scalars q.scalars := by
    constructor
    · intro name hname
      rw [Params.get?_scalars, Params.get?_scalars, hscalars name hname]
    · rintro key ⟨list, body, hblock, hkey⟩
      rw [Table.contains, Table.contains, Params.get?_scalars, Params.get?_scalars,
        hkeys list body key hblock hkey]
  have hmatch : Matches (fun _ => False) (fun _ => False) Eq
      (substituteText p.list? p.scalars (parse template))
      (substituteText q.list? q.scalars (parse template)) := by
    refine matches_of_nodes (P := fun node => Occurs node template) ?_ ?_ ?_ ?_ (parse template)
      (fun node hnode => .here hnode) _ _ hagree
    · exact fun list body hblock node hnode => hblock.of_body hnode
    · exact fun names names' h name hname => .of_eq (h.tagText_eq hname)
    · intro list body hblock
      refine .of_eq ?_
      rw [rowsOfBlock, rowsOfBlock, hlists list body hblock]
    · intro names names' h list body rows hblock hrows row hrow
      refine h.matches_join fun key hkey => ⟨list, body, hblock, rows, row, hrows, hrow, ?_⟩
      exact Table.mem_keys_iff.1 hkey
  rw [render_eq, render_eq]
  rcases hmatch.eq_or with heq | ⟨e, hfalse, _⟩ | ⟨e, hfalse, _⟩
  · exact heq.symm
  · exact hfalse.elim
  · exact hfalse.elim

theorem render_eq_of_occurs_nested :
    ∃ p q : Params, p.scalar? "s" ≠ q.scalar? "s" ∧ p.list? "z" ≠ q.list? "z" ∧
      render "<#l><k><#m><j></m></l>" p = .error (.collision "s" "m") ∧
      render "<#l><k><#m><j></m></l>" q = .error (.collision "s" "m") := by
  let outer : Row := ⟨[("k", "1")], by decide⟩
  let inner : Row := ⟨[("j", "2"), ("s", "3")], by decide⟩
  let p : Params := ⟨⟨[("l", .list [outer]), ("m", .list [inner]), ("s", .scalar "4"),
    ("z", .list [])], by decide⟩⟩
  let q : Params := ⟨⟨[("l", .list [outer]), ("m", .list [inner]), ("s", .scalar "5")], by decide⟩⟩
  have hget : ∀ name, name ≠ "s" → name ≠ "z" → p.get? name = q.get? name := by
    intro name hs hz
    simp [Params.get?, Table.get?, p, q, lookup_cons_eq_ite, hs, hz]
  have hlists : ∀ list body, Occurs (.block list body) "<#l><k><#m><j></m></l>" →
      p.list? list = q.list? list := by
    intro list body hblock
    have hz : list ≠ "z" := by
      rintro rfl
      have hsource := hblock.isInfix_source
      rw [Node.source, List.append_assoc] at hsource
      exact absurd ((List.prefix_append _ _).isInfix.trans hsource) (by decide)
    by_cases hs : list = "s"
    · rw [hs]
      rfl
    · rw [Params.list?, hget list hs hz, Params.list?]
  have hscalars : ∀ name, Occurs (.tag name) "<#l><k><#m><j></m></l>" →
      p.scalar? name = q.scalar? name := by
    intro name htag
    have hs : name ≠ "s" := by
      rintro rfl
      exact absurd htag.isInfix_source (by decide)
    by_cases hz : name = "z"
    · rw [hz]
      rfl
    · rw [Params.scalar?, hget name hs hz, Params.scalar?]
  have hkeys : ∀ list body key, Occurs (.block list body) "<#l><k><#m><j></m></l>" →
      p.HasKey list key → (p.scalar? key).isSome = (q.scalar? key).isSome := by
    intro list body key _ _
    by_cases hs : key = "s"
    · rw [hs]
      rfl
    · by_cases hz : key = "z"
      · rw [hz]
        rfl
      · rw [Params.scalar?, hget key hs hz, Params.scalar?]
  have hp : render "<#l><k><#m><j></m></l>" p = .error (.collision "s" "m") := by cbv
  refine ⟨p, q, by decide, by decide, hp, ?_⟩
  rw [← render_eq_of_occurs hlists hscalars hkeys, hp]

end Template

end RowTemplate
