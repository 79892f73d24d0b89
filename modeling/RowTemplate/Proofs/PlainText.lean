import RowTemplate.Proofs.Rendering

/-! Templates that are nothing but text. Text stands for itself whatever is bound, so a template
without tags and blocks renders to itself. With nothing bound a tag has no value and a block no
list, so the first tag or block of a template fails there, and only a template without any
renders. -/

namespace RowTemplate

/-- Neither a tag nor a block is among the nodes. -/
structure Node.Plain (nodes : List Node) : Prop where
  tag_not_mem : ∀ name, .tag name ∉ nodes
  block_not_mem : ∀ list body, .block list body ∉ nodes

theorem Node.plain_cons_text {content : String} {rest : List Node} :
    Node.Plain (.text content :: rest) ↔ Node.Plain rest := by
  constructor
  · rintro ⟨htag, hblock⟩
    exact ⟨fun name hmem => htag name (List.mem_cons_of_mem _ hmem),
      fun list body hmem => hblock list body (List.mem_cons_of_mem _ hmem)⟩
  · rintro ⟨htag, hblock⟩
    refine ⟨fun name hmem => htag name ?_, fun list body hmem => hblock list body ?_⟩
    · simpa using hmem
    · simpa using hmem

/-- Text stands for itself. -/
theorem substituteText_of_plain (lists : String → Option (List Row)) (names : Row)
    {nodes : List Node} (h : Node.Plain nodes) :
    substituteText lists names nodes = .ok (.ofList (Node.sources nodes)) := by
  induction nodes with
  | nil => exact substituteText_nil lists names
  | cons node rest ih =>
      cases node with
      | text content =>
          rw [substituteText_text, ih (Node.plain_cons_text.1 h), Node.sources_cons, Node.source,
            String.ofList_append, String.ofList_toList]
          rfl
      | tag name => exact absurd List.mem_cons_self (h.tag_not_mem name)
      | block list body => exact absurd List.mem_cons_self (h.block_not_mem list body)

/-- With nothing bound, the first tag or block fails. -/
theorem exists_error_of_not_plain {lists : String → Option (List Row)} {names : Row}
    (hlists : ∀ list, lists list = none) (hnames : ∀ name, names.get? name = none)
    {nodes : List Node} (h : ¬ Node.Plain nodes) :
    ∃ e, substituteText lists names nodes = .error e := by
  induction nodes with
  | nil => exact absurd ⟨fun _ => List.not_mem_nil, fun _ _ => List.not_mem_nil⟩ h
  | cons node rest ih =>
      cases node with
      | text content =>
          obtain ⟨e, hrest⟩ := ih (mt Node.plain_cons_text.2 h)
          refine ⟨e, ?_⟩
          rw [substituteText_text, hrest]
          rfl
      | tag name =>
          refine ⟨.notSet name .scalar, ?_⟩
          rw [substituteText_tag, hnames name]
          rfl
      | block list body =>
          rw [substituteText_block]
          cases hrows : rowsOfBlock lists list with
          | error e => exact ⟨e, rfl⟩
          | ok rows =>
              have hsome := (rowsOfBlock_eq_ok_iff.1 hrows).2
              rw [hlists list] at hsome
              cases hsome

namespace Template

/-- **Plain text.** A template has neither tags nor blocks if and only if it renders to itself
whatever is bound, and if and only if it renders at all with nothing bound. -/
theorem render_eq_self_tfae (template : String) : List.TFAE [
    Node.Plain (parse template),
    ∀ params, render template params = .ok template,
    ∃ text, render template .empty = .ok text] := by
  tfae_have 1 → 2 := by
    intro hplain params
    rw [render_eq, substituteText_of_plain _ _ hplain, sources_parse, String.ofList_toList]
  tfae_have 2 → 3 := fun hself => ⟨template, hself .empty⟩
  tfae_have 3 → 1 := by
    rintro ⟨text, htext⟩
    by_contra hplain
    have hlists : ∀ list, Params.empty.list? list = none := fun _ => rfl
    have hnames : ∀ name, Params.empty.scalars.get? name = none :=
      fun name => Params.get?_scalars .empty name
    obtain ⟨e, hfails⟩ := exists_error_of_not_plain hlists hnames hplain
    rw [render_eq, hfails] at htext
    cases htext
  tfae_finish

example : parse "<#l>a</m> < <b" = [.text "<#l>a</m> < <b"] := by cbv

end Template

end RowTemplate
