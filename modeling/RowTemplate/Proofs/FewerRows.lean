import RowTemplate.Proofs.Binding
import RowTemplate.Proofs.Matching

/-! Parameters with fewer rows. A row is joined to the same names whichever rows its list has besides,
so the copy that a block gives for a row is the same in kind, and with fewer rows fewer copies can
fail. Nothing is asked of a body whose list is empty. Where the rows are those of the other list with
some left out, so are the copies, and the text is the other text with some characters left out. -/

namespace RowTemplate

/-! ### Copies for fewer rows -/

theorem join_sublist_of_forall₂ {ι : Type} {f g : ι → Except Error String} {items items' : List ι}
    {texts texts' : List String} (hitems : items.Sublist items')
    (hle : ∀ item ∈ items', ∀ t t', f item = .ok t → g item = .ok t' → t.toList.Sublist t'.toList)
    (h : List.Forall₂ (fun item text => f item = .ok text) items texts)
    (h' : List.Forall₂ (fun item text => g item = .ok text) items' texts') :
    (String.join texts).toList.Sublist (String.join texts').toList := by
  induction hitems generalizing texts texts' with
  | slnil =>
      cases h
      cases h'
      exact List.Sublist.refl _
  | cons item _ ih =>
      cases h' with
      | cons _ hrest' =>
          rw [String.join_cons, String.toList_append]
          refine (ih ?_ h hrest').trans (List.sublist_append_right _ _)
          exact fun later hlater => hle later (List.mem_cons_of_mem _ hlater)
  | cons_cons item _ ih =>
      cases h with
      | cons hfirst hrest =>
          cases h' with
          | cons hfirst' hrest' =>
              rw [String.join_cons, String.join_cons, String.toList_append, String.toList_append]
              refine (hle item List.mem_cons_self _ _ hfirst hfirst').append (ih ?_ hrest hrest')
              exact fun later hlater => hle later (List.mem_cons_of_mem _ hlater)

/-- The rows of each list are among those of the other list, in any order and any number. -/
def RowsAmong (lists lists' : String → Option (List Row)) : Prop :=
  ∀ list, Option.Rel (· ⊆ ·) (lists list) (lists' list)

/-- The rows of each list are those of the other list with some left out. -/
def RowsLeftOut (lists lists' : String → Option (List Row)) : Prop :=
  ∀ list, Option.Rel List.Sublist (lists list) (lists' list)

section Copies

variable {lists lists' : String → Option (List Row)} {list : String}

theorem RowsAmong.exists_rows {rows' : List Row} (h : RowsAmong lists lists')
    (hrows' : rowsOfBlock lists' list = .ok rows') :
    ∃ rows, rowsOfBlock lists list = .ok rows ∧ rows ⊆ rows' := by
  obtain ⟨hne, hlist'⟩ := rowsOfBlock_eq_ok_iff.1 hrows'
  have hrel := h list
  rw [hlist'] at hrel
  cases hlist : lists list with
  | none =>
      rw [hlist] at hrel
      cases hrel
  | some rows =>
      rw [hlist] at hrel
      cases hrel with
      | some hsubset => exact ⟨rows, rowsOfBlock_eq_ok_iff.2 ⟨hne, hlist⟩, hsubset⟩

theorem RowsLeftOut.sublist {rows rows' : List Row} (h : RowsLeftOut lists lists')
    (hrows : rowsOfBlock lists list = .ok rows) (hrows' : rowsOfBlock lists' list = .ok rows') :
    rows.Sublist rows' := by
  have hrel := h list
  rw [(rowsOfBlock_eq_ok_iff.1 hrows).2, (rowsOfBlock_eq_ok_iff.1 hrows').2] at hrel
  cases hrel with
  | some hsublist => exact hsublist

theorem RowsLeftOut.rowsAmong (h : RowsLeftOut lists lists') : RowsAmong lists lists' := by
  intro list
  have hrel := h list
  generalize lists list = rows at hrel ⊢
  generalize lists' list = rows' at hrel ⊢
  cases hrel with
  | some hsublist => exact .some hsublist.subset
  | none => exact .none

/-- If rows are only left out of the second lists, characters are only left out of their text. -/
def Shorter (lists lists' : String → Option (List Row)) (text' text : String) : Prop :=
  RowsLeftOut lists lists' → text.toList.Sublist text'.toList

theorem matches_blockText_of_rowsAmong (h : RowsAmong lists lists') {names : Row} {body : String}
    (hcopy : ∀ joined, Matches (fun _ => True) (fun _ => False) (Shorter lists lists')
      (substituteText lists' joined (Template.parse body))
      (substituteText lists joined (Template.parse body))) :
    Matches (fun _ => True) (fun _ => False) (Shorter lists lists')
      (blockText lists' names list body) (blockText lists names list body) := by
  have hcopies : ∀ row text', copyText lists' names list body row = .ok text' →
      ∃ text, copyText lists names list body row = .ok text ∧ Shorter lists lists' text' text := by
    intro row text' hcopied
    obtain ⟨joined, hjoin, hbody⟩ := exists_of_bind_eq_ok hcopied
    have hmatch := hcopy joined
    rw [hbody] at hmatch
    obtain ⟨text, htext, hshorter⟩ := hmatch.exists_ok
    refine ⟨text, ?_, hshorter⟩
    rw [copyText, hjoin]
    exact htext
  refine .of_ok fun text' htext' => ?_
  obtain ⟨rows', texts', hrows', hall', rfl⟩ := blockText_eq_ok_iff.1 htext'
  obtain ⟨rows, hrows, hsubset⟩ := h.exists_rows hrows'
  have hsome : ∃ texts, rows.mapM (copyText lists names list body) = .ok texts := by
    refine exists_mapM_eq_ok_iff.2 fun row hrow => ?_
    have hcopied := exists_mapM_eq_ok_iff.1 ⟨texts', mapM_eq_ok_iff.2 hall'⟩ row (hsubset hrow)
    obtain ⟨copied, hcopied⟩ := hcopied
    obtain ⟨text, htext, _⟩ := hcopies row copied hcopied
    exact ⟨text, htext⟩
  obtain ⟨texts, hall⟩ := hsome
  rw [mapM_eq_ok_iff] at hall
  refine ⟨String.join texts, blockText_eq_ok_iff.2 ⟨rows, texts, hrows, hall, rfl⟩, fun hleft => ?_⟩
  refine join_sublist_of_forall₂ (hleft.sublist hrows hrows') ?_ hall hall'
  intro row _ copied copied' hcopied hcopied'
  obtain ⟨found, hfound, hshorter⟩ := hcopies row copied' hcopied'
  rw [hcopied] at hfound
  cases hfound
  exact hshorter hleft

/-- With fewer rows a text stays a text. -/
theorem matches_of_rowsAmong (h : RowsAmong lists lists') (nodes : List Node) (names : Row) :
    Matches (fun _ => True) (fun _ => False) (Shorter lists lists')
      (substituteText lists' names nodes) (substituteText lists names nodes) := by
  refine matches_of_blocks (S := Eq) (P := fun _ => True) ?_ ?_ ?_ ?_ ?_ nodes (fun _ _ => trivial)
    names names rfl
  · exact fun text _ => List.Sublist.refl _
  · intro s t u v hst huv hleft
    rw [String.toList_append, String.toList_append]
    exact (hst hleft).append (huv hleft)
  · exact fun _ _ _ _ _ => trivial
  · rintro names _ rfl name _
    refine .of_ok fun text htext => ⟨text, htext, fun _ => List.Sublist.refl _⟩
  · rintro names _ rfl list body _ hcopy
    exact matches_blockText_of_rowsAmong h fun joined => hcopy joined joined rfl

end Copies

namespace Template

theorem exists_render_of_rowsAmong {p q : Params} (hscalars : ∀ name, p.scalar? name = q.scalar? name)
    (hrows : RowsAmong p.list? q.list?) {template text' : String}
    (hrender : render template q = .ok text') :
    ∃ text, render template p = .ok text ∧ Shorter p.list? q.list? text' text := by
  have hnames : p.scalars = q.scalars := Params.scalars_eq_of_scalar? fun name => by
    rw [Params.get?_scalars, hscalars]
  have hmatch := matches_of_rowsAmong hrows (parse template) q.scalars
  rw [render_eq] at hrender
  rw [hrender] at hmatch
  rw [render_eq, hnames]
  exact hmatch.exists_ok

/-- **Fewer rows.** Let two parameters have the same scalars and lists of the same names. If every row
of a list is among the rows of the other list, in any order and any number, a template that renders
with the others renders with the former. So if the rows are the same up to order and number, it
renders with both or with neither; and if rows are only left out, the text is the other text with
characters left out. -/
theorem render_of_fewer_rows {p q : Params} (hscalars : ∀ name, p.scalar? name = q.scalar? name)
    (hrows : RowsAmong p.list? q.list?) (template : String) :
    ((∃ text, render template q = .ok text) → ∃ text, render template p = .ok text) ∧
      (RowsAmong q.list? p.list? →
        ((∃ text, render template p = .ok text) ↔ ∃ text, render template q = .ok text)) ∧
      (RowsLeftOut p.list? q.list? → ∀ text text', render template p = .ok text →
        render template q = .ok text' → text.toList.Sublist text'.toList) := by
  have hkeeps : (∃ text, render template q = .ok text) → ∃ text, render template p = .ok text := by
    rintro ⟨text', htext'⟩
    obtain ⟨text, htext, _⟩ := exists_render_of_rowsAmong hscalars hrows htext'
    exact ⟨text, htext⟩
  refine ⟨hkeeps, fun hrows' => ⟨?_, hkeeps⟩, fun hleft text text' htext htext' => ?_⟩
  · rintro ⟨text, htext⟩
    obtain ⟨text', htext', _⟩ :=
      exists_render_of_rowsAmong (fun name => (hscalars name).symm) hrows' htext
    exact ⟨text', htext'⟩
  · obtain ⟨text'', htext'', hshorter⟩ := exists_render_of_rowsAmong hscalars hrows htext'
    rw [htext] at htext''
    cases htext''
    exact hshorter hleft

theorem render_of_fewer_rows_nested :
    ∃ p q : Params, (∀ name, p.scalar? name = q.scalar? name) ∧ RowsLeftOut p.list? q.list? ∧
      render "<#l><k><#m><j></m></l>" q = .ok "1ab2ab" ∧
      render "<#l><k><#m><j></m></l>" p = .ok "2b" ∧
      "2b".toList.Sublist "1ab2ab".toList := by
  let k (value : String) : Row := ⟨[("k", value)], by simp⟩
  let j (value : String) : Row := ⟨[("j", value)], by simp⟩
  let p : Params := ⟨⟨[("l", .list [k "2"]), ("m", .list [j "b"])], by decide⟩⟩
  let q : Params := ⟨⟨[("l", .list [k "1", k "2"]), ("m", .list [j "a", j "b"])], by decide⟩⟩
  have hscalars : ∀ name, p.scalar? name = q.scalar? name := by
    intro name
    simp only [Params.scalar?, Params.get?, Table.get?, p, q, lookup_cons_eq_ite]
    split
    · rfl
    · split <;> rfl
  have hleft : RowsLeftOut p.list? q.list? := by
    intro list
    simp only [Params.list?, Params.get?, Table.get?, p, q, lookup_cons_eq_ite]
    split
    · exact .some (List.sublist_cons_self _ _)
    · split
      · exact .some (List.sublist_cons_self _ _)
      · exact .none
  have hq : render "<#l><k><#m><j></m></l>" q = .ok "1ab2ab" := by cbv
  have hp : render "<#l><k><#m><j></m></l>" p = .ok "2b" := by cbv
  obtain ⟨_, _, hsublist⟩ :=
    render_of_fewer_rows hscalars hleft.rowsAmong "<#l><k><#m><j></m></l>"
  exact ⟨p, q, hscalars, hleft, hq, hp, hsublist hleft _ _ hp hq⟩

end Template

end RowTemplate
