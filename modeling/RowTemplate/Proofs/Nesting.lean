import RowTemplate.Proofs.Moment
import RowTemplate.Proofs.Reading

/-! The rows under expansion. A body does not hold the closer of its own block, and what is inside
it holds no closer that it does not hold; so a block that is read inside the row of another has
another name, at any depth. Nothing checks this while rendering. With each row the text becomes
shorter by the two marks of its block, so the template's length bounds the stack, and the lists that
have rows bound its depth. -/

namespace RowTemplate

/-! ### Blocks of a text -/

theorem Node.source_infix_sources {node : Node} {nodes : List Node} (h : node ∈ nodes) :
    node.source <:+: Node.sources nodes := by
  obtain ⟨before, after, rfl⟩ := List.append_of_mem h
  rw [Node.sources, List.flatMap_append, List.flatMap_cons, ← List.append_assoc]
  exact List.infix_append _ _ _

theorem Template.block_infix {template list body : String}
    (h : Node.block list body ∈ Template.parse template) :
    opener list.toList ++ body.toList ++ closer list.toList <:+: template.toList := by
  have hsource := Node.source_infix_sources h
  rwa [Template.sources_parse] at hsource

theorem Template.body_infix {template list body : String}
    (h : Node.block list body ∈ Template.parse template) : body.toList <:+: template.toList :=
  List.IsInfix.trans ⟨_, _, rfl⟩ (Template.block_infix h)

theorem Template.closer_not_infix_body {template list body : String}
    (h : Node.block list body ∈ Template.parse template) :
    ¬ closer list.toList <:+: body.toList :=
  (Template.isReading_read template.toList).not_closed list body h

/-- A text inside some rows: the template outside all rows, and in a row the body of its block. -/
inductive Inside (template : String) : List Frame → String → Prop
  | outside : Inside template [] template
  | body {frames : List Frame} {outer list body : String} (row : Row)
      (h : Inside template frames outer) (hblock : .block list body ∈ Template.parse outer) :
      Inside template (⟨list, row⟩ :: frames) body

namespace Inside

variable {template text : String} {frames : List Frame}

theorem closer_not_infix (h : Inside template frames text) :
    ∀ frame ∈ frames, ¬ closer frame.list.toList <:+: text.toList := by
  induction h with
  | outside => exact fun frame hmem => absurd hmem List.not_mem_nil
  | @body frames outer list body row h hblock ih =>
      intro frame hmem
      rcases List.mem_cons.1 hmem with rfl | hmem
      · exact Template.closer_not_infix_body hblock
      · exact fun hcloser => ih frame hmem (hcloser.trans (Template.body_infix hblock))

theorem nodup_lists (h : Inside template frames text) : (frames.map Frame.list).Nodup := by
  induction h with
  | outside => exact List.nodup_nil
  | @body frames outer list body row h hblock ih =>
      rw [List.map_cons, List.nodup_cons]
      refine ⟨fun hmem => ?_, ih⟩
      obtain ⟨frame, hframe, rfl⟩ := List.mem_map.1 hmem
      have hcloser : closer frame.list.toList <:+: outer.toList :=
        List.IsInfix.trans (List.suffix_append _ _).isInfix (Template.block_infix hblock)
      exact h.closer_not_infix frame hframe hcloser

theorem sum_length_le (h : Inside template frames text) :
    (frames.map fun frame => 2 * frame.list.length + 6).sum + text.length ≤ template.length := by
  induction h with
  | outside => simp
  | @body frames outer list body row h hblock ih =>
      have hlength := (Template.block_infix hblock).length_le
      simp only [opener, closer, List.length_append, List.length_cons, List.length_nil,
        String.length_toList] at hlength
      rw [List.map_cons, List.sum_cons]
      dsimp only
      omega

end Inside

/-! ### The places that are reached -/

namespace Reaches

variable {template : String} {params : Params} {scope : Scope} {nodes : List Node}

theorem params_eq (h : Reaches template params scope nodes) : scope.params = params := by
  induction h with
  | start => rfl
  | past _ ih => exact ih
  | into _ _ _ _ henter ih => rw [(Scope.enter_eq_ok_iff.1 henter).2, ih]

theorem inside (h : Reaches template params scope nodes) :
    ∃ text, Inside template scope.frames text ∧ ∀ node ∈ nodes, node ∈ Template.parse text := by
  induction h with
  | start => exact ⟨template, .outside, fun _ hmem => hmem⟩
  | past _ ih =>
      obtain ⟨text, hinside, hnodes⟩ := ih
      exact ⟨text, hinside, fun node hmem => hnodes node (List.mem_cons_of_mem _ hmem)⟩
  | @into scope inner list body rest rows row _ _ _ _ henter ih =>
      obtain ⟨text, hinside, hnodes⟩ := ih
      rw [(Scope.enter_eq_ok_iff.1 henter).2]
      exact ⟨body, .body row hinside (hnodes _ List.mem_cons_self), fun _ hmem => hmem⟩

/-- A row under expansion is one of the rows of its list. -/
theorem mem_rows (h : Reaches template params scope nodes) : ∀ frame ∈ scope.frames,
    frame.list ≠ "" ∧ ∃ rows, params.list? frame.list = some rows ∧ frame.row ∈ rows := by
  induction h with
  | start => exact fun frame hmem => absurd hmem List.not_mem_nil
  | past _ ih => exact ih
  | @into scope inner list body rest rows row hreach hlist hrows hrow henter ih =>
      rw [(Scope.enter_eq_ok_iff.1 henter).2]
      intro frame hmem
      rcases List.mem_cons.1 hmem with rfl | hmem
      · rw [Scope.rows?, hreach.params_eq] at hrows
        exact ⟨hlist, rows, hrows, hrow⟩
      · exact ih frame hmem

end Reaches

/-! ### The stack at each moment -/

def Param.hasRows : Param → Bool
  | .list (_ :: _) => true
  | _ => false

/-- The names of the lists that have a row. -/
def Params.listsWithRows (params : Params) : List String :=
  (params.table.entries.filter (·.2.hasRows)).map Prod.fst

theorem Params.mem_listsWithRows {params : Params} {list : String} {rows : List Row}
    (hrows : params.list? list = some rows) (hne : rows ≠ []) : list ∈ params.listsWithRows := by
  obtain ⟨param, hget, hlist⟩ := Option.bind_eq_some_iff.1 hrows
  cases param with
  | scalar value => cases hlist
  | list rows' =>
      cases hlist
      have hhas : (Param.list rows).hasRows = true := by
        cases rows with
        | nil => exact absurd rfl hne
        | cons row rows => rfl
      have hmem := (params.table.mem_entries_iff _ _).2 hget
      exact List.mem_map.2 ⟨_, List.mem_filter.2 ⟨hmem, hhas⟩, rfl⟩

/-- The moment some steps later, if there are so many. -/
def Moment.nextBy : Nat → Moment → Option Moment
  | 0, moment => some moment
  | n + 1, moment => moment.next.bind (nextBy n)

theorem Moment.leadsTo_of_nextBy {n : Nat} :
    ∀ {moment after : Moment}, moment.nextBy n = some after → moment.LeadsTo after := by
  induction n with
  | zero =>
      intro moment after h
      cases h
      exact .refl
  | succ n ih =>
      intro moment after h
      obtain ⟨later, hnext, hafter⟩ := Option.bind_eq_some_iff.1 h
      exact leadsTo_of_next hnext (ih hafter)

/-- **No re-entry.** At every moment of a rendering the rows under expansion are of different lists
that have names and rows; the lists with rows bound their number, and the marks of their blocks fit
into the template. The moment leads to the result of the rendering. -/
theorem stack_of_moment {template : String} {params : Params} {moment : Moment}
    (h : (Moment.start template params).LeadsTo moment) :
    (moment.state.scope.frames.map Frame.list).Nodup ∧
      (∀ frame ∈ moment.state.scope.frames, frame.list ≠ "" ∧
        ∃ rows, params.list? frame.list = some rows ∧ rows ≠ []) ∧
      moment.state.scope.depth ≤ params.listsWithRows.length ∧
      (moment.state.scope.frames.map fun frame => 2 * frame.list.length + 6).sum ≤ template.length ∧
      ∃ last, moment.LeadsTo last ∧ last.next = none ∧
        last.result = Template.render template params := by
  obtain ⟨⟨nodes, hreach⟩, _⟩ := Moment.isPlaced_of_leadsTo h
  obtain ⟨text, hinside, _⟩ := hreach.inside
  have hbound : ∀ frame ∈ moment.state.scope.frames, frame.list ≠ "" ∧
      ∃ rows, params.list? frame.list = some rows ∧ rows ≠ [] := by
    intro frame hframe
    obtain ⟨hne, rows, hrows, hrow⟩ := hreach.mem_rows frame hframe
    exact ⟨hne, rows, hrows, List.ne_nil_of_mem hrow⟩
  refine ⟨hinside.nodup_lists, hbound, ?_, ?_, Moment.leadsTo_last h⟩
  · have hsubset : moment.state.scope.frames.map Frame.list ⊆ params.listsWithRows := by
      intro list hmem
      obtain ⟨frame, hframe, rfl⟩ := List.mem_map.1 hmem
      obtain ⟨_, rows, hrows, hne⟩ := hbound frame hframe
      exact Params.mem_listsWithRows hrows hne
    have hlength := (List.subperm_of_subset hinside.nodup_lists hsubset).length_le
    rwa [List.length_map] at hlength
  · have hsum := hinside.sum_length_le
    omega

theorem stack_of_moment_nested :
    ∃ params moment, (Moment.start "<#a><#b><k></b></a>" params).LeadsTo moment ∧
      moment.state.scope.frames.map Frame.list = ["b", "a"] ∧
      moment.state.scope.depth ≤ params.listsWithRows.length ∧
      (moment.state.scope.frames.map fun frame => 2 * frame.list.length + 6).sum ≤ 19 := by
  let params : Params := ⟨⟨[("a", .list [⟨[("k", "1")], by decide⟩]), ("b", .list [.empty])], by decide⟩⟩
  have hsteps : ((Moment.start "<#a><#b><k></b></a>" params).nextBy 4).map
      (fun moment => moment.state.scope.frames.map Frame.list) = some ["b", "a"] := by
    cbv
  obtain ⟨moment, hmoment, hlists⟩ := Option.map_eq_some_iff.1 hsteps
  have hleads := Moment.leadsTo_of_nextBy hmoment
  obtain ⟨_, _, hdepth, hsum, _⟩ := stack_of_moment hleads
  exact ⟨params, moment, hleads, hlists, hdepth, hsum⟩

end RowTemplate
