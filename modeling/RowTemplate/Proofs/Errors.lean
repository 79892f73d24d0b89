import RowTemplate.Proofs.Binding
import RowTemplate.Proofs.Nesting

/-! What the errors of a rendering say. An error comes from a node that is reached, in the scope in
which it is reached: a tag without a value, a block without a name or without its list, or a row
that the scope does not let in. The text of the node is a stretch of the template, and the rows of
the scope are of other lists than the block, so what the error says holds of the template and the
parameters. -/

namespace RowTemplate

/-! ### Where errors come from -/

/-- A node fails in a scope, before anything else is rendered for it. -/
inductive Raises (scope : Scope) : Node → Error → Prop
  | tag {name : String} (h : scope.lookup name = none) :
      Raises scope (.tag name) (.notSet name .scalar)
  | block {list body : String} {e : Error} (h : rowsOfBlock scope.rows? list = .error e) :
      Raises scope (.block list body) e
  | row {list body : String} {rows : List Row} {row : Row} {e : Error}
      (hrows : rowsOfBlock scope.rows? list = .ok rows) (hrow : row ∈ rows)
      (henter : scope.enter ⟨list, row⟩ = .error e) : Raises scope (.block list body) e

namespace Moment

variable {template : String} {params : Params} {moment : Moment} {e : Error}

theorem failure_of_result (h : moment.result = .error e) : moment.failure = some e := by
  unfold result at h
  split at h
  case h_1 => cases h
  case h_2 raised hfailure => rw [hfailure, Except.error.inj h]

theorem exists_step_of_failure (h : (start template params).LeadsTo moment)
    (hfailure : moment.failure = some e) : ∃ task tasks state after,
      (start template params).LeadsTo ⟨task :: tasks, state, none⟩ ∧
        task.step state = .error e after := by
  induction h with
  | refl => cases hfailure
  | @tail before after hbefore hnext ih =>
      obtain ⟨tasks, state, failure⟩ := before
      cases tasks with
      | nil => cases failure <;> cases hnext
      | cons task tasks =>
          cases failure with
          | some earlier =>
              cases hnext
              exact ih hfailure
          | none =>
              cases hnext
              cases hstep : task.step state with
              | ok new later =>
                  rw [hstep] at hfailure
                  cases hfailure
              | error raised later =>
                  rw [hstep] at hfailure
                  cases hfailure
                  exact ⟨task, tasks, state, later, hbefore, hstep⟩

theorem exists_raises_of_step {task : Task} {tasks : List Task} {state after : RenderState}
    (hplaced : Placed template params (task :: tasks) state.scope)
    (hstep : task.step state = .error e after) :
    ∃ node rest, Reaches template params state.scope (node :: rest) ∧
      Raises state.scope node e := by
  cases task with
  | nodes nodes =>
      match nodes with
      | [] => cases hstep
      | .text content :: rest => cases hstep
      | .tag name :: rest =>
          rw [Task.step_tag] at hstep
          cases hlookup : state.scope.lookup name with
          | some value => rw [hlookup] at hstep; cases hstep
          | none =>
              rw [hlookup] at hstep
              cases hstep
              exact ⟨_, rest, hplaced.1, .tag hlookup⟩
      | .block list body :: rest =>
          simp only [Task.step] at hstep
          cases hrows : rowsOfBlock state.scope.rows? list with
          | ok all => rw [hrows] at hstep; cases hstep
          | error raised =>
              rw [hrows] at hstep
              cases hstep
              exact ⟨_, rest, hplaced.1, .block hrows⟩
  | rows list body later =>
      cases later with
      | nil => cases hstep
      | cons row later =>
          obtain ⟨⟨rest, all, hreach, hrows, hlater⟩, _⟩ := hplaced
          simp only [Task.step] at hstep
          cases henter : state.scope.enter ⟨list, row⟩ with
          | ok inner => rw [henter] at hstep; cases hstep
          | error raised =>
              rw [henter] at hstep
              cases hstep
              exact ⟨_, rest, hreach, .row hrows (hlater List.mem_cons_self) henter⟩
  | leave => cases hstep

end Moment

/-- A rendering that fails has reached a node that fails. -/
theorem exists_raises_of_render {template : String} {params : Params} {e : Error}
    (h : Template.render template params = .error e) : ∃ scope node rest,
      Reaches template params scope (node :: rest) ∧ Raises scope node e := by
  obtain ⟨last, hlast, _, hresult⟩ := Moment.start_leadsTo_last template params
  have hfailure : last.failure = some e := Moment.failure_of_result (hresult.trans h)
  obtain ⟨task, tasks, state, after, hleads, hstep⟩ := Moment.exists_step_of_failure hlast hfailure
  obtain ⟨node, rest, hreach, hraises⟩ :=
    Moment.exists_raises_of_step (Moment.isPlaced_of_leadsTo hleads).2 hstep
  exact ⟨state.scope, node, rest, hreach, hraises⟩

/-! ### Stretches of the template -/

/-- An opener stands in the template, with the closer of its list somewhere after it. -/
def Template.HasBlock (template list : String) : Prop :=
  ∃ body, opener list.toList ++ body ++ closer list.toList <:+: template.toList

namespace Inside

variable {template text : String} {frames : List Frame}

theorem infix_template (h : Inside template frames text) : text.toList <:+: template.toList := by
  induction h with
  | outside => exact List.infix_refl _
  | body row h hblock ih => exact (Template.body_infix hblock).trans ih

theorem hasBlock (h : Inside template frames text) {list body : String}
    (hblock : .block list body ∈ Template.parse text) : Template.HasBlock template list :=
  ⟨body.toList, (Template.block_infix hblock).trans h.infix_template⟩

theorem opener_infix (h : Inside template frames text) :
    ∀ frame ∈ frames, opener frame.list.toList <:+: template.toList := by
  induction h with
  | outside => exact fun frame hmem => absurd hmem List.not_mem_nil
  | body row h hblock ih =>
      intro frame hmem
      rcases List.mem_cons.1 hmem with rfl | hmem
      · obtain ⟨body, hbody⟩ := h.hasBlock hblock
        rw [List.append_assoc] at hbody
        exact (List.prefix_append _ _).isInfix.trans hbody
      · exact ih frame hmem

end Inside

/-! ### Truthful errors -/

/-- What an error says of a template and parameters holds of them. -/
def Error.IsTruthful (template : String) (params : Params) : Error → Prop
  | .notSet name .scalar => Template.IsTagName name.toList ∧
      tagMark name.toList <:+: template.toList ∧ params.scalar? name = none
  | .notSet list .list => list ≠ "" ∧ '>' ∉ list.toList ∧ Template.HasBlock template list ∧
      params.list? list = none
  | .malformedBlock reason => reason = "the list name is empty" ∧ Template.HasBlock template ""
  | .collision key list => opener list.toList <:+: template.toList ∧
      (∃ rows row, params.list? list = some rows ∧ row ∈ rows ∧ row.contains key = true ∧
        ∀ k ∈ row.keys, k < key → params.scalar? k = none) ∧
      ((params.scalar? key).isSome = true ∨
        ∃ outer, outer ≠ list ∧ params.HasKey outer key ∧ opener outer.toList <:+: template.toList)
  | .message _ | .context _ _ | .alreadySet _ _ _ | .negativeIndentation => False
  | .unserializable _ => False

namespace Scope

theorem enter_eq_error_iff {scope : Scope} {frame : Frame} {e : Error} :
    scope.enter frame = .error e ↔ ∃ key, e = .collision key frame.list ∧ key ∈ frame.row.keys ∧
      scope.isVisible key = true ∧ ∀ k ∈ frame.row.keys, scope.isVisible k = true → key ≤ k :=
  Table.collision_eq_error_iff

/-- What is visible is a key of a row under expansion or a scalar. -/
theorem isVisible_iff {scope : Scope} {name : String} : scope.isVisible name = true ↔
    (∃ frame ∈ scope.frames, frame.row.contains name = true) ∨
      (scope.params.scalar? name).isSome = true := by
  rw [isVisible, lookup, Option.isSome_or, Bool.or_eq_true, List.findSome?_isSome_iff]
  rfl

end Scope

namespace Reaches

variable {template : String} {params : Params} {scope : Scope} {rest : List Node}

theorem isTruthful_of_tag {name : String}
    (hreach : Reaches template params scope (.tag name :: rest))
    (hlookup : scope.lookup name = none) :
    (Error.notSet name .scalar).IsTruthful template params := by
  obtain ⟨text, hinside, hnodes⟩ := hreach.inside
  have htag : Node.tag name ∈ Template.parse text := hnodes _ List.mem_cons_self
  refine ⟨(Template.isReading_read text.toList).isTagName name htag, ?_, ?_⟩
  · have hmark := Node.source_infix_sources htag
    rw [Template.sources_parse] at hmark
    exact hmark.trans hinside.infix_template
  · rw [Scope.lookup, Option.or_eq_none_iff, hreach.params_eq] at hlookup
    exact hlookup.2

theorem isTruthful_of_block {list body : String} {e : Error}
    (hreach : Reaches template params scope (.block list body :: rest))
    (hrows : rowsOfBlock scope.rows? list = .error e) : e.IsTruthful template params := by
  obtain ⟨text, hinside, hnodes⟩ := hreach.inside
  have hblock : Node.block list body ∈ Template.parse text := hnodes _ List.mem_cons_self
  unfold rowsOfBlock at hrows
  split at hrows
  case isTrue hempty =>
    cases hrows
    have hlist : list = "" := by simpa using hempty
    exact ⟨rfl, hlist ▸ hinside.hasBlock hblock⟩
  case isFalse hempty =>
    split at hrows
    case h_1 rows hlist => cases hrows
    case h_2 hlist =>
      cases hrows
      rw [Scope.rows?, hreach.params_eq] at hlist
      have hname := (Template.isReading_read text.toList).not_mem_list list body hblock
      exact ⟨by simpa using hempty, hname, hinside.hasBlock hblock, hlist⟩

theorem isTruthful_of_row {list body : String} {rows : List Row} {row : Row} {e : Error}
    (hreach : Reaches template params scope (.block list body :: rest))
    (hrows : rowsOfBlock scope.rows? list = .ok rows) (hrow : row ∈ rows)
    (henter : scope.enter ⟨list, row⟩ = .error e) : e.IsTruthful template params := by
  obtain ⟨text, hinside, hnodes⟩ := hreach.inside
  have hblock : Node.block list body ∈ Template.parse text := hnodes _ List.mem_cons_self
  have hbody : Inside template (⟨list, row⟩ :: scope.frames) body := hinside.body row hblock
  obtain ⟨key, rfl, hkey, hvisible, hleast⟩ := Scope.enter_eq_error_iff.1 henter
  have hlist := (rowsOfBlock_eq_ok_iff.1 hrows).2
  rw [Scope.rows?, hreach.params_eq] at hlist
  refine ⟨hbody.opener_infix _ List.mem_cons_self, ?_, ?_⟩
  · refine ⟨rows, row, hlist, hrow, Table.mem_keys_iff.1 hkey, fun k hk hlt => ?_⟩
    by_contra hscalar
    have hscalar' : (scope.params.scalar? k).isSome = true := by
      rw [hreach.params_eq]
      exact Option.isSome_iff_ne_none.2 hscalar
    exact Std.not_le.2 hlt (hleast k hk (Scope.isVisible_iff.2 (Or.inr hscalar')))
  · rcases Scope.isVisible_iff.1 hvisible with ⟨frame, hframe, hcontains⟩ | hscalar
    · obtain ⟨_, outer, houter, hmem⟩ := hreach.mem_rows frame hframe
      have hother : frame.list ≠ list := by
        intro heq
        have hnodup := hbody.nodup_lists
        rw [List.map_cons, List.nodup_cons] at hnodup
        exact hnodup.1 (List.mem_map.2 ⟨frame, hframe, heq⟩)
      exact Or.inr ⟨frame.list, hother, ⟨outer, frame.row, houter, hmem, hcontains⟩,
        hinside.opener_infix frame hframe⟩
    · exact Or.inl (hreach.params_eq ▸ hscalar)

end Reaches

/-- **Truthful errors.** A rendering that fails does so for a tag of the template that is no scalar,
for a block of it that is no list or has no name, or for a row of such a block whose least visible
key is a scalar or a key in a row of another block; and it fails in no other way. -/
theorem isTruthful_of_render {template : String} {params : Params} {e : Error}
    (h : Template.render template params = .error e) : e.IsTruthful template params := by
  obtain ⟨scope, node, rest, hreach, hraises⟩ := exists_raises_of_render h
  cases hraises with
  | tag hlookup => exact hreach.isTruthful_of_tag hlookup
  | block hrows => exact hreach.isTruthful_of_block hrows
  | row hrows hrow henter => exact hreach.isTruthful_of_row hrows hrow henter

theorem isTruthful_of_render_nested :
    ∃ params : Params, Template.render "<#a><#b><j></b></a>" params = .error (.collision "k" "b") ∧
      params.scalar? "k" = none ∧
      ∃ outer, outer ≠ "b" ∧ params.HasKey outer "k" ∧
        opener outer.toList <:+: "<#a><#b><j></b></a>".toList := by
  let params : Params := ⟨⟨[("a", .list [⟨[("k", "1")], by decide⟩]),
    ("b", .list [⟨[("j", "2"), ("k", "3")], by decide⟩])], by decide⟩⟩
  have hrender : Template.render "<#a><#b><j></b></a>" params = .error (.collision "k" "b") := by
    cbv
  have hscalar : params.scalar? "k" = none := by decide
  obtain ⟨_, _, hsome | houter⟩ := isTruthful_of_render hrender
  · rw [hscalar] at hsome
    cases hsome
  · exact ⟨params, hrender, hscalar, houter⟩

end RowTemplate
