import RowTemplate.Render
import RowTemplate.Proofs.Rendering

/-! The moments of a rendering. Between two moments one task is done: a node is rendered, the next
row of a block is entered, or a row is left. After a failure the tasks are dropped, but rows are
still left. The last moment has the result of the rendering, and every moment leads to it, so the
moments are those that rendering goes through. At each of them the scope is one that is reached. -/

namespace RowTemplate

/-- A task of a rendering. -/
inductive Task
  | nodes (nodes : List Node)
  /-- The copies of a block's body, for the rows that are still to come. -/
  | rows (list body : String) (rows : List Row)
  /-- The end of a copy. -/
  | leave

namespace Task

/-- Does a task as far as its first part, and gives the tasks that come in its place. -/
def step : Task → RenderM (List Task)
  | nodes [] => return []
  | nodes (.text content :: rest) => do
      RenderM.write content
      return [nodes rest]
  | nodes (.tag name :: rest) => do
      RenderM.writeValue name
      return [nodes rest]
  | nodes (.block list body :: rest) => fun state =>
      match rowsOfBlock state.scope.rows? list with
      | .ok all => .ok [rows list body all, nodes rest] state
      | .error e => .error e state
  | rows _ _ [] => return []
  | rows list body (row :: later) => fun state =>
      match state.scope.enter ⟨list, row⟩ with
      | .ok inner =>
          .ok [nodes (Template.parse body), leave, rows list body later] { state with scope := inner }
      | .error e => .error e state
  | leave => do
      modify fun state => { state with scope := state.scope.leave }
      return []

/-- What is left of a task when rendering has failed: a row is left. -/
def unwind : Task → RenderState → RenderState
  | leave, state => { state with scope := state.scope.leave }
  | _, state => state

end Task

/-- A moment of a rendering: the tasks that remain, the next one first, what they work on, and the
failure if there has been one. -/
structure Moment where
  tasks : List Task
  state : RenderState
  failure : Option Error

namespace Moment

/-- The moment after a step of the first task, where the tasks after it remain. -/
def afterStep (tasks : List Task) : EStateM.Result Error RenderState (List Task) → Moment
  | .ok new state => ⟨new ++ tasks, state, none⟩
  | .error e state => ⟨tasks, state, some e⟩

/-- The moment after this one; none after the last. -/
def next (moment : Moment) : Option Moment :=
  match moment.tasks, moment.failure with
  | [], _ => none
  | task :: tasks, none => some (afterStep tasks (task.step moment.state))
  | task :: tasks, some e => some ⟨tasks, task.unwind moment.state, some e⟩

/-- The first moment of rendering a template. -/
def start (template : String) (params : Params) : Moment :=
  ⟨[.nodes (Template.parse template)], ⟨.ofParams params, ""⟩, none⟩

/-- What rendering gives if it ends at this moment. -/
def result (moment : Moment) : Except Error String :=
  match moment.failure with
  | none => .ok moment.state.output
  | some e => .error e

/-- One moment comes some steps after another. -/
abbrev LeadsTo : Moment → Moment → Prop :=
  Relation.ReflTransGen fun moment after => moment.next = some after

/-- The moment at which a step has run and the tasks remain. -/
def afterRun (tasks : List Task) : EStateM.Result Error RenderState Unit → Moment
  | .ok _ state => ⟨tasks, state, none⟩
  | .error e state => ⟨tasks, state, some e⟩

theorem leadsTo_of_next {moment after last : Moment} (hnext : moment.next = some after)
    (h : after.LeadsTo last) : moment.LeadsTo last :=
  Relation.ReflTransGen.head hnext h

theorem leadsTo_of_step {task : Task} {tasks : List Task} {state : RenderState} {last : Moment}
    {result : EStateM.Result Error RenderState (List Task)} (hstep : task.step state = result)
    (h : (afterStep tasks result).LeadsTo last) : LeadsTo ⟨task :: tasks, state, none⟩ last :=
  leadsTo_of_next (hstep ▸ rfl) h

end Moment

namespace Task

open Moment

/-- A task does what a step of rendering does, whatever tasks remain after it. -/
def Does (task : Task) (step : RenderM Unit) : Prop :=
  ∀ state tasks, Moment.LeadsTo ⟨task :: tasks, state, none⟩ (afterRun tasks (step state))

/-- A task is done after a step that has run, or dropped if that step has failed. -/
theorem Does.after {task : Task} {first second : RenderM Unit} (htask : Does task second)
    (hunwind : ∀ state, task.unwind state = state) {moment : Moment} {state : RenderState}
    {tasks : List Task} (h : moment.LeadsTo (afterRun (task :: tasks) (first state))) :
    moment.LeadsTo (afterRun tasks ((first >>= fun _ => second) state)) := by
  rw [RenderM.bind_apply]
  cases hfirst : first state with
  | ok done after =>
      rw [hfirst] at h
      exact h.trans (htask after tasks)
  | error e after =>
      rw [hfirst] at h
      have hnext : next ⟨task :: tasks, after, some e⟩ = some ⟨tasks, after, some e⟩ := by
        simp only [next, hunwind]
      exact h.trans (leadsTo_of_next hnext .refl)

/-- A task that is a step of rendering, after which another task takes its place. -/
theorem does_seq {task later : Task} {first second : RenderM Unit}
    (hstep : ∀ state, task.step state = EStateM.bind first (fun _ => pure [later]) state)
    (hlater : Does later second) : Does task (first >>= fun _ => second) := by
  intro state tasks
  refine leadsTo_of_step (hstep state) ?_
  rw [EStateM.bind, RenderM.bind_apply]
  cases first state with
  | ok done after => exact hlater after tasks
  | error e after => exact .refl

theorem step_tag (name : String) (rest : List Node) (state : RenderState) :
    step (nodes (.tag name :: rest)) state = match state.scope.lookup name with
      | some value => .ok [nodes rest] { state with output := state.output ++ value }
      | none => .error (.notSet name .scalar) state := by
  change EStateM.bind (RenderM.writeValue name) _ state = _
  rw [EStateM.bind, RenderM.writeValue_apply]
  cases state.scope.lookup name <;> rfl

theorem does_rows {list body : String}
    (hbody : Does (nodes (Template.parse body)) (RenderM.nodes (Template.parse body)))
    (later : List Row) : Does (rows list body later)
      (later.forM fun row => RenderM.within ⟨list, row⟩ (RenderM.nodes (Template.parse body))) := by
  induction later with
  | nil => exact fun state tasks => leadsTo_of_next rfl .refl
  | cons row later ih =>
      intro state tasks
      change LeadsTo _ (afterRun tasks ((RenderM.within ⟨list, row⟩ _ >>= fun _ => later.forM _) state))
      cases henter : state.scope.enter ⟨list, row⟩ with
      | error e =>
          have hstep : (rows list body (row :: later)).step state = .error e state := by
            simp only [step, henter]
          refine leadsTo_of_step hstep ?_
          simp only [RenderM.bind_apply, RenderM.within, henter]
          exact .refl
      | ok inner =>
          have hstep : (rows list body (row :: later)).step state =
              .ok [nodes (Template.parse body), leave, rows list body later]
                { state with scope := inner } := by
            simp only [step, henter]
          refine leadsTo_of_step hstep (ih.after (fun _ => rfl) ?_)
          have hrun := hbody { state with scope := inner } (leave :: rows list body later :: tasks)
          simp only [RenderM.within, henter]
          cases hresult : RenderM.nodes (Template.parse body) { state with scope := inner } with
          | ok done after =>
              rw [hresult] at hrun
              exact hrun.trans (leadsTo_of_next rfl .refl)
          | error e after =>
              rw [hresult] at hrun
              exact hrun.trans (leadsTo_of_next rfl .refl)

theorem does_nodes (ns : List Node) : Does (nodes ns) (RenderM.nodes ns) := by
  induction ns using Node.bodyInduction with
  | nil =>
      rw [RenderM.nodes]
      exact fun state tasks => leadsTo_of_next rfl .refl
  | text content rest ih =>
      rw [RenderM.nodes]
      exact does_seq (fun _ => rfl) ih
  | tag name rest ih =>
      rw [RenderM.nodes]
      exact does_seq (fun _ => rfl) ih
  | block list body rest ihbody ih =>
      rw [RenderM.nodes]
      intro state tasks
      cases hrows : rowsOfBlock state.scope.rows? list with
      | error e =>
          have hstep : (nodes (.block list body :: rest)).step state = .error e state := by
            simp only [step, hrows]
          refine leadsTo_of_step hstep ?_
          simp only [RenderM.bind_apply, RenderM.forRows_apply, hrows]
          exact .refl
      | ok all =>
          have hstep : (nodes (.block list body :: rest)).step state =
              .ok [rows list body all, nodes rest] state := by
            simp only [step, hrows]
          refine leadsTo_of_step hstep (ih.after (fun _ => rfl) ?_)
          simp only [RenderM.forRows_apply, hrows]
          exact does_rows ihbody all state (nodes rest :: tasks)

end Task

namespace Moment

theorem start_leadsTo_last (template : String) (params : Params) :
    ∃ last, (start template params).LeadsTo last ∧ last.next = none ∧
      last.result = Template.render template params := by
  have hrun := Task.does_nodes (Template.parse template) ⟨.ofParams params, ""⟩ []
  rw [Template.render]
  cases hresult : RenderM.nodes (Template.parse template) ⟨.ofParams params, ""⟩ with
  | ok done state =>
      rw [hresult] at hrun
      exact ⟨_, hrun, rfl, rfl⟩
  | error e state =>
      rw [hresult] at hrun
      exact ⟨_, hrun, rfl, rfl⟩

/-- Every moment of a rendering leads to the last one, which has the result of the rendering. -/
theorem leadsTo_last {template : String} {params : Params} {moment : Moment}
    (h : (start template params).LeadsTo moment) :
    ∃ last, moment.LeadsTo last ∧ last.next = none ∧
      last.result = Template.render template params := by
  obtain ⟨last, hlast, hnext, hresult⟩ := start_leadsTo_last template params
  have hunique : Relator.RightUnique fun moment after : Moment => moment.next = some after :=
    fun _ _ _ hafter hafter' => Option.some.inj (hafter.symm.trans hafter')
  rcases Relation.ReflTransGen.total_of_right_unique hunique h hlast with hto | hfrom
  · exact ⟨last, hto, hnext, hresult⟩
  · rcases Relation.ReflTransGen.cases_head hfrom with rfl | ⟨after, hafter, _⟩
    · exact ⟨last, .refl, hnext, hresult⟩
    · rw [hnext] at hafter
      cases hafter

/-! ### The scopes of the moments -/

variable (template : String) (params : Params)

/-- Each task is at a place that is reached, in the scope that it will find. -/
def Placed : List Task → Scope → Prop
  | [], _ => True
  | .nodes nodes :: tasks, scope => Reaches template params scope nodes ∧ Placed tasks scope
  | .rows list body later :: tasks, scope =>
      (∃ rest all, Reaches template params scope (.block list body :: rest) ∧
        rowsOfBlock scope.rows? list = .ok all ∧ later ⊆ all) ∧ Placed tasks scope
  | .leave :: tasks, scope =>
      (∃ nodes, Reaches template params scope.leave nodes) ∧ Placed tasks scope.leave

variable {template params}

/-- A moment in a scope that is reached, with its tasks at places that are reached. -/
def IsPlaced (template : String) (params : Params) (moment : Moment) : Prop :=
  (∃ nodes, Reaches template params moment.state.scope nodes) ∧
    Placed template params moment.tasks moment.state.scope

theorem isPlaced_step_nodes {nodes : List Node} {tasks : List Task} {state : RenderState}
    (hreach : Reaches template params state.scope nodes)
    (htasks : Placed template params tasks state.scope) :
    (afterStep tasks ((Task.nodes nodes).step state)).IsPlaced template params := by
  match nodes with
  | [] => exact ⟨⟨_, hreach⟩, htasks⟩
  | .text content :: rest => exact ⟨⟨_, hreach⟩, hreach.past, htasks⟩
  | .tag name :: rest =>
      rw [Task.step_tag]
      cases state.scope.lookup name with
      | none => exact ⟨⟨_, hreach⟩, htasks⟩
      | some value => exact ⟨⟨_, hreach⟩, hreach.past, htasks⟩
  | .block list body :: rest =>
      simp only [Task.step]
      cases hrows : rowsOfBlock state.scope.rows? list with
      | error e => exact ⟨⟨_, hreach⟩, htasks⟩
      | ok all =>
          exact ⟨⟨_, hreach⟩, ⟨rest, all, hreach, hrows, List.Subset.refl all⟩, hreach.past, htasks⟩

theorem isPlaced_step_rows {list body : String} {rest : List Node} {all later : List Row}
    {tasks : List Task} {state : RenderState}
    (hreach : Reaches template params state.scope (.block list body :: rest))
    (hrows : rowsOfBlock state.scope.rows? list = .ok all) (hlater : later ⊆ all)
    (htasks : Placed template params tasks state.scope) :
    (afterStep tasks ((Task.rows list body later).step state)).IsPlaced template params := by
  cases later with
  | nil => exact ⟨⟨_, hreach⟩, htasks⟩
  | cons row later =>
      simp only [Task.step]
      cases henter : state.scope.enter ⟨list, row⟩ with
      | error e => exact ⟨⟨_, hreach⟩, htasks⟩
      | ok inner =>
          obtain ⟨hne, hall⟩ := rowsOfBlock_eq_ok_iff.1 hrows
          have hbody : Reaches template params inner (Template.parse body) :=
            .into hreach hne hall (hlater List.mem_cons_self) henter
          have hlater' : later ⊆ all := fun row hrow => hlater (List.mem_cons_of_mem _ hrow)
          refine ⟨⟨_, hbody⟩, hbody, ?_⟩
          change (∃ nodes, Reaches template params inner.leave nodes) ∧
            Placed template params (.rows list body later :: tasks) inner.leave
          rw [Scope.leave_of_enter henter]
          exact ⟨⟨_, hreach⟩, ⟨rest, all, hreach, hrows, hlater'⟩, htasks⟩

theorem IsPlaced.next {moment after : Moment} (h : moment.IsPlaced template params)
    (hnext : moment.next = some after) : after.IsPlaced template params := by
  obtain ⟨tasks, state, failure⟩ := moment
  obtain ⟨hscope, hplaced⟩ := h
  cases tasks with
  | nil => cases failure <;> cases hnext
  | cons task tasks =>
      cases failure with
      | none =>
          cases hnext
          cases task with
          | nodes nodes => exact isPlaced_step_nodes hplaced.1 hplaced.2
          | rows list body later =>
              obtain ⟨⟨rest, all, hreach, hrows, hlater⟩, htasks⟩ := hplaced
              exact isPlaced_step_rows hreach hrows hlater htasks
          | leave => exact hplaced
      | some e =>
          cases hnext
          cases task with
          | nodes nodes => exact ⟨hscope, hplaced.2⟩
          | rows list body later => exact ⟨hscope, hplaced.2⟩
          | leave => exact hplaced

/-- At each moment of a rendering the scope is one that is reached. -/
theorem isPlaced_of_leadsTo {moment : Moment} (h : (start template params).LeadsTo moment) :
    moment.IsPlaced template params := by
  induction h with
  | refl => exact ⟨⟨_, .start⟩, .start, trivial⟩
  | tail _ hnext ih => exact ih.next hnext

end Moment

end RowTemplate
