import RowTemplate.Proofs.WritingLog

/-! Runs of steps that write no text. The first of them starts a line and no later one starts
another, because the line under way stays empty; so of such a run only the level is left, which is
what a counter comes to that goes up and down with the steps. -/

namespace RowTemplate.LineBuffer

namespace Step

/-- A step that writes no text. -/
def isLayout : Step → Bool
  | append _ => false
  | breakLine => true
  | appendLine _ => false
  | indent => true
  | unindent => true

end Step

/-- An empty line under way is not ended, whatever its level. -/
theorem breakLine_atLevel (buffer : LineBuffer) (level : Nat) :
    (buffer.breakLine.atLevel level).breakLine = buffer.breakLine.atLevel level := by
  have hcontents : (buffer.breakLine.atLevel level).current.contents = "" := contents_breakLine buffer
  rw [breakLine, hcontents]
  rfl

/-! ### One step -/

theorem perform_of_isLayout (buffer : LineBuffer) {step : Step} (h : step.isLayout = true) :
    (buffer.perform step).2 = buffer.breakLine.atLevel (step.levelAfter buffer.level) := by
  cases step with
  | append text => cases h
  | breakLine => exact breakLine_eq_atLevel buffer
  | appendLine text => cases h
  | indent => exact indent_eq_atLevel buffer
  | unindent =>
      change buffer.unindent.2 = _
      rw [unindent_eq]
      rfl

/-! ### A run of steps -/

theorem state_performAll_cons (buffer : LineBuffer) (step : Step) (steps : List Step) :
    (buffer.performAll (step :: steps)).2 = ((buffer.perform step).2.performAll steps).2 := rfl

/-- From an empty line under way the steps change its level alone. -/
theorem performAll_atLevel (steps : List Step) :
    ∀ (buffer : LineBuffer) (level : Nat), (∀ step ∈ steps, step.isLayout = true) →
      ((buffer.breakLine.atLevel level).performAll steps).2 =
        buffer.breakLine.atLevel (steps.foldl Step.levelAfter level) := by
  induction steps with
  | nil => exact fun _ _ _ => rfl
  | cons step steps ih =>
      intro buffer level hlayout
      obtain ⟨hstep, hsteps⟩ := List.forall_mem_cons.1 hlayout
      have hfirst : ((buffer.breakLine.atLevel level).perform step).2 =
          buffer.breakLine.atLevel (step.levelAfter level) := by
        rw [perform_of_isLayout _ hstep, breakLine_atLevel]
        rfl
      rw [state_performAll_cons, hfirst, ih buffer _ hsteps, List.foldl_cons]

theorem performAll_of_isLayout (buffer : LineBuffer) {steps : List Step} (hne : steps ≠ [])
    (hlayout : ∀ step ∈ steps, step.isLayout = true) :
    (buffer.performAll steps).2 =
      buffer.breakLine.atLevel (steps.foldl Step.levelAfter buffer.level) := by
  cases steps with
  | nil => exact absurd rfl hne
  | cons step steps =>
      obtain ⟨hstep, hsteps⟩ := List.forall_mem_cons.1 hlayout
      rw [state_performAll_cons, perform_of_isLayout _ hstep, List.foldl_cons]
      exact performAll_atLevel steps buffer _ hsteps

/-- **Layout is one counter.** Steps that write no text, at least one, leave the buffer as one line
break does, with the line under way at the level that a counter comes to which goes up by one at each
step to the right and down by one, if it can, at each step to the left. A step to the left fails
exactly where the counter is 0. So a second line break changes nothing, and steps with as many to the
right as to the left that succeed are one line break. -/
theorem performAll_layout (buffer : LineBuffer) (steps : List Step) (hne : steps ≠ [])
    (hlayout : ∀ step ∈ steps, step.isLayout = true) :
    (buffer.performAll steps).2 =
        buffer.breakLine.atLevel (steps.foldl Step.levelAfter buffer.level) ∧
      (∀ before step after, steps = before ++ step :: after →
        (buffer.performAll steps).1[before.length]? =
          some (if step = .unindent ∧ before.foldl Step.levelAfter buffer.level = 0 then
            .error .negativeIndentation else .ok ())) ∧
      buffer.breakLine.breakLine = buffer.breakLine ∧
      (steps.count .indent = unindents steps (buffer.performAll steps).1 →
        (buffer.performAll steps).2 = buffer.breakLine) := by
  have hrun := performAll_of_isLayout buffer hne hlayout
  refine ⟨hrun, ?_, breakLine_breakLine buffer, fun hcount => ?_⟩
  · rintro before step after rfl
    exact outcome_performAll before after step buffer
  · have hlevel := level_performAll_add steps buffer
    rw [level_performAll, hcount] at hlevel
    rw [hrun, Nat.add_right_cancel hlevel]
    exact (breakLine_eq_atLevel buffer).symm

theorem performAll_layout_balanced :
    let buffer := ((empty 2).performAll [.indent, .append "a"]).2
    let steps : List Step := [.unindent, .unindent, .breakLine, .indent]
    (∀ step ∈ steps, step.isLayout = true) ∧
      (buffer.performAll steps).1 =
        [.ok (), .error .negativeIndentation, .ok (), .ok ()] ∧
      (buffer.performAll steps).2 = ⟨2, #[⟨1, "a"⟩], ⟨1, ""⟩⟩ ∧
      (buffer.performAll steps).2 = buffer.breakLine := by
  intro buffer steps
  have hlayout : ∀ step ∈ steps, step.isLayout = true := by decide
  have houtcomes : (buffer.performAll steps).1 =
      [.ok (), .error .negativeIndentation, .ok (), .ok ()] := by rfl
  obtain ⟨hstate, _, _, hbalanced⟩ := performAll_layout buffer steps (List.cons_ne_nil _ _) hlayout
  refine ⟨hlayout, houtcomes, hstate, hbalanced ?_⟩
  rw [houtcomes]
  rfl

end RowTemplate.LineBuffer
