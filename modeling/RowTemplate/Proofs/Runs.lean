import Mathlib

/-! Runs of steps that each change a state and have an outcome. A step that fails does not stop the
others. What holds of every run needs one proof: a run in two parts is the second part from the state
after the first, and the outcome of a step is its outcome in the state after the steps before it. -/

namespace RowTemplate

universe u v w

variable {σ : Type u} {ι : Type v} {ο : Type w}

/-- Takes steps in order: their outcomes, and the state after them. -/
def runAll (step : σ → ι → ο × σ) (state : σ) : List ι → List ο × σ
  | [] => ([], state)
  | item :: items =>
      let later := runAll step (step state item).2 items
      ((step state item).1 :: later.1, later.2)

variable (step : σ → ι → ο × σ)

theorem runAll_append (before after : List ι) (state : σ) :
    runAll step state (before ++ after) =
      ((runAll step state before).1 ++ (runAll step (runAll step state before).2 after).1,
        (runAll step (runAll step state before).2 after).2) := by
  induction before generalizing state with
  | nil => rfl
  | cons item before ih => rw [List.cons_append, runAll, ih, runAll, List.cons_append]

theorem length_runAll (items : List ι) (state : σ) :
    (runAll step state items).1.length = items.length := by
  induction items generalizing state with
  | nil => rfl
  | cons item items ih => rw [runAll, List.length_cons, List.length_cons, ih]

/-- The outcome of a step among others. -/
theorem outcome_runAll (before : List ι) (item : ι) (after : List ι) (state : σ) :
    (runAll step state (before ++ item :: after)).1[before.length]? =
      some (step (runAll step state before).2 item).1 := by
  rw [runAll_append, ← length_runAll step before state, List.getElem?_append_right (Nat.le_refl _),
    Nat.sub_self]
  rfl

/-- The state after one step more. -/
theorem state_runAll_concat (before : List ι) (item : ι) (state : σ) :
    (runAll step state (before ++ [item])).2 = (step (runAll step state before).2 item).2 := by
  rw [runAll_append]
  rfl

/-- What every step keeps, a run keeps. -/
theorem runAll_invariant {P : σ → Prop} (hstep : ∀ state item, P state → P (step state item).2)
    (items : List ι) {state : σ} (h : P state) : P (runAll step state items).2 := by
  induction items generalizing state with
  | nil => exact h
  | cons item items ih => exact ih (hstep state item h)

end RowTemplate
