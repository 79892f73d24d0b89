import RowTemplate.Form
import RowTemplate.Proofs.Runs
import RowTemplate.Proofs.Substitution

/-! Calls to a form one after the other. A call binds a name, or renders and binds nothing, or fails
and leaves the form as it was. So what a form has bound at any point is what the calls that succeeded
have bound, put into empty parameters in order; a rendering sees nothing else of what happened before
it. -/

namespace RowTemplate.Form

variable {form : Form} {name : String} {param : Param}

/-! ### One call -/

/-- What a call binds if it succeeds. -/
def Call.binding? : Call → Option (String × Param)
  | .bindScalar name value => some (name, .scalar value)
  | .bindList name rows => some (name, .list rows)
  | .bindData name data => (data.mapM Row.ofDatum).toOption.map fun rows => (name, .list rows)
  | .render => none

/-- The reply to a call that binds a name, and the form after it. -/
def answerBind (form : Form) (name : String) (param : Param) : Except Error Reply × Form :=
  match form.params.bind name param with
  | .ok bound => (.ok (.bound bound.size), { form with params := bound })
  | .error e => (.error e, form)

theorem answer_bindScalar (form : Form) (name value : String) :
    form.answer (.bindScalar name value) = form.answerBind name (.scalar value) := by
  rw [answer, bind, answerBind]
  cases form.params.bind name (.scalar value) <;> rfl

theorem answer_bindList (form : Form) (name : String) (rows : List Row) :
    form.answer (.bindList name rows) = form.answerBind name (.list rows) := by
  rw [answer, bind, answerBind]
  cases form.params.bind name (.list rows) <;> rfl

/-- Data are converted first, in order and up to the first failure; then their rows are bound. -/
theorem answer_bindData (form : Form) (name : String) (data : List Datum) :
    form.answer (.bindData name data) = match data.mapM Row.ofDatum with
      | .ok rows => form.answer (.bindList name rows)
      | .error e => (.error e, form) := by
  rw [answer, bindData]
  cases data.mapM Row.ofDatum <;> rfl

/-- What a call can come to: it binds a name, or it renders, or it fails and changes nothing. -/
inductive Effect (form : Form) (call : Call) : Except Error Reply × Form → Prop
  | bound {name : String} {param : Param} {bound : Params}
      (hbinding : call.binding? = some (name, param))
      (hbind : form.params.bind name param = .ok bound) :
      Effect form call (.ok (.bound bound.size), { form with params := bound })
  | rendered {text : String} (hbinding : call.binding? = none) (hrender : form.render = .ok text) :
      Effect form call (.ok (.rendered text), form)
  | failed (e : Error) : Effect form call (.error e, form)

theorem effect_answerBind {call : Call} (hbinding : call.binding? = some (name, param)) :
    Effect form call (form.answerBind name param) := by
  rw [answerBind]
  cases hbind : form.params.bind name param with
  | ok bound => exact .bound hbinding hbind
  | error e => exact .failed e

theorem effect_answer (form : Form) (call : Call) : Effect form call (form.answer call) := by
  cases call with
  | bindScalar name value =>
      rw [answer_bindScalar]
      exact effect_answerBind rfl
  | bindList name rows =>
      rw [answer_bindList]
      exact effect_answerBind rfl
  | bindData name data =>
      rw [answer_bindData]
      cases hrows : data.mapM Row.ofDatum with
      | error e => exact .failed e
      | ok rows =>
          dsimp only
          rw [answer_bindList]
          refine effect_answerBind ?_
          rw [Call.binding?, hrows]
          rfl
  | render =>
      rw [answer]
      cases hrender : form.render with
      | error e => exact .failed e
      | ok text => exact .rendered rfl hrender

theorem answer_of_error {call : Call} {e : Error} (h : (form.answer call).1 = .error e) :
    (form.answer call).2 = form := by
  have heffect := effect_answer form call
  generalize form.answer call = result at h heffect ⊢
  cases heffect with
  | bound _ _ => cases h
  | rendered _ _ => rfl
  | failed _ => rfl

theorem template_answer (form : Form) (call : Call) :
    (form.answer call).2.template = form.template := by
  have heffect := effect_answer form call
  generalize form.answer call = result at heffect ⊢
  cases heffect <;> rfl

/-- Binding rows from data fails for the first datum that is no row, and nothing is looked at but the
data; otherwise it is the same as binding the rows. -/
theorem answer_bindData_cases (form : Form) (name : String) (data : List Datum) :
    (∃ rows, List.Forall₂ (fun datum row => Row.ofDatum datum = .ok row) data rows ∧
      form.answer (.bindData name data) = form.answer (.bindList name rows)) ∨
    ∃ before datum after e, data = before ++ datum :: after ∧
      (∀ earlier ∈ before, ∃ row, Row.ofDatum earlier = .ok row) ∧ Row.ofDatum datum = .error e ∧
      form.answer (.bindData name data) = (.error e, form) := by
  rw [answer_bindData]
  cases hrows : data.mapM Row.ofDatum with
  | ok rows => exact Or.inl ⟨rows, mapM_eq_ok_iff.1 hrows, rfl⟩
  | error e =>
      obtain ⟨before, datum, after, hdata, hbefore, hdatum⟩ := exists_of_mapM_eq_error hrows
      exact Or.inr ⟨before, datum, after, e, hdata, hbefore, hdatum, rfl⟩

/-! ### Calls in order -/

theorem answerAll_eq_runAll (calls : List Call) (form : Form) :
    form.answerAll calls = runAll answer form calls := by
  induction calls generalizing form with
  | nil => rfl
  | cons call calls ih => rw [runAll, ← ih]; rfl

theorem template_answerAll (calls : List Call) (form : Form) :
    (form.answerAll calls).2.template = form.template := by
  rw [answerAll_eq_runAll]
  refine runAll_invariant (P := fun later => later.template = form.template) answer ?_ calls rfl
  exact fun later call h => (template_answer later call).trans h

/-- What calls have bound: a call that fails, or that renders, binds nothing. -/
def bindingsOf (calls : List Call) (replies : List (Except Error Reply)) : List (String × Param) :=
  (calls.zip replies).filterMap fun (call, reply) => reply.toOption.bind fun _ => call.binding?

/-- A form has bound what its calls have bound, in order and each with success. -/
theorem bindAll_bindingsOf (calls : List Call) (form : Form) :
    form.params.bindAll (bindingsOf calls (form.answerAll calls).1) =
      .ok (form.answerAll calls).2.params := by
  induction calls generalizing form with
  | nil => rfl
  | cons call calls ih =>
      have hrest := ih (form.answer call).2
      have heffect := effect_answer form call
      change form.params.bindAll (bindingsOf (call :: calls)
        ((form.answer call).1 :: ((form.answer call).2.answerAll calls).1)) =
          .ok ((form.answer call).2.answerAll calls).2.params
      generalize form.answer call = result at hrest heffect ⊢
      rw [bindingsOf, List.zip_cons_cons, List.filterMap_cons]
      cases heffect with
      | @bound name param bound hbinding hbind =>
          simp only [Except.toOption, Option.bind_some, hbinding]
          rw [Params.bindAll, List.foldlM_cons, hbind]
          exact hrest
      | rendered hbinding hrender =>
          simp only [Except.toOption, Option.bind_some, hbinding]
          exact hrest
      | failed e => exact hrest

/-- **Sessions.** Let calls be made to a template with nothing bound, and let another one follow. The
call is answered by the form that the calls before it have left. If it fails, the form stays as it is;
the template is always the same. Binding rows from data fails for the first datum that is no row, and
is otherwise the same as binding the rows. The form has bound what the successful calls have bound,
in order, and its rendering is that of the template with these parameters; so after other calls that
have bound the same it is the same form. -/
theorem answerAll_atomic (template : String) (before : List Call) (call : Call)
    (after : List Call) :
    let start := ofTemplate template
    let form := (start.answerAll before).2
    (start.answerAll (before ++ call :: after)).1[before.length]? = some (form.answer call).1 ∧
      (start.answerAll (before ++ [call])).2 = (form.answer call).2 ∧
      (∀ e, (form.answer call).1 = .error e → (form.answer call).2 = form) ∧
      form.template = template ∧
      (∀ name data,
        (∃ rows, List.Forall₂ (fun datum row => Row.ofDatum datum = .ok row) data rows ∧
          form.answer (.bindData name data) = form.answer (.bindList name rows)) ∨
        ∃ earlier datum later e, data = earlier ++ datum :: later ∧
          (∀ d ∈ earlier, ∃ row, Row.ofDatum d = .ok row) ∧ Row.ofDatum datum = .error e ∧
          form.answer (.bindData name data) = (.error e, form)) ∧
      (∃ params, Params.empty.bindAll (bindingsOf before (start.answerAll before).1) = .ok params ∧
        form.params = params ∧
        (form.answer .render).1 = (Template.render template params).map .rendered) ∧
      ∀ others, bindingsOf others (start.answerAll others).1 =
          bindingsOf before (start.answerAll before).1 → (start.answerAll others).2 = form := by
  intro start form
  have htemplate : ∀ calls, (start.answerAll calls).2.template = template :=
    fun calls => template_answerAll calls start
  have hbindings : ∀ calls, Params.empty.bindAll (bindingsOf calls (start.answerAll calls).1) =
      .ok (start.answerAll calls).2.params := fun calls => bindAll_bindingsOf calls start
  refine ⟨?_, ?_, fun e => answer_of_error, htemplate before, answer_bindData_cases form,
    ⟨form.params, hbindings before, rfl, ?_⟩, fun others hothers => ?_⟩
  · rw [answerAll_eq_runAll, outcome_runAll, ← answerAll_eq_runAll]
  · rw [answerAll_eq_runAll, state_runAll_concat, ← answerAll_eq_runAll]
  · rw [answer, render, htemplate before]
  · have hparams := hbindings others
    rw [hothers, hbindings before] at hparams
    have hsame : (start.answerAll others).2.params = form.params := (Except.ok.inj hparams).symm
    calc (start.answerAll others).2
        = ⟨(start.answerAll others).2.template, (start.answerAll others).2.params⟩ := rfl
      _ = ⟨form.template, form.params⟩ := by rw [htemplate others, hsame, htemplate before]
      _ = form := rfl

end RowTemplate.Form
