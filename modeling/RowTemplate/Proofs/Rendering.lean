import RowTemplate.Proofs.Substitution

/-! Rendering as substitution. A step only adds text to the end of the output and gives the scope
back as it was, on failure as well; the text and the outcome depend on the scope alone. The stack of
rows and the one table of visible names answer every look-up alike, which is kept from each scope to
the scope of a row, so the two ways of rendering fail together and agree on their texts. -/

namespace RowTemplate

namespace RenderM

theorem bind_apply (first second : RenderM Unit) (state : RenderState) :
    (first >>= fun _ => second) state = match first state with
      | .ok _ after => second after
      | .error e after => .error e after := by
  change EStateM.bind first _ state = _
  rw [EStateM.bind]
  cases first state <;> rfl

theorem get_bind_apply (step : RenderState → RenderM Unit) (state : RenderState) :
    (get >>= step) state = step state state := rfl

theorem writeValue_apply (name : String) (state : RenderState) :
    writeValue name state = match state.scope.lookup name with
      | some value => .ok () { state with output := state.output ++ value }
      | none => .error (.notSet name .scalar) state := by
  rw [writeValue, get_bind_apply]
  cases state.scope.lookup name <;> rfl

theorem forRows_apply (list : String) (copy : RenderM Unit) (state : RenderState) :
    forRows list copy state = match rowsOfBlock state.scope.rows? list with
      | .ok rows => rows.forM (fun row => within ⟨list, row⟩ copy) state
      | .error e => .error e state := by
  unfold forRows rowsOfBlock
  by_cases hempty : list.isEmpty = true
  · simp only [hempty, if_true]
    rfl
  · simp only [hempty]
    refine (get_bind_apply _ state).trans ?_
    cases state.scope.rows? list <;> rfl

/-- The step has this outcome in a scope, whatever has been written before. -/
inductive Yields (step : RenderM Unit) (scope : Scope) : Except Error String → Prop
  | ok (text : String)
      (hrun : ∀ output, step ⟨scope, output⟩ = .ok () ⟨scope, output ++ text⟩) :
      Yields step scope (.ok text)
  | error (e : Error) (text : String)
      (hrun : ∀ output, step ⟨scope, output⟩ = .error e ⟨scope, output ++ text⟩) :
      Yields step scope (.error e)

variable {scope inner : Scope} {a b : Except Error String}

theorem Yields.congr {step step' : RenderM Unit} (h : Yields step scope a)
    (heq : ∀ output, step' ⟨scope, output⟩ = step ⟨scope, output⟩) : Yields step' scope a := by
  cases h with
  | ok text hrun => exact .ok text fun output => (heq output).trans (hrun output)
  | error e text hrun => exact .error e text fun output => (heq output).trans (hrun output)

theorem yields_pure (scope : Scope) : Yields (pure ()) scope (.ok "") :=
  .ok "" fun output => by rw [String.append_empty]; rfl

theorem yields_write (scope : Scope) (text : String) : Yields (write text) scope (.ok text) :=
  .ok text fun _ => rfl

theorem yields_throw (scope : Scope) (e : Error) : Yields (throw e) scope (.error e) :=
  .error e "" fun output => by rw [String.append_empty]; rfl

theorem Yields.seq {first second : RenderM Unit} (hfirst : Yields first scope a)
    (hsecond : Yields second scope b) :
    Yields (first >>= fun _ => second) scope (followedBy a b) := by
  cases hfirst with
  | error e text hrun =>
      refine .error e text fun output => ?_
      rw [bind_apply, hrun]
  | ok text hrun =>
      have hbind : ∀ output, (first >>= fun _ => second) ⟨scope, output⟩ =
          second ⟨scope, output ++ text⟩ := by
        intro output
        rw [bind_apply, hrun]
      cases hsecond with
      | ok text' hrun' =>
          refine .ok (text ++ text') fun output => ?_
          rw [hbind, hrun', String.append_assoc]
      | error e text' hrun' =>
          refine .error e (text ++ text') fun output => ?_
          rw [hbind, hrun', String.append_assoc]

theorem yields_writeValue (scope : Scope) (name : String) :
    Yields (writeValue name) scope (match scope.lookup name with
      | some value => .ok value
      | none => .error (.notSet name .scalar)) := by
  cases hlookup : scope.lookup name with
  | some value =>
      refine (yields_write scope value).congr fun output => ?_
      simp only [writeValue_apply, hlookup]
      rfl
  | none =>
      refine (yields_throw scope _).congr fun output => ?_
      simp only [writeValue_apply, hlookup]
      rfl

theorem yields_within_of_error {frame : Frame} {step : RenderM Unit} {e : Error}
    (henter : scope.enter frame = .error e) : Yields (within frame step) scope (.error e) := by
  refine .error e "" fun output => ?_
  simp only [within, henter, String.append_empty]

/-- A row is left again, so that outside it the scope is as before. -/
theorem Yields.within {frame : Frame} {step : RenderM Unit} (hstep : Yields step inner a)
    (henter : scope.enter frame = .ok inner) : Yields (within frame step) scope a := by
  have hleave := Scope.leave_of_enter henter
  cases hstep with
  | ok text hrun => exact .ok text fun output => by simp only [RenderM.within, henter, hrun, hleave]
  | error e text hrun =>
      exact .error e text fun output => by simp only [RenderM.within, henter, hrun, hleave]

theorem yields_forM {rows : List Row} {step : Row → RenderM Unit}
    {copy : Row → Except Error String} (hstep : ∀ row, Yields (step row) scope (copy row)) :
    Yields (rows.forM step) scope ((rows.mapM copy).map String.join) := by
  induction rows with
  | nil => exact yields_pure scope
  | cons row rest ih =>
      have houtcome : ((row :: rest).mapM copy).map String.join =
          followedBy (copy row) ((rest.mapM copy).map String.join) := by
        rw [List.mapM_cons]
        cases copy row with
        | error e => rfl
        | ok text =>
            cases rest.mapM copy with
            | error e => rfl
            | ok texts => exact congrArg Except.ok String.join_cons
      rw [houtcome]
      exact (hstep row).seq ih

theorem yields_forRows {list : String} {step : RenderM Unit} {copy : Row → Except Error String}
    (hstep : ∀ row, Yields (within ⟨list, row⟩ step) scope (copy row)) :
    Yields (forRows list step) scope (rowsOfBlock scope.rows? list >>= fun rows =>
      (rows.mapM copy).map String.join) := by
  cases hrows : rowsOfBlock scope.rows? list with
  | error e =>
      refine (yields_throw scope e).congr fun output => ?_
      simp only [forRows_apply, hrows]
      rfl
  | ok rows =>
      refine (yields_forM hstep).congr fun output => ?_
      simp only [forRows_apply, hrows]

end RenderM

namespace Params

theorem get?_scalars (params : Params) (name : String) :
    params.scalars.get? name = params.scalar? name := by
  have hnodup : ((params.table.entries.filterMap fun entry =>
      entry.2.scalar?.map (entry.1, ·)).map Prod.fst).Nodup := by
    refine params.table.nodup_filterMap fun entry kept hkept => ?_
    obtain ⟨value, _, rfl⟩ := Option.map_eq_some_iff.1 hkept
    rfl
  apply Option.ext
  intro value
  rw [scalars, Table.get?_ofList_eq_some_iff hnodup, List.mem_filterMap, scalar?,
    Option.bind_eq_some_iff]
  constructor
  · rintro ⟨⟨key, param⟩, hmem, hentry⟩
    obtain ⟨text, hscalar, hpair⟩ := Option.map_eq_some_iff.1 hentry
    cases hpair
    exact ⟨param, (params.table.mem_entries_iff _ _).1 hmem, hscalar⟩
  · rintro ⟨param, hget, hscalar⟩
    exact ⟨(name, param), (params.table.mem_entries_iff _ _).2 hget,
      Option.map_eq_some_iff.2 ⟨value, hscalar, rfl⟩⟩

end Params

namespace Scope

/-- One table of names answers like the scope with its stack of rows. -/
def Agrees (scope : Scope) (names : Row) : Prop := ∀ name, names.get? name = scope.lookup name

theorem agrees_scalars (params : Params) : (ofParams params).Agrees params.scalars :=
  params.get?_scalars

theorem Agrees.contains_eq {scope : Scope} {names : Row} (h : scope.Agrees names) :
    names.contains = scope.isVisible := by
  funext name
  rw [Table.contains, h name, isVisible]

/-- Entering a row and joining it fail for the same key, and agreement is kept otherwise. -/
theorem Agrees.enter {scope : Scope} {names : Row} (h : scope.Agrees names) (list : String)
    (row : Row) :
    (∃ e, scope.enter ⟨list, row⟩ = .error e ∧ names.join list row = .error e) ∨
      ∃ inner joined, scope.enter ⟨list, row⟩ = .ok inner ∧ names.join list row = .ok joined ∧
        inner.params = scope.params ∧ inner.Agrees joined := by
  have henter : scope.enter ⟨list, row⟩ = match row.keys.find? scope.isVisible with
    | some key => .error (.collision key list)
    | none => .ok { scope with frames := ⟨list, row⟩ :: scope.frames } := rfl
  have hjoin : names.join list row = match row.keys.find? scope.isVisible with
      | some key => .error (.collision key list)
      | none => .ok (names.union row) := by
    calc names.join list row
        = match row.keys.find? names.contains with
          | some key => .error (.collision key list)
          | none => .ok (names.union row) := rfl
      _ = _ := by rw [h.contains_eq]
  cases hfind : row.keys.find? scope.isVisible with
  | some key =>
      rw [hfind] at henter hjoin
      exact Or.inl ⟨_, henter, hjoin⟩
  | none =>
      rw [hfind] at henter hjoin
      refine Or.inr ⟨_, _, henter, hjoin, rfl, fun name => ?_⟩
      rw [Table.get?_of_join hjoin, lookup_of_enter henter, h name]

end Scope

/-- Rendering nodes and substituting in them, from scopes that agree. -/
theorem RenderM.yields_nodes (nodes : List Node) :
    ∀ {scope : Scope} {names : Row}, scope.Agrees names →
      Yields (RenderM.nodes nodes) scope (substituteText scope.params.list? names nodes) := by
  induction nodes using Node.bodyInduction with
  | nil =>
      intro scope names h
      rw [RenderM.nodes, substituteText_nil]
      exact yields_pure scope
  | text content rest ih =>
      intro scope names h
      rw [RenderM.nodes, substituteText_text]
      exact (yields_write scope content).seq (ih h)
  | tag name rest ih =>
      intro scope names h
      rw [RenderM.nodes, substituteText_tag, h name]
      exact (yields_writeValue scope name).seq (ih h)
  | block list body rest ihbody ih =>
      intro scope names h
      rw [RenderM.nodes, substituteText_block]
      refine (yields_forRows fun row => ?_).seq (ih h)
      rcases h.enter list row with ⟨e, henter, hjoin⟩ | ⟨inner, joined, henter, hjoin, hparams, hinner⟩
      · rw [copyText, hjoin]
        exact yields_within_of_error henter
      · rw [copyText, hjoin]
        have hbody := ihbody hinner
        rw [hparams] at hbody
        exact hbody.within henter

namespace Template

theorem render_eq (template : String) (params : Params) :
    render template params = substituteText params.list? params.scalars (parse template) := by
  have hyields : RenderM.Yields (RenderM.nodes (parse template)) (.ofParams params)
      (substituteText params.list? params.scalars (parse template)) :=
    RenderM.yields_nodes (parse template) (Scope.agrees_scalars params)
  generalize substituteText params.list? params.scalars (parse template) = outcome at hyields ⊢
  rw [render]
  cases hyields with
  | ok text hrun => rw [hrun, String.empty_append]
  | error e text hrun => rw [hrun]

/-- **Rendering is substitution.** The stack of rows gives the same text, or the same error, as one
table of visible names to which the row of each copy is joined; a row fails to join for the least of
its keys that is visible. -/
theorem render_eq_substitute (template : String) (params : Params) :
    render template params = params.substitute template ∧
      ∀ (names row : Row) (list : String) (e : Error), names.join list row = .error e ↔
        ∃ key, e = .collision key list ∧ key ∈ row.keys ∧ names.contains key = true ∧
          ∀ k ∈ row.keys, names.contains k = true → key ≤ k :=
  ⟨render_eq template params, fun _ _ _ _ => Table.join_eq_error_iff⟩

end Template

end RowTemplate
