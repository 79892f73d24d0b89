import RowTemplate.Proofs.Nesting

/-! No name is bound twice on a stack that rendering reaches. A row is let in only if none of its keys
is visible, so the keys of the rows and the scalars stay apart, and a look-up finds the one place that
binds the name wherever it stands in the stack. Steps that look names up in two scopes with the same
look-ups write the same text and fail alike, in every row that both let in; so the order of the rows
does not matter for a rendering. -/

namespace RowTemplate

/-! ### Names on the stack -/

/-- Two rows have no key in common. -/
def Frame.Apart (frame frame' : Frame) : Prop :=
  ∀ key, frame.row.contains key = true → frame'.row.contains key = false

theorem Frame.Apart.symm {frame frame' : Frame} (h : frame.Apart frame') : frame'.Apart frame := by
  intro key hkey
  by_contra hkey'
  rw [h key (by simpa using hkey')] at hkey
  cases hkey

instance : Std.Symm Frame.Apart := ⟨fun _ _ => Frame.Apart.symm⟩

namespace Scope

/-- No key is in two rows of the stack, and no key of a row is a scalar. -/
structure Unshadowed (scope : Scope) : Prop where
  apart : scope.frames.Pairwise Frame.Apart
  free : ∀ frame ∈ scope.frames, ∀ key, frame.row.contains key = true →
    scope.params.scalar? key = none

theorem unshadowed_ofParams (params : Params) : (ofParams params).Unshadowed where
  apart := .nil
  free := nofun

theorem lookup_eq_none_iff {scope : Scope} {name : String} : scope.lookup name = none ↔
    (∀ frame ∈ scope.frames, frame.row.get? name = none) ∧ scope.params.scalar? name = none := by
  rw [lookup, Option.or_eq_none_iff, List.findSome?_eq_none_iff]

/-- Letting a row in keeps all names apart. -/
theorem Unshadowed.enter {scope inner : Scope} {frame : Frame} (h : scope.Unshadowed)
    (henter : scope.enter frame = .ok inner) : inner.Unshadowed := by
  obtain ⟨hhidden, rfl⟩ := enter_eq_ok_iff.1 henter
  have hnew : ∀ key, frame.row.contains key = true → scope.lookup key = none := fun key hkey => by
    simpa [isVisible] using hhidden key (Table.mem_keys_iff.2 hkey)
  constructor
  case apart =>
    refine List.pairwise_cons.2 ⟨fun outer houter key hkey => ?_, h.apart⟩
    rw [Table.contains, (lookup_eq_none_iff.1 (hnew key hkey)).1 outer houter]
    rfl
  case free =>
    intro frame' hmem key hkey
    rcases List.mem_cons.1 hmem with rfl | hmem
    · exact (lookup_eq_none_iff.1 (hnew key hkey)).2
    · exact h.free frame' hmem key hkey

theorem Unshadowed.perm {scope : Scope} {frames : List Frame} (h : scope.Unshadowed)
    (hperm : frames.Perm scope.frames) : Unshadowed ⟨scope.params, frames⟩ where
  apart := hperm.symm.pairwise h.apart Frame.Apart.symm
  free := fun frame hmem => h.free frame (hperm.subset hmem)

/-- The name has the value in a row of the stack or among the scalars. -/
def Binds (scope : Scope) (name value : String) : Prop :=
  (∃ frame ∈ scope.frames, frame.row.get? name = some value) ∨
    scope.params.scalar? name = some value

theorem binds_of_lookup {scope : Scope} {name value : String}
    (h : scope.lookup name = some value) : scope.Binds name value := by
  rw [lookup, Option.or_eq_some_iff] at h
  exact h.imp List.exists_of_findSome?_eq_some And.right

theorem exists_lookup_of_binds {scope : Scope} {name value : String} (h : scope.Binds name value) :
    ∃ found, scope.lookup name = some found := by
  rw [← Option.ne_none_iff_exists']
  intro hnone
  obtain ⟨hframes, hscalar⟩ := lookup_eq_none_iff.1 hnone
  rcases h with ⟨frame, hframe, hvalue⟩ | hvalue
  · rw [hframes frame hframe] at hvalue
    cases hvalue
  · rw [hscalar] at hvalue
    cases hvalue

theorem Unshadowed.eq_of_binds {scope : Scope} (h : scope.Unshadowed) {name value value' : String}
    (hvalue : scope.Binds name value) (hvalue' : scope.Binds name value') : value = value' := by
  have hscalar : ∀ {frame : Frame} {v w : String}, frame ∈ scope.frames →
      frame.row.get? name = some v → scope.params.scalar? name ≠ some w := by
    intro frame v w hframe hv hw
    rw [h.free frame hframe name ((Table.contains_iff _ _).2 ⟨v, hv⟩)] at hw
    cases hw
  rcases hvalue with ⟨frame, hframe, hget⟩ | hget <;>
    rcases hvalue' with ⟨frame', hframe', hget'⟩ | hget'
  · by_cases hsame : frame = frame'
    · rw [hsame, hget'] at hget
      exact (Option.some.inj hget).symm
    · have hother := h.apart.forall hframe hframe' hsame name ((Table.contains_iff _ _).2 ⟨_, hget⟩)
      rw [Table.contains, hget'] at hother
      cases hother
  · exact absurd hget' (hscalar hframe hget)
  · exact absurd hget (hscalar hframe' hget')
  · exact Option.some.inj (hget.symm.trans hget')

/-- A look-up gives the value of the only place that binds the name. -/
theorem Unshadowed.lookup_eq_some_iff {scope : Scope} (h : scope.Unshadowed) {name value : String} :
    scope.lookup name = some value ↔ scope.Binds name value := by
  constructor
  · exact binds_of_lookup
  · intro hbinds
    obtain ⟨found, hfound⟩ := exists_lookup_of_binds hbinds
    rw [hfound, h.eq_of_binds (binds_of_lookup hfound) hbinds]

/-- Two scopes answer every look-up alike. -/
structure Alike (scope scope' : Scope) : Prop where
  params_eq : scope'.params = scope.params
  lookup_eq : ∀ name, scope'.lookup name = scope.lookup name

theorem Unshadowed.alike_perm {scope : Scope} {frames : List Frame} (h : scope.Unshadowed)
    (hperm : frames.Perm scope.frames) : scope.Alike ⟨scope.params, frames⟩ where
  params_eq := rfl
  lookup_eq := by
    intro name
    apply Option.ext
    intro value
    rw [(h.perm hperm).lookup_eq_some_iff, h.lookup_eq_some_iff]
    exact or_congr_left (exists_congr fun frame => and_congr_left fun _ => hperm.mem_iff)

/-- A row is refused by both scopes for the same key, or let in by both, which are alike inside it. -/
theorem Alike.enter {scope scope' : Scope} (h : scope.Alike scope') (frame : Frame) :
    (∃ e, scope.enter frame = .error e ∧ scope'.enter frame = .error e) ∨
      ∃ inner inner', scope.enter frame = .ok inner ∧ scope'.enter frame = .ok inner' ∧
        inner.Alike inner' := by
  have hvisible : scope'.isVisible = scope.isVisible := funext fun name => by
    rw [isVisible, isVisible, h.lookup_eq]
  cases hfind : frame.row.keys.find? scope.isVisible with
  | some key =>
      refine Or.inl ⟨.collision key frame.list, ?_, ?_⟩
      · rw [Scope.enter, hfind]
      · rw [Scope.enter, hvisible, hfind]
  | none =>
      have henter : scope.enter frame = .ok { scope with frames := frame :: scope.frames } := by
        rw [Scope.enter, hfind]
      have henter' : scope'.enter frame = .ok { scope' with frames := frame :: scope'.frames } := by
        rw [Scope.enter, hvisible, hfind]
      refine Or.inr ⟨_, _, henter, henter', h.params_eq, fun name => ?_⟩
      rw [lookup_of_enter henter', lookup_of_enter henter, h.lookup_eq]

end Scope

/-! ### Steps in two scopes -/

namespace RenderM

/-- A result that says nothing of a scope, in a scope. -/
def resultIn (scope : Scope) :
    EStateM.Result Error String Unit → EStateM.Result Error RenderState Unit
  | .ok done output => .ok done ⟨scope, output⟩
  | .error e output => .error e ⟨scope, output⟩

/-- In two scopes a step has one result, the same text written or the same failure, and it gives
both scopes back. -/
def Coincides (step : RenderM Unit) (scope scope' : Scope) : Prop :=
  ∀ output, ∃ result, step ⟨scope, output⟩ = resultIn scope result ∧
    step ⟨scope', output⟩ = resultIn scope' result

variable {scope scope' : Scope}

theorem Coincides.seq {first second : RenderM Unit} (hfirst : Coincides first scope scope')
    (hsecond : Coincides second scope scope') :
    Coincides (first >>= fun _ => second) scope scope' := by
  intro output
  obtain ⟨result, hrun, hrun'⟩ := hfirst output
  cases result with
  | ok done after =>
      obtain ⟨last, hlast, hlast'⟩ := hsecond after
      refine ⟨last, ?_, ?_⟩
      · rw [bind_apply, hrun]
        exact hlast
      · rw [bind_apply, hrun']
        exact hlast'
  | error e after =>
      refine ⟨.error e after, ?_, ?_⟩
      · rw [bind_apply, hrun]
        rfl
      · rw [bind_apply, hrun']
        rfl

theorem coincides_pure (scope scope' : Scope) : Coincides (pure ()) scope scope' :=
  fun output => ⟨.ok () output, rfl, rfl⟩

theorem coincides_write (text : String) (scope scope' : Scope) :
    Coincides (write text) scope scope' :=
  fun output => ⟨.ok () (output ++ text), rfl, rfl⟩

theorem coincides_writeValue (h : scope.Alike scope') (name : String) :
    Coincides (writeValue name) scope scope' := by
  intro output
  rw [writeValue_apply, writeValue_apply]
  dsimp only
  rw [h.lookup_eq]
  cases scope.lookup name with
  | some value => exact ⟨.ok () (output ++ value), rfl, rfl⟩
  | none => exact ⟨.error (.notSet name .scalar) output, rfl, rfl⟩

/-- A row is left again, so that outside it the result is the same in the scope as before. -/
theorem within_eq_resultIn {frame : Frame} {step : RenderM Unit} {inner : Scope} {output : String}
    {result : EStateM.Result Error String Unit} (henter : scope.enter frame = .ok inner)
    (hrun : step ⟨inner, output⟩ = resultIn inner result) :
    within frame step ⟨scope, output⟩ = resultIn scope result := by
  have hleave := Scope.leave_of_enter henter
  cases result with
  | ok done after => simp only [within, henter, hrun, resultIn, hleave]
  | error e after => simp only [within, henter, hrun, resultIn, hleave]

theorem coincides_within (h : scope.Alike scope') {frame : Frame} {step : RenderM Unit}
    (hstep : ∀ inner inner', inner.Alike inner' → Coincides step inner inner') :
    Coincides (within frame step) scope scope' := by
  intro output
  rcases h.enter frame with ⟨e, henter, henter'⟩ | ⟨inner, inner', henter, henter', hinner⟩
  · refine ⟨.error e output, ?_, ?_⟩
    · simp only [within, henter, resultIn]
    · simp only [within, henter', resultIn]
  · obtain ⟨result, hrun, hrun'⟩ := hstep inner inner' hinner output
    exact ⟨result, within_eq_resultIn henter hrun, within_eq_resultIn henter' hrun'⟩

theorem coincides_forM {step : Row → RenderM Unit}
    (hstep : ∀ row, Coincides (step row) scope scope') (rows : List Row) :
    Coincides (rows.forM step) scope scope' := by
  induction rows with
  | nil => exact coincides_pure scope scope'
  | cons row rest ih => exact (hstep row).seq ih

theorem coincides_forRows (h : scope.Alike scope') {list : String} {step : RenderM Unit}
    (hstep : ∀ row, Coincides (within ⟨list, row⟩ step) scope scope') :
    Coincides (forRows list step) scope scope' := by
  intro output
  have hlists : scope'.rows? = scope.rows? := by
    funext name
    rw [Scope.rows?, Scope.rows?, h.params_eq]
  rw [forRows_apply, forRows_apply]
  dsimp only
  rw [hlists]
  cases rowsOfBlock scope.rows? list with
  | error e => exact ⟨.error e output, rfl, rfl⟩
  | ok rows => exact coincides_forM hstep rows output

/-- Rendering nodes in two scopes that answer every look-up alike. -/
theorem coincides_nodes (nodes : List Node) :
    ∀ {scope scope' : Scope}, scope.Alike scope' → Coincides (RenderM.nodes nodes) scope scope' := by
  induction nodes using Node.bodyInduction with
  | nil =>
      intro scope scope' _
      rw [RenderM.nodes]
      exact coincides_pure scope scope'
  | text content rest ih =>
      intro scope scope' h
      rw [RenderM.nodes]
      exact (coincides_write content scope scope').seq (ih h)
  | tag name rest ih =>
      intro scope scope' h
      rw [RenderM.nodes]
      exact (coincides_writeValue h name).seq (ih h)
  | block list body rest ihbody ih =>
      intro scope scope' h
      rw [RenderM.nodes]
      refine (coincides_forRows h fun row => ?_).seq (ih h)
      exact coincides_within h fun inner inner' hinner => ihbody hinner

end RenderM

/-! ### The stacks that are reached -/

namespace Reaches

variable {template : String} {params : Params} {scope : Scope} {nodes : List Node}

theorem unshadowed (h : Reaches template params scope nodes) : scope.Unshadowed := by
  induction h with
  | start => exact Scope.unshadowed_ofParams params
  | past _ ih => exact ih
  | into _ _ _ _ henter ih => exact ih.enter henter

end Reaches

/-- **No shadowing.** At every moment of a rendering no key is in two rows of the stack and no key of
a row is a scalar, so a look-up gives the value of the only place that binds the name; and from the
rows in any other order all nodes write the same text, or write as much and fail with the same
error. The moment leads to the result of the rendering. -/
theorem unshadowed_of_moment {template : String} {params : Params} {moment : Moment}
    (h : (Moment.start template params).LeadsTo moment) :
    moment.state.scope.Unshadowed ∧
      (∀ name value, moment.state.scope.lookup name = some value ↔
        moment.state.scope.Binds name value) ∧
      (∀ frames, frames.Perm moment.state.scope.frames → ∀ nodes output, ∃ result,
        RenderM.nodes nodes ⟨moment.state.scope, output⟩ =
            RenderM.resultIn moment.state.scope result ∧
          RenderM.nodes nodes ⟨⟨params, frames⟩, output⟩ =
            RenderM.resultIn ⟨params, frames⟩ result) ∧
      ∃ last, moment.LeadsTo last ∧ last.next = none ∧
        last.result = Template.render template params := by
  obtain ⟨⟨reached, hreach⟩, _⟩ := Moment.isPlaced_of_leadsTo h
  have hunshadowed := hreach.unshadowed
  refine ⟨hunshadowed, fun name value => hunshadowed.lookup_eq_some_iff, ?_, Moment.leadsTo_last h⟩
  intro frames hperm nodes output
  have halike := hunshadowed.alike_perm hperm
  rw [hreach.params_eq] at halike
  exact RenderM.coincides_nodes nodes halike output

theorem unshadowed_of_moment_nested :
    ∃ params moment inner outer, (Moment.start "<#a><#b><k></b></a>" params).LeadsTo moment ∧
      moment.state.scope = ⟨params, [inner, outer]⟩ ∧ inner.Apart outer ∧
      moment.state.scope.lookup "k" = some "1" ∧ moment.state.scope.Binds "k" "1" ∧
      ∃ result, RenderM.nodes [.tag "k", .tag "j"] ⟨moment.state.scope, ""⟩ =
          RenderM.resultIn moment.state.scope result ∧
        RenderM.nodes [.tag "k", .tag "j"] ⟨⟨params, [outer, inner]⟩, ""⟩ =
          RenderM.resultIn ⟨params, [outer, inner]⟩ result := by
  let outer : Frame := ⟨"a", ⟨[("k", "1")], by decide⟩⟩
  let inner : Frame := ⟨"b", ⟨[("j", "2")], by decide⟩⟩
  let params : Params := ⟨⟨[("a", .list [outer.row]), ("b", .list [inner.row])], by decide⟩⟩
  have hsteps : ((Moment.start "<#a><#b><k></b></a>" params).nextBy 4).map
      (fun moment => moment.state.scope) = some ⟨params, [inner, outer]⟩ := by
    cbv
  obtain ⟨moment, hmoment, hscope⟩ := Option.map_eq_some_iff.1 hsteps
  have hleads := Moment.leadsTo_of_nextBy hmoment
  obtain ⟨hunshadowed, hlookup, hperm, _⟩ := unshadowed_of_moment hleads
  have hfound : moment.state.scope.lookup "k" = some "1" := by
    rw [hscope]
    decide
  have hapart : [inner, outer].Pairwise Frame.Apart := by
    rw [hscope] at hunshadowed
    exact hunshadowed.apart
  refine ⟨params, moment, inner, outer, hleads, hscope, ?_, hfound, (hlookup _ _).1 hfound, ?_⟩
  · exact (List.pairwise_cons.1 hapart).1 outer (List.mem_singleton_self outer)
  · refine hperm [outer, inner] ?_ _ _
    rw [hscope]
    exact .swap inner outer []

end RowTemplate
