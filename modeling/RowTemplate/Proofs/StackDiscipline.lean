import RowTemplate.Proofs.Errors

/-! The stack of rows under expansion. A row enters exactly if it has no visible key, and then its
keys join the visible names without changing what one of them stands for. It is left again on every
exit, so a step of rendering gives the stack back as it was, has only added text to the output, and
does not depend on what the output held. -/

namespace RowTemplate

/-! ### Entering a row -/

theorem Params.scalar?_eq_some_iff {params : Params} {name value : String} :
    params.scalar? name = some value ↔ params.get? name = some (.scalar value) := by
  rw [scalar?, Option.bind_eq_some_iff]
  constructor
  · rintro ⟨param, hget, hscalar⟩
    cases param with
    | scalar found =>
        cases hscalar
        exact hget
    | list rows => cases hscalar
  · exact fun hget => ⟨_, hget, rfl⟩

namespace Scope

/-- The name is a key of a row under expansion, or bound to a scalar. -/
def Holds (scope : Scope) (name : String) : Prop :=
  (∃ frame ∈ scope.frames, ∃ value, frame.row.get? name = some value) ∨
    ∃ value, scope.params.get? name = some (.scalar value)

theorem isVisible_iff_holds {scope : Scope} {name : String} :
    scope.isVisible name = true ↔ scope.Holds name := by
  rw [isVisible_iff, Option.isSome_iff_exists, Holds]
  refine or_congr ?_ (exists_congr fun _ => Params.scalar?_eq_some_iff)
  exact exists_congr fun frame => and_congr_right fun _ => Table.contains_iff _ _

theorem holds_iff_lookup {scope : Scope} {name : String} :
    scope.Holds name ↔ ∃ value, scope.lookup name = some value := by
  rw [← isVisible_iff_holds, isVisible, Option.isSome_iff_exists]

/-- A row is refused for the least of its keys that the scope holds. -/
theorem enter_eq_error_iff_holds {scope : Scope} {frame : Frame} {e : Error} :
    scope.enter frame = .error e ↔ ∃ key, e = .collision key frame.list ∧ key ∈ frame.row.keys ∧
      scope.Holds key ∧ ∀ k ∈ frame.row.keys, scope.Holds k → key ≤ k := by
  simp only [enter_eq_error_iff, isVisible_iff_holds]

/-- A row is let in exactly if the scope holds none of its keys. -/
theorem exists_enter_iff {scope : Scope} {frame : Frame} :
    (∃ inner, scope.enter frame = .ok inner) ↔ ∀ key ∈ frame.row.keys, ¬ scope.Holds key := by
  simp only [enter_eq_ok_iff, exists_and_left, exists_eq, and_true, ← isVisible_iff_holds,
    Bool.not_eq_true]

/-- What the scope holds is no key of a row that is let in, and stands for what it did. -/
theorem lookup_of_enter_of_holds {scope inner : Scope} {frame : Frame}
    (henter : scope.enter frame = .ok inner) {name : String} (h : scope.Holds name) :
    inner.lookup name = scope.lookup name := by
  have hkey : frame.row.get? name = none := by
    by_contra hsome
    have hcontains : frame.row.contains name = true := Option.isSome_iff_ne_none.2 hsome
    exact exists_enter_iff.1 ⟨inner, henter⟩ name (Table.mem_keys_iff.2 hcontains) h
  rw [lookup_of_enter henter, hkey, Option.none_or]

end Scope

theorem RenderM.within_of_error {scope : Scope} {frame : Frame} {e : Error}
    (henter : scope.enter frame = .error e) (step : RenderM Unit) (output : String) :
    within frame step ⟨scope, output⟩ = .error e ⟨scope, output⟩ := by
  simp only [within, henter]

/-- **Entering is an exact disjoint join.** A name is visible if it is a key of a row on the stack
or bound to a scalar; a list of that name does not count. A row is refused exactly if one of its
keys is visible, for the least such key, and then nothing is done inside it: stack and output stay
as they are. Otherwise the row enters: its keys have its values, every other name and every list is
what it was, so that no visible name changes, and leaving gives the stack back. -/
theorem Scope.enter_disjoint_join (scope : Scope) (frame : Frame) :
    (∀ name, scope.Holds name ↔ ∃ value, scope.lookup name = some value) ∧
      ((∃ e, scope.enter frame = .error e) ↔ ∃ key ∈ frame.row.keys, scope.Holds key) ∧
      (∀ e, scope.enter frame = .error e ↔ ∃ key, e = .collision key frame.list ∧
        key ∈ frame.row.keys ∧ scope.Holds key ∧
          ∀ k ∈ frame.row.keys, scope.Holds k → key ≤ k) ∧
      (∀ e, scope.enter frame = .error e → ∀ step output,
        RenderM.within frame step ⟨scope, output⟩ = .error e ⟨scope, output⟩) ∧
      ((∀ key ∈ frame.row.keys, ¬ scope.Holds key) → ∃ inner, scope.enter frame = .ok inner ∧
        (∀ name, inner.lookup name = (frame.row.get? name).or (scope.lookup name)) ∧
        (∀ name, scope.Holds name → inner.lookup name = scope.lookup name) ∧
        (∀ list, inner.rows? list = scope.rows? list) ∧ inner.leave = scope) := by
  refine ⟨fun _ => holds_iff_lookup, ?_, fun _ => enter_eq_error_iff_holds,
    fun e henter step output => RenderM.within_of_error henter step output, fun hfree => ?_⟩
  · cases henter : scope.enter frame with
    | error e =>
        obtain ⟨key, _, hkey, hholds, _⟩ := enter_eq_error_iff_holds.1 henter
        exact ⟨fun _ => ⟨key, hkey, hholds⟩, fun _ => ⟨e, rfl⟩⟩
    | ok inner =>
        have hfree := exists_enter_iff.1 ⟨inner, henter⟩
        exact ⟨nofun, fun ⟨key, hkey, hholds⟩ => absurd hholds (hfree key hkey)⟩
  · obtain ⟨inner, henter⟩ := exists_enter_iff.2 hfree
    refine ⟨inner, henter, lookup_of_enter henter, fun _ h => lookup_of_enter_of_holds henter h,
      fun list => ?_, leave_of_enter henter⟩
    rw [(enter_eq_ok_iff.1 henter).2]
    rfl

theorem Scope.enter_disjoint_join_list :
    let params : Params := ⟨⟨[("l", .list []), ("s", .scalar "1")], by decide⟩⟩
    let scope : Scope := ⟨params, [⟨"b", ⟨[("j", "2")], by decide⟩⟩]⟩
    let taken : Frame := ⟨"c", ⟨[("i", "3"), ("j", "4"), ("s", "5")], by decide⟩⟩
    let free : Frame := ⟨"c", ⟨[("k", "6"), ("l", "7")], by decide⟩⟩
    scope.enter taken = .error (.collision "j" "c") ∧
      RenderM.within taken (RenderM.write "x") ⟨scope, "y"⟩ =
        .error (.collision "j" "c") ⟨scope, "y"⟩ ∧
      (∀ key ∈ free.row.keys, ¬ scope.Holds key) ∧ scope.Holds "s" ∧
      ∃ inner, scope.enter free = .ok inner ∧ inner.lookup "l" = some "7" ∧
        inner.lookup "s" = some "1" ∧ inner.rows? "l" = some [] ∧ inner.leave = scope := by
  intro params scope taken free
  obtain ⟨_, _, _, hrefused, _⟩ := enter_disjoint_join scope taken
  obtain ⟨_, _, _, _, henters⟩ := enter_disjoint_join scope free
  have htaken : scope.enter taken = .error (.collision "j" "c") := by rfl
  have hholds : scope.Holds "s" := isVisible_iff_holds.1 (by decide)
  have hfree : ∀ key ∈ free.row.keys, ¬ scope.Holds key := by
    simp only [← isVisible_iff_holds]
    decide
  obtain ⟨inner, henter, hlookup, hkept, hrows, hleave⟩ := henters hfree
  refine ⟨htaken, hrefused _ htaken _ _, hfree, hholds, inner, henter, ?_, ?_, ?_, hleave⟩
  · rw [hlookup]
    decide
  · rw [hkept "s" hholds]
    decide
  · rw [hrows]
    decide

/-! ### Exits -/

namespace RenderM

variable {step : RenderM Unit}

theorem exists_yields_within (h : ∀ inner, ∃ outcome, Yields step inner outcome) (frame : Frame)
    (scope : Scope) : ∃ outcome, Yields (within frame step) scope outcome := by
  cases henter : scope.enter frame with
  | error e => exact ⟨.error e, yields_within_of_error henter⟩
  | ok inner =>
      obtain ⟨outcome, hstep⟩ := h inner
      exact ⟨outcome, hstep.within henter⟩

theorem exists_yields_forRows (h : ∀ inner, ∃ outcome, Yields step inner outcome) (list : String)
    (scope : Scope) : ∃ outcome, Yields (forRows list step) scope outcome := by
  choose copy hcopy using fun row => exists_yields_within h ⟨list, row⟩ scope
  exact ⟨_, yields_forRows hcopy⟩

/-- Nodes have one outcome in each scope, whatever has been written before. -/
theorem exists_yields_nodes (nodes : List Node) :
    ∀ scope, ∃ outcome, Yields (RenderM.nodes nodes) scope outcome := by
  induction nodes using Node.bodyInduction with
  | nil =>
      intro scope
      rw [RenderM.nodes]
      exact ⟨_, yields_pure scope⟩
  | text content rest ih =>
      intro scope
      obtain ⟨outcome, hrest⟩ := ih scope
      rw [RenderM.nodes]
      exact ⟨_, (yields_write scope content).seq hrest⟩
  | tag name rest ih =>
      intro scope
      obtain ⟨outcome, hrest⟩ := ih scope
      rw [RenderM.nodes]
      exact ⟨_, (yields_writeValue scope name).seq hrest⟩
  | block list body rest ihbody ih =>
      intro scope
      obtain ⟨outcome, hrest⟩ := ih scope
      obtain ⟨copies, hrows⟩ := exists_yields_forRows ihbody list scope
      rw [RenderM.nodes]
      exact ⟨_, hrows.seq hrest⟩

/-- The exit of a step in a state, with an outcome. -/
def exitAt (state : RenderState) : Except Error Unit → EStateM.Result Error RenderState Unit
  | .ok done => .ok done state
  | .error e => .error e state

theorem Yields.exists_exit {scope : Scope} {outcome : Except Error String}
    (h : Yields step scope outcome) :
    ∃ result text, ∀ output, step ⟨scope, output⟩ = exitAt ⟨scope, output ++ text⟩ result := by
  cases h with
  | ok text hrun => exact ⟨.ok (), text, hrun⟩
  | error e text hrun => exact ⟨.error e, text, hrun⟩

/-- **Every exit is in order.** Rendering nodes, or the rows of a block, exits with success or with
an error, and in either case the stack of rows is the one at the beginning and the output is that at
the beginning followed by some text. The outcome and the text are the same whatever the output was.
-/
theorem nodes_exit (scope : Scope) :
    (∀ nodes, ∃ outcome text, ∀ output,
      RenderM.nodes nodes ⟨scope, output⟩ = exitAt ⟨scope, output ++ text⟩ outcome) ∧
      ∀ list body, ∃ outcome text, ∀ output,
        forRows list (RenderM.nodes (Template.parse body)) ⟨scope, output⟩ =
          exitAt ⟨scope, output ++ text⟩ outcome := by
  constructor
  · intro nodes
    obtain ⟨outcome, hnodes⟩ := exists_yields_nodes nodes scope
    exact hnodes.exists_exit
  · intro list body
    have hbody := exists_yields_nodes (Template.parse body)
    obtain ⟨outcome, hrows⟩ := exists_yields_forRows hbody list scope
    exact hrows.exists_exit

end RenderM

end RowTemplate
