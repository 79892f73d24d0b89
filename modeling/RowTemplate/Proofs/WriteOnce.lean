import RowTemplate.Proofs.Binding
import RowTemplate.Proofs.Runs

/-! Names bound one after the other. The first call on a name binds it, and every later call on the
name fails and changes nothing; so after any calls a name has what the first call on it asked for, and
an outcome depends on the first call on the name alone. Calls in another order that keeps those on
one name in their order have the same first calls, and therefore the same outcomes and the same
parameters. -/

namespace RowTemplate.Params

variable {params : Params} {name : String} {param : Param} {calls calls' : List (String × Param)}

/-! ### One call -/

/-- The outcome of a call on a name that may have a binding already. -/
def outcomeAfter (name : String) (param : Param) : Option Param → Except Error Unit
  | none => .ok ()
  | some earlier => .error (.alreadySet name earlier.kind param.kind)

theorem outcome_attempt (params : Params) (name : String) (param : Param) :
    (params.attempt name param).1 = outcomeAfter name param (params.get? name) := by
  unfold attempt
  cases hget : params.get? name with
  | none => rw [bind_of_free param hget]; rfl
  | some earlier => rw [bind_of_taken param hget]; rfl

theorem attempt_of_taken {earlier : Param} (h : params.get? name = some earlier) :
    (params.attempt name param).2 = params := by
  rw [attempt, bind_of_taken param h]

/-- A call changes no name but its own, and this one only if it is free. -/
theorem get?_attempt (params : Params) (name : String) (param : Param) (n : String) :
    (params.attempt name param).2.get? n =
      (params.get? n).or (if n = name then some param else none) := by
  cases hget : params.get? name with
  | some earlier =>
      rw [attempt_of_taken hget]
      by_cases hn : n = name
      · rw [hn, hget]
        rfl
      · rw [if_neg hn, Option.or_none]
  | none =>
      have hbind := bind_of_free param hget
      rw [attempt, hbind]
      refine (get?_of_bind hbind n).trans ?_
      by_cases hn : n = name
      · rw [if_pos hn, if_pos hn, hn, hget]
        rfl
      · rw [if_neg hn, if_neg hn, Option.or_none]

/-! ### Calls in order -/

theorem attemptAll_eq_runAll (calls : List (String × Param)) (params : Params) :
    params.attemptAll calls = runAll (fun params call => params.attempt call.1 call.2) params calls := by
  induction calls generalizing params with
  | nil => rfl
  | cons call calls ih => rw [runAll, ← ih]; rfl

/-- After calls in order, a name that was free has what the first call on it asked for. -/
theorem get?_attemptAll (calls : List (String × Param)) (params : Params) (n : String) :
    (params.attemptAll calls).2.get? n = (params.get? n).or (calls.lookup n) := by
  induction calls generalizing params with
  | nil => rw [List.lookup_nil, Option.or_none]; rfl
  | cons call calls ih =>
      calc ((params.attempt call.1 call.2).2.attemptAll calls).2.get? n
          = ((params.attempt call.1 call.2).2.get? n).or (calls.lookup n) := ih _
        _ = (params.get? n).or
              ((if n = call.1 then some call.2 else none).or (calls.lookup n)) := by
            rw [get?_attempt, Option.or_assoc]
        _ = (params.get? n).or ((call :: calls).lookup n) := by
            rw [lookup_cons_eq_ite]
            split <;> rfl

theorem get?_attemptAll_empty (calls : List (String × Param)) (n : String) :
    (empty.attemptAll calls).2.get? n = calls.lookup n := by
  rw [get?_attemptAll, get?_empty, Option.none_or]

/-- The outcome of a call depends on the calls before it only through the first one on its name. -/
theorem outcome_attemptAll (before after : List (String × Param)) (name : String) (param : Param) :
    (empty.attemptAll (before ++ (name, param) :: after)).1[before.length]? =
      some (outcomeAfter name param (before.lookup name)) := by
  rw [attemptAll_eq_runAll, outcome_runAll, ← attemptAll_eq_runAll, outcome_attempt,
    get?_attemptAll_empty]

/-- The number of bound names is that of the names of the calls. -/
theorem size_attemptAll (calls : List (String × Param)) :
    (empty.attemptAll calls).2.size = (calls.map Prod.fst).dedup.length := by
  refine Table.size_eq_length_dedup fun name => ?_
  rw [← lookup_isSome_iff, ← get?_attemptAll_empty]
  rfl

/-! ### Calls in another order -/

/-- The call at a position is the first one on its name. -/
structure IsFirst (calls : List (String × Param)) (i : ℕ) (name : String) (param : Param) : Prop where
  getElem?_eq : calls[i]? = some (name, param)
  not_before : ∀ k < i, ∀ p, calls[k]? ≠ some (name, p)

theorem lookup_eq_some_iff_isFirst :
    calls.lookup name = some param ↔ ∃ i, IsFirst calls i name param := by
  rw [List.lookup_eq_some_iff]
  constructor
  · rintro ⟨before, after, rfl, hbefore⟩
    refine ⟨before.length, ?_, fun k hk p hcall => ?_⟩
    · rw [List.getElem?_append_right (Nat.le_refl _), Nat.sub_self]
      rfl
    · rw [List.getElem?_append_left hk] at hcall
      simpa using hbefore _ (List.mem_of_getElem? hcall)
  · rintro ⟨i, hcall, hbefore⟩
    obtain ⟨hi, hcall⟩ := List.getElem?_eq_some_iff.1 hcall
    refine ⟨calls.take i, calls.drop (i + 1), ?_, fun earlier hearlier => ?_⟩
    · rw [← hcall, ← List.drop_eq_getElem_cons hi, List.take_append_drop]
    · obtain ⟨k, hk⟩ := List.mem_iff_getElem?.1 hearlier
      rw [List.getElem?_take, Option.ite_none_right_eq_some] at hk
      rw [bne_iff_ne]
      rintro rfl
      exact hbefore k hk.1 earlier.2 hk.2

theorem isFirst_take {n i : ℕ} :
    IsFirst (calls.take n) i name param ↔ i < n ∧ IsFirst calls i name param := by
  constructor
  · rintro ⟨hcall, hbefore⟩
    rw [List.getElem?_take, Option.ite_none_right_eq_some] at hcall
    refine ⟨hcall.1, hcall.2, fun k hk p => ?_⟩
    rw [← List.getElem?_take_of_lt (hk.trans hcall.1)]
    exact hbefore k hk p
  · rintro ⟨hi, hcall, hbefore⟩
    refine ⟨?_, fun k hk p => ?_⟩
    · rw [List.getElem?_take_of_lt hi, hcall]
    · rw [List.getElem?_take_of_lt (hk.trans hi)]
      exact hbefore k hk p

theorem outcome_of_getElem? {i : ℕ} (h : calls[i]? = some (name, param)) :
    (empty.attemptAll calls).1[i]? =
      some (outcomeAfter name param ((calls.take i).lookup name)) := by
  obtain ⟨hi, hcall⟩ := List.getElem?_eq_some_iff.1 h
  have hsplit : calls = calls.take i ++ (name, param) :: calls.drop (i + 1) := by
    rw [← hcall, ← List.drop_eq_getElem_cons hi, List.take_append_drop]
  have houtcome := outcome_attemptAll (calls.take i) (calls.drop (i + 1)) name param
  rwa [← hsplit, List.length_take_of_le hi.le] at houtcome

/-- The second calls are the first ones in another order, in which those on one name stay in their
order. The call at a position goes to the position that `place` gives. -/
structure Reordered (place : Equiv.Perm ℕ) (calls calls' : List (String × Param)) : Prop where
  getElem?_eq : ∀ i, calls'[place i]? = calls[i]?
  lt_of_lt : ∀ {i j name p q}, calls[i]? = some (name, p) → calls[j]? = some (name, q) → i < j →
    place i < place j

namespace Reordered

variable {place : Equiv.Perm ℕ} {i j : ℕ}

theorem lt_iff (h : Reordered place calls calls') {p q : Param} (hi : calls[i]? = some (name, p))
    (hj : calls[j]? = some (name, q)) : place i < place j ↔ i < j := by
  refine ⟨fun hlt => ?_, h.lt_of_lt hi hj⟩
  rcases Nat.lt_trichotomy i j with hij | rfl | hji
  · exact hij
  · exact absurd hlt (Nat.lt_irrefl _)
  · exact absurd hlt (Nat.lt_asymm (h.lt_of_lt hj hi hji))

theorem symm (h : Reordered place calls calls') : Reordered place.symm calls' calls where
  getElem?_eq i := by rw [← h.getElem?_eq, Equiv.apply_symm_apply]
  lt_of_lt {i j name p q} hi hj hlt := by
    rw [← place.apply_symm_apply i] at hi hlt
    rw [← place.apply_symm_apply j] at hj hlt
    rw [h.getElem?_eq] at hi hj
    exact (h.lt_iff hi hj).1 hlt

theorem isFirst (h : Reordered place calls calls') (hfirst : IsFirst calls i name param) :
    IsFirst calls' (place i) name param := by
  refine ⟨(h.getElem?_eq i).trans hfirst.getElem?_eq, fun k hk p hcall => ?_⟩
  rw [← place.apply_symm_apply k] at hk hcall
  rw [h.getElem?_eq] at hcall
  exact hfirst.not_before _ ((h.lt_iff hcall hfirst.getElem?_eq).1 hk) p hcall

theorem lookup_eq (h : Reordered place calls calls') (name : String) :
    calls'.lookup name = calls.lookup name := by
  apply Option.ext
  intro param
  rw [lookup_eq_some_iff_isFirst, lookup_eq_some_iff_isFirst]
  constructor
  · rintro ⟨i, hfirst⟩
    exact ⟨_, h.symm.isFirst hfirst⟩
  · rintro ⟨i, hfirst⟩
    exact ⟨_, h.isFirst hfirst⟩

/-- The calls before a call have the same first call on its name. -/
theorem lookup_take_eq (h : Reordered place calls calls') (hcall : calls[i]? = some (name, param)) :
    (calls'.take (place i)).lookup name = (calls.take i).lookup name := by
  apply Option.ext
  intro first
  rw [lookup_eq_some_iff_isFirst, lookup_eq_some_iff_isFirst]
  simp only [isFirst_take]
  constructor
  · rintro ⟨j, hj, hfirst⟩
    have hearlier := h.symm.isFirst hfirst
    refine ⟨place.symm j, ?_, hearlier⟩
    rw [← place.apply_symm_apply j] at hj
    exact (h.lt_iff hearlier.getElem?_eq hcall).1 hj
  · rintro ⟨j, hj, hfirst⟩
    exact ⟨place j, h.lt_of_lt hfirst.getElem?_eq hcall hj, h.isFirst hfirst⟩

theorem outcome_eq (h : Reordered place calls calls') (i : ℕ) :
    (empty.attemptAll calls').1[place i]? = (empty.attemptAll calls).1[i]? := by
  cases hcall : calls[i]? with
  | some call =>
      have hcall' : calls'[place i]? = some (call.1, call.2) := (h.getElem?_eq i).trans hcall
      rw [outcome_of_getElem? hcall', outcome_of_getElem? hcall, h.lookup_take_eq hcall]
  | none =>
      have hcall' := (h.getElem?_eq i).trans hcall
      rw [List.getElem?_eq_none_iff] at hcall hcall'
      rw [attemptAll_eq_runAll, attemptAll_eq_runAll, List.getElem?_eq_none, List.getElem?_eq_none]
      · rwa [length_runAll]
      · rwa [length_runAll]

theorem attemptAll_eq (h : Reordered place calls calls') :
    (empty.attemptAll calls').2 = (empty.attemptAll calls).2 := by
  have htable : (empty.attemptAll calls').2.table = (empty.attemptAll calls).2.table := by
    apply Table.eq_of_get?
    intro name
    calc (empty.attemptAll calls').2.get? name
        = calls'.lookup name := get?_attemptAll_empty calls' name
      _ = calls.lookup name := h.lookup_eq name
      _ = (empty.attemptAll calls).2.get? name := (get?_attemptAll_empty calls name).symm
  exact congrArg Params.mk htable

end Reordered

/-- A bound name is either a scalar or a list, and a free name is neither. -/
theorem kinds_of_contains (params : Params) (name : String) :
    (params.contains name = true →
      (params.scalar? name).isSome ≠ (params.list? name).isSome) ∧
    (params.contains name = false → params.scalar? name = none ∧ params.list? name = none) := by
  have hcontains : params.contains name = (params.get? name).isSome := rfl
  rw [hcontains, scalar?, list?]
  cases params.get? name with
  | none => exact ⟨fun h => absurd h Bool.false_ne_true, fun _ => ⟨rfl, rfl⟩⟩
  | some param =>
      refine ⟨fun _ => ?_, fun h => absurd h Bool.false_ne_true.symm⟩
      cases param with
      | scalar value => exact Bool.false_ne_true.symm
      | list rows => exact Bool.false_ne_true

/-- **The first binding stays.** Let names be bound in order, from no parameters. A call succeeds if
and only if no call before it was on its name; else it fails with the kind that the first call on the
name asked for and with its own, and changes nothing. In the end a name has what the first call on it
asked for, as a scalar or as a list, and there are as many names as the calls have. Calls in another
order, in which those on one name stay in their order, have the same outcomes and end in the same
parameters, with which every template has the same rendering. -/
theorem attemptAll_keeps_first (calls : List (String × Param)) :
    (∀ before name param after, calls = before ++ (name, param) :: after →
      let earlier := (empty.attemptAll before).2
      (empty.attemptAll calls).1[before.length]? = some (earlier.attempt name param).1 ∧
        (empty.attemptAll (before ++ [(name, param)])).2 = (earlier.attempt name param).2 ∧
        ((earlier.attempt name param).1 = .ok () ↔ name ∉ before.map Prod.fst) ∧
        ∀ e, (earlier.attempt name param).1 = .error e →
          (earlier.attempt name param).2 = earlier ∧
            ∃ first, before.lookup name = some first ∧
              e = .alreadySet name first.kind param.kind) ∧
      (∀ name, let last := (empty.attemptAll calls).2
        last.get? name = calls.lookup name ∧
          last.kind? name = (last.get? name).map Param.kind ∧
          last.contains name = (last.get? name).isSome ∧
          (last.contains name = true →
            (last.scalar? name).isSome ≠ (last.list? name).isSome) ∧
          (last.contains name = false → last.scalar? name = none ∧ last.list? name = none)) ∧
      (empty.attemptAll calls).2.size = (calls.map Prod.fst).dedup.length ∧
      ∀ place calls', Reordered place calls calls' →
        (∀ i, (empty.attemptAll calls').1[place i]? = (empty.attemptAll calls).1[i]?) ∧
          (empty.attemptAll calls').2 = (empty.attemptAll calls).2 ∧
          ∀ template, Template.render template (empty.attemptAll calls').2 =
            Template.render template (empty.attemptAll calls).2 := by
  refine ⟨?_, fun name => ?_, size_attemptAll calls, fun place calls' h => ?_⟩
  · rintro before name param after rfl
    have hget := get?_attemptAll_empty before name
    refine ⟨?_, ?_, ?_, ?_⟩
    · rw [outcome_attemptAll, outcome_attempt, hget]
    · rw [attemptAll_eq_runAll, state_runAll_concat, ← attemptAll_eq_runAll]
    · rw [outcome_attempt, hget, ← lookup_isSome_iff]
      cases before.lookup name <;> simp [outcomeAfter]
    · intro e he
      rw [outcome_attempt, hget] at he
      cases hfirst : before.lookup name with
      | none => rw [hfirst] at he; cases he
      | some first =>
          rw [hfirst] at he hget
          exact ⟨attempt_of_taken hget, first, rfl, (Except.error.inj he).symm⟩
  · exact ⟨get?_attemptAll_empty calls name, rfl, rfl, kinds_of_contains _ name⟩
  · exact ⟨h.outcome_eq, h.attemptAll_eq, fun template => by rw [h.attemptAll_eq]⟩

theorem attemptAll_keeps_first_reordered :
    ∃ (place : Equiv.Perm ℕ) (calls calls' : List (String × Param)),
      Reordered place calls calls' ∧ calls ≠ calls' ∧
      (empty.attemptAll calls).1 = [.ok (), .ok (), .error (.alreadySet "a" .scalar .list)] ∧
      (empty.attemptAll calls').1[place 2]? = some (.error (.alreadySet "a" .scalar .list)) ∧
      (empty.attemptAll calls').2 = (empty.attemptAll calls).2 := by
  let calls : List (String × Param) := [("a", .scalar "1"), ("b", .list []), ("a", .list [])]
  let calls' : List (String × Param) := [("b", .list []), ("a", .scalar "1"), ("a", .list [])]
  have hreordered : Reordered (Equiv.swap 0 1) calls calls' := by
    constructor
    · intro i
      match i with
      | 0 => rfl
      | 1 => rfl
      | i + 2 =>
          rw [Equiv.swap_apply_of_ne_of_ne (by omega) (by omega)]
          rfl
    · intro i j name p q hi hj hlt
      have hlast : j < 3 := (List.getElem?_eq_some_iff.1 hj).1
      have hsame : (calls.map Prod.fst)[i]? = (calls.map Prod.fst)[j]? := by
        rw [List.getElem?_map, List.getElem?_map, hi, hj]
        rfl
      have hpair : i = 0 ∧ j = 2 := by
        interval_cases j <;> interval_cases i
        · exact absurd hsame (by decide)
        · exact ⟨rfl, rfl⟩
        · exact absurd hsame (by decide)
      rw [hpair.1, hpair.2, Equiv.swap_apply_left,
        Equiv.swap_apply_of_ne_of_ne (by omega) (by omega)]
      omega
  have houtcomes : (empty.attemptAll calls).1 =
      [.ok (), .ok (), .error (.alreadySet "a" .scalar .list)] := by decide
  obtain ⟨_, _, _, hreorder⟩ := attemptAll_keeps_first calls
  obtain ⟨hsame, hlast, _⟩ := hreorder _ calls' hreordered
  refine ⟨_, calls, calls', hreordered, by decide, houtcomes, ?_, hlast⟩
  rw [hsame, houtcomes]
  rfl

end RowTemplate.Params
