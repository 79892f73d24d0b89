import RowTemplate.Grammar.Expr
import Mathlib

/-! What the runs of a grammar come to, operator by operator. More fuel never changes an outcome, so
outcomes compose without it. An expression that stands for a fixed text is run as that text is, and
a repetition of single characters up to a guard takes up all before the first place where the guard
holds. -/

namespace RowTemplate.Grammar

variable {R : Type} {grammar : Grammar R} {size : Nat}

/-! ### Fuel -/

/-- What an expression comes to, given enough fuel. -/
def ComesTo (grammar : Grammar R) (size : Nat) (e : Expr R) (input : List Char)
    (stack : List (List Char)) (outcome : Outcome R) : Prop :=
  ∃ fuel, grammar.run size fuel e input stack = some outcome

theorem Outcome.andThen_mono {outcome result : Outcome R}
    {next next' : List Char → List (List Char) → Option (Outcome R)}
    (hnext : ∀ {rest stack o}, next rest stack = some o → next' rest stack = some o)
    (h : outcome.andThen next = some result) : outcome.andThen next' = some result := by
  cases outcome with
  | done rest stack pairs =>
      obtain ⟨last, hlast, hresult⟩ := Option.map_eq_some_iff.1 h
      exact Option.map_eq_some_iff.2 ⟨last, hnext hlast, hresult⟩
  | fails => exact h
  | stackEmpty => exact h

@[simp] theorem Outcome.prepend_nil (outcome : Outcome R) : outcome.prepend [] = outcome := by
  cases outcome <;> rfl

theorem run_succ {fuel : Nat} {e : Expr R} {input : List Char} {stack : List (List Char)}
    {outcome : Outcome R} (h : grammar.run size fuel e input stack = some outcome) :
    grammar.run size (fuel + 1) e input stack = some outcome := by
  induction fuel generalizing e input stack outcome with
  | zero => cases h
  | succ fuel ih =>
      cases e with
      | literal | any | start | finish | peek | pop => exact h
      | seq first second =>
          obtain ⟨middle, hfirst, hsecond⟩ := Option.bind_eq_some_iff.1 h
          exact Option.bind_eq_some_iff.2 ⟨middle, ih hfirst, Outcome.andThen_mono ih hsecond⟩
      | alt first second =>
          obtain ⟨middle, hfirst, hsecond⟩ := Option.bind_eq_some_iff.1 h
          refine Option.bind_eq_some_iff.2 ⟨middle, ih hfirst, ?_⟩
          cases middle with
          | fails => exact ih hsecond
          | done | stackEmpty => exact hsecond
      | many e =>
          obtain ⟨middle, he, hmany⟩ := Option.bind_eq_some_iff.1 h
          refine Option.bind_eq_some_iff.2 ⟨middle, ih he, ?_⟩
          cases middle with
          | fails | stackEmpty => exact hmany
          | done rest stack pairs => exact Outcome.andThen_mono ih hmany
      | not e | push e | rule r =>
          obtain ⟨middle, he, houtcome⟩ := Option.bind_eq_some_iff.1 h
          exact Option.bind_eq_some_iff.2 ⟨middle, ih he, houtcome⟩

/-- More fuel does not change what a run comes to. -/
theorem run_mono {fuel more : Nat} (hle : fuel ≤ more) {e : Expr R} {input : List Char}
    {stack : List (List Char)} {outcome : Outcome R}
    (h : grammar.run size fuel e input stack = some outcome) :
    grammar.run size more e input stack = some outcome := by
  induction hle with
  | refl => exact h
  | step _ ih => exact run_succ ih

namespace ComesTo

variable {e first second : Expr R} {input input' rest text : List Char}
  {stack stack' middle below : List (List Char)} {pairs more : List (Pair R)}
  {outcome outcome' : Outcome R}

/-- Two runs with the fuel of the longer one. -/
theorem both (h : ComesTo grammar size first input stack outcome)
    (h' : ComesTo grammar size second input' stack' outcome') :
    ∃ fuel, grammar.run size fuel first input stack = some outcome ∧
      grammar.run size fuel second input' stack' = some outcome' := by
  obtain ⟨fuel, hfirst⟩ := h
  obtain ⟨fuel', hsecond⟩ := h'
  exact ⟨max fuel fuel', run_mono (le_max_left ..) hfirst, run_mono (le_max_right ..) hsecond⟩

/-- An expression has one outcome at most. -/
theorem unique (h : ComesTo grammar size e input stack outcome)
    (h' : ComesTo grammar size e input stack outcome') : outcome = outcome' := by
  obtain ⟨fuel, hfirst, hsecond⟩ := both h h'
  exact Option.some.inj (hfirst.symm.trans hsecond)

theorem yields {r : R} (h : ComesTo grammar text.length (.rule r) text [] outcome) :
    grammar.Yields r text outcome := by
  obtain ⟨fuel, hrun⟩ := h
  exact ⟨fuel, fun _ hle => run_mono hle hrun⟩

/-! ### One operator at a time -/

theorem literal (text input : List Char) (stack : List (List Char)) :
    ComesTo grammar size (.literal text) input stack (matchText text input stack) := ⟨1, rfl⟩

theorem any_cons (c : Char) (rest : List Char) (stack : List (List Char)) :
    ComesTo grammar size .any (c :: rest) stack (.done rest stack []) := ⟨1, rfl⟩

theorem any_nil (stack : List (List Char)) :
    ComesTo grammar size .any [] stack .fails := ⟨1, rfl⟩

theorem start (h : input.length = size) :
    ComesTo grammar size .start input stack (.done input stack []) :=
  ⟨1, congrArg some (if_pos h)⟩

theorem finish : ComesTo grammar size .finish [] stack (.done [] stack []) := ⟨1, rfl⟩

theorem peek (text input : List Char) (below : List (List Char)) :
    ComesTo grammar size .peek input (text :: below) (matchText text input (text :: below)) :=
  ⟨1, rfl⟩

theorem pop (text input : List Char) (below : List (List Char)) :
    ComesTo grammar size .pop input (text :: below) (matchText text input below) := ⟨1, rfl⟩

theorem seq (h : ComesTo grammar size first input stack (.done rest middle pairs))
    (h' : ComesTo grammar size second rest middle outcome) :
    ComesTo grammar size (.seq first second) input stack (outcome.prepend pairs) := by
  obtain ⟨fuel, hfirst, hsecond⟩ := both h h'
  refine ⟨fuel + 1, Option.bind_eq_some_iff.2 ⟨_, hfirst, ?_⟩⟩
  exact Option.map_eq_some_iff.2 ⟨outcome, hsecond, rfl⟩

theorem seq_fails (h : ComesTo grammar size first input stack .fails) :
    ComesTo grammar size (.seq first second) input stack .fails := by
  obtain ⟨fuel, hfirst⟩ := h
  exact ⟨fuel + 1, Option.bind_eq_some_iff.2 ⟨_, hfirst, rfl⟩⟩

theorem alt_first (h : ComesTo grammar size first input stack (.done rest middle pairs)) :
    ComesTo grammar size (.alt first second) input stack (.done rest middle pairs) := by
  obtain ⟨fuel, hfirst⟩ := h
  exact ⟨fuel + 1, Option.bind_eq_some_iff.2 ⟨_, hfirst, rfl⟩⟩

theorem alt_second (h : ComesTo grammar size first input stack .fails)
    (h' : ComesTo grammar size second input stack outcome) :
    ComesTo grammar size (.alt first second) input stack outcome := by
  obtain ⟨fuel, hfirst, hsecond⟩ := both h h'
  exact ⟨fuel + 1, Option.bind_eq_some_iff.2 ⟨_, hfirst, hsecond⟩⟩

theorem many_stop (h : ComesTo grammar size e input stack .fails) :
    ComesTo grammar size (.many e) input stack (.done input stack []) := by
  obtain ⟨fuel, he⟩ := h
  exact ⟨fuel + 1, Option.bind_eq_some_iff.2 ⟨_, he, rfl⟩⟩

theorem many_step (h : ComesTo grammar size e input stack (.done rest middle pairs))
    (h' : ComesTo grammar size (.many e) rest middle outcome) :
    ComesTo grammar size (.many e) input stack (outcome.prepend pairs) := by
  obtain ⟨fuel, he, hmany⟩ := both h h'
  refine ⟨fuel + 1, Option.bind_eq_some_iff.2 ⟨_, he, ?_⟩⟩
  exact Option.map_eq_some_iff.2 ⟨outcome, hmany, rfl⟩

theorem not_done (h : ComesTo grammar size e input stack (.done rest middle pairs)) :
    ComesTo grammar size (.not e) input stack .fails := by
  obtain ⟨fuel, he⟩ := h
  exact ⟨fuel + 1, Option.bind_eq_some_iff.2 ⟨_, he, rfl⟩⟩

theorem not_fails (h : ComesTo grammar size e input stack .fails) :
    ComesTo grammar size (.not e) input stack (.done input stack []) := by
  obtain ⟨fuel, he⟩ := h
  exact ⟨fuel + 1, Option.bind_eq_some_iff.2 ⟨_, he, rfl⟩⟩

theorem seq_stackEmpty (h : ComesTo grammar size first input stack .stackEmpty) :
    ComesTo grammar size (.seq first second) input stack .stackEmpty := by
  obtain ⟨fuel, hfirst⟩ := h
  exact ⟨fuel + 1, Option.bind_eq_some_iff.2 ⟨_, hfirst, rfl⟩⟩

theorem alt_stackEmpty (h : ComesTo grammar size first input stack .stackEmpty) :
    ComesTo grammar size (.alt first second) input stack .stackEmpty := by
  obtain ⟨fuel, hfirst⟩ := h
  exact ⟨fuel + 1, Option.bind_eq_some_iff.2 ⟨_, hfirst, rfl⟩⟩

theorem many_stackEmpty (h : ComesTo grammar size e input stack .stackEmpty) :
    ComesTo grammar size (.many e) input stack .stackEmpty := by
  obtain ⟨fuel, he⟩ := h
  exact ⟨fuel + 1, Option.bind_eq_some_iff.2 ⟨_, he, rfl⟩⟩

theorem not_stackEmpty (h : ComesTo grammar size e input stack .stackEmpty) :
    ComesTo grammar size (.not e) input stack .stackEmpty := by
  obtain ⟨fuel, he⟩ := h
  exact ⟨fuel + 1, Option.bind_eq_some_iff.2 ⟨_, he, rfl⟩⟩

theorem push_stackEmpty (h : ComesTo grammar size e input stack .stackEmpty) :
    ComesTo grammar size (.push e) input stack .stackEmpty := by
  obtain ⟨fuel, he⟩ := h
  exact ⟨fuel + 1, Option.bind_eq_some_iff.2 ⟨_, he, rfl⟩⟩

theorem push (h : ComesTo grammar size e (text ++ rest) stack (.done rest middle pairs)) :
    ComesTo grammar size (.push e) (text ++ rest) stack (.done rest (text :: middle) pairs) := by
  obtain ⟨fuel, he⟩ := h
  refine ⟨fuel + 1, Option.bind_eq_some_iff.2 ⟨_, he, ?_⟩⟩
  simp

theorem rule {r : R} (h : ComesTo grammar size (grammar.body r) input stack outcome) :
    ComesTo grammar size (.rule r) input stack
      (outcome.wrap (grammar.mode r) r (size - input.length) input) := by
  obtain ⟨fuel, hbody⟩ := h
  exact ⟨fuel + 1, Option.bind_eq_some_iff.2 ⟨_, hbody, rfl⟩⟩

theorem rule_fails {r : R} (h : ComesTo grammar size (grammar.body r) input stack .fails) :
    ComesTo grammar size (.rule r) input stack .fails := rule h

theorem rule_silent {r : R} (hmode : grammar.mode r = .silent)
    (h : ComesTo grammar size (grammar.body r) input stack outcome) :
    ComesTo grammar size (.rule r) input stack outcome := by
  have hrule := rule h
  rw [hmode] at hrule
  cases outcome <;> exact hrule

theorem rule_atomic {r : R} (hmode : grammar.mode r = .atomic)
    (h : ComesTo grammar size (grammar.body r) (text ++ rest) stack (.done rest middle pairs)) :
    ComesTo grammar size (.rule r) (text ++ rest) stack
      (.done rest middle [.mk r (size - (text ++ rest).length) text []]) := by
  have hrule := rule h
  simpa [hmode, Outcome.wrap] using hrule

theorem rule_normal {r : R} (hmode : grammar.mode r = .normal)
    (h : ComesTo grammar size (grammar.body r) (text ++ rest) stack (.done rest middle pairs)) :
    ComesTo grammar size (.rule r) (text ++ rest) stack
      (.done rest middle [.mk r (size - (text ++ rest).length) text pairs]) := by
  have hrule := rule h
  simpa [hmode, Outcome.wrap] using hrule

end ComesTo

/-! ### The runs inside a run -/

/-- A run of one expression that starts a run of another, at a rest of the text and with the texts
remembered there. -/
inductive Enters (grammar : Grammar R) (size : Nat) (inner : Expr R) (place : List Char)
    (held : List (List Char)) : Expr R → List Char → List (List Char) → Prop
  | here : Enters grammar size inner place held inner place held
  | seq_first {first second input stack} (h : Enters grammar size inner place held first input stack) :
      Enters grammar size inner place held (.seq first second) input stack
  | seq_second {first second input stack rest middle pairs}
      (hfirst : ComesTo grammar size first input stack (.done rest middle pairs))
      (h : Enters grammar size inner place held second rest middle) :
      Enters grammar size inner place held (.seq first second) input stack
  | alt_first {first second input stack} (h : Enters grammar size inner place held first input stack) :
      Enters grammar size inner place held (.alt first second) input stack
  | alt_second {first second input stack}
      (hfirst : ComesTo grammar size first input stack .fails)
      (h : Enters grammar size inner place held second input stack) :
      Enters grammar size inner place held (.alt first second) input stack
  | many_first {e input stack} (h : Enters grammar size inner place held e input stack) :
      Enters grammar size inner place held (.many e) input stack
  | many_next {e input stack rest middle pairs}
      (he : ComesTo grammar size e input stack (.done rest middle pairs))
      (h : Enters grammar size inner place held (.many e) rest middle) :
      Enters grammar size inner place held (.many e) input stack
  | not {e input stack} (h : Enters grammar size inner place held e input stack) :
      Enters grammar size inner place held (.not e) input stack
  | push {e input stack} (h : Enters grammar size inner place held e input stack) :
      Enters grammar size inner place held (.push e) input stack
  | rule {r input stack} (h : Enters grammar size inner place held (grammar.body r) input stack) :
      Enters grammar size inner place held (.rule r) input stack

section Enters

variable {inner e : Expr R} {place input rest : List Char} {held stack after : List (List Char)}
  {pairs : List (Pair R)}

/-- What asks for a remembered text in vain ends every run that it is inside of. -/
theorem Enters.stackEmpty (h : Enters grammar size inner place held e input stack)
    (hinner : ComesTo grammar size inner place held .stackEmpty) :
    ComesTo grammar size e input stack .stackEmpty := by
  induction h with
  | here => exact hinner
  | seq_first _ ih => exact .seq_stackEmpty ih
  | seq_second hfirst _ ih => exact .seq hfirst ih
  | alt_first _ ih => exact .alt_stackEmpty ih
  | alt_second hfirst _ ih => exact .alt_second hfirst ih
  | many_first _ ih => exact .many_stackEmpty ih
  | many_next he _ ih => exact .many_step he ih
  | not _ ih => exact .not_stackEmpty ih
  | push _ ih => exact .push_stackEmpty ih
  | rule _ ih => exact .rule ih

/-- A match never asks for a remembered text where there is none. -/
theorem ComesTo.ne_nil_of_enters
    (h : ComesTo grammar size e input stack (.done rest after pairs))
    (hinner : inner = .peek ∨ inner = .pop)
    (henters : Enters grammar size inner place held e input stack) : held ≠ [] := by
  intro hheld
  have hempty : ComesTo grammar size inner place held .stackEmpty := by
    rcases hinner with rfl | rfl <;> exact ⟨1, by rw [hheld]; rfl⟩
  cases h.unique (henters.stackEmpty hempty)

end Enters

/-! ### Fixed texts -/

theorem matchText_append (text rest : List Char) (stack : List (List Char)) :
    matchText (R := R) text (text ++ rest) stack = .done rest stack [] := by
  simp [matchText]

theorem matchText_eq_fails {text input : List Char} (h : ¬ text <+: input)
    (stack : List (List Char)) : matchText (R := R) text input stack = .fails := by
  rw [matchText, if_neg]
  simpa using h

/-- An expression that takes up a fixed text and leaves nothing in the tree. -/
def Takes (grammar : Grammar R) (size : Nat) (e : Expr R) (stack : List (List Char))
    (text : List Char) (after : List (List Char)) : Prop :=
  ∀ input, ComesTo grammar size e input stack (matchText text input after)

namespace Takes

variable {e first second : Expr R} {text more : List Char} {stack middle after : List (List Char)}

theorem literal (text : List Char) (stack : List (List Char)) :
    Takes grammar size (.literal text) stack text stack := fun input => .literal text input stack

theorem peek (text : List Char) (below : List (List Char)) :
    Takes grammar size .peek (text :: below) text (text :: below) := fun input => .peek text input below

theorem pop (text : List Char) (below : List (List Char)) :
    Takes grammar size .pop (text :: below) text below := fun input => .pop text input below

theorem done (h : Takes grammar size e stack text after) (rest : List Char) :
    ComesTo grammar size e (text ++ rest) stack (.done rest after []) := by
  have hrun := h (text ++ rest)
  rwa [matchText_append] at hrun

theorem fails (h : Takes grammar size e stack text after) {input : List Char}
    (hinput : ¬ text <+: input) : ComesTo grammar size e input stack .fails := by
  have hrun := h input
  rwa [matchText_eq_fails hinput] at hrun

/-- One fixed text after another is the two written together. -/
theorem seq (h : Takes grammar size first stack text middle)
    (h' : Takes grammar size second middle more after) :
    Takes grammar size (.seq first second) stack (text ++ more) after := by
  intro input
  by_cases hinput : text <+: input
  · obtain ⟨rest, rfl⟩ := hinput
    have hrun := ComesTo.seq (h.done rest) (h' rest)
    by_cases hrest : more <+: rest
    · obtain ⟨rest', rfl⟩ := hrest
      rw [matchText_append] at hrun
      rw [← List.append_assoc, matchText_append, List.append_assoc]
      exact hrun
    · rw [matchText_eq_fails hrest] at hrun
      rw [matchText_eq_fails (by rwa [List.prefix_append_right_inj])]
      exact hrun
  · rw [matchText_eq_fails fun hboth => hinput ((List.prefix_append ..).trans hboth)]
    exact .seq_fails (h.fails hinput)

theorem silent {r : R} (hmode : grammar.mode r = .silent)
    (h : Takes grammar size (grammar.body r) stack text after) :
    Takes grammar size (.rule r) stack text after := fun input => .rule_silent hmode (h input)

end Takes

/-! ### Characters up to a guard -/

/-- An expression that matches exactly at the places where a condition on the rest of the text holds,
whatever it takes up there. -/
structure Guards (grammar : Grammar R) (size : Nat) (e : Expr R) (stack : List (List Char))
    (p : List Char → Bool) : Prop where
  matches_of : ∀ input, p input = true →
    ∃ rest after pairs, ComesTo grammar size e input stack (.done rest after pairs)
  fails_of : ∀ input, p input = false → ComesTo grammar size e input stack .fails

/-- A text without a place where the condition holds, and with one right after it unless it is the
end. -/
structure UpTo (p : List Char → Bool) (text rest : List Char) : Prop where
  not_inside : ∀ back, back <:+ text → back ≠ [] → p (back ++ rest) = false
  stops : rest = [] ∨ p rest = true

namespace UpTo

variable {p : List Char → Bool} {text rest : List Char} {c : Char}

theorem nil (h : rest = [] ∨ p rest = true) : UpTo p [] rest where
  not_inside _ hback hne := absurd (List.suffix_nil.1 hback) hne
  stops := h

theorem not_head (h : UpTo p (c :: text) rest) : p (c :: (text ++ rest)) = false :=
  h.not_inside (c :: text) List.suffix_rfl (List.cons_ne_nil c text)

theorem tail (h : UpTo p (c :: text) rest) : UpTo p text rest where
  not_inside back hback := h.not_inside back (hback.trans (List.suffix_cons c text))
  stops := h.stops

theorem cons (h : UpTo p text rest) (hc : p (c :: (text ++ rest)) = false) :
    UpTo p (c :: text) rest where
  not_inside back hback hne := by
    rcases List.suffix_cons_iff.1 hback with rfl | hback
    · exact hc
    · exact h.not_inside back hback hne
  stops := h.stops

end UpTo

theorem Takes.guards {e : Expr R} {text : List Char} {stack after : List (List Char)}
    (h : Takes grammar size e stack text after) :
    Guards grammar size e stack (text.isPrefixOf ·) where
  matches_of input hinput := by
    obtain ⟨rest, rfl⟩ := List.isPrefixOf_iff_prefix.1 hinput
    exact ⟨rest, after, [], h.done rest⟩
  fails_of input hinput := by
    apply h.fails
    rw [← List.isPrefixOf_iff_prefix, hinput]
    exact Bool.false_ne_true

namespace Guards

variable {e first second : Expr R} {stack : List (List Char)} {p q : List Char → Bool}
  {text rest : List Char}

theorem alt (h : Guards grammar size first stack p) (h' : Guards grammar size second stack q) :
    Guards grammar size (.alt first second) stack fun input => p input || q input where
  matches_of input hinput := by
    cases hp : p input with
    | true =>
        obtain ⟨rest, after, pairs, hfirst⟩ := h.matches_of input hp
        exact ⟨rest, after, pairs, .alt_first hfirst⟩
    | false =>
        rw [hp, Bool.false_or] at hinput
        obtain ⟨rest, after, pairs, hsecond⟩ := h'.matches_of input hinput
        exact ⟨rest, after, pairs, .alt_second (h.fails_of input hp) hsecond⟩
  fails_of input hinput := by
    obtain ⟨hp, hq⟩ := Bool.or_eq_false_iff.1 hinput
    exact .alt_second (h.fails_of input hp) (h'.fails_of input hq)

theorem silent {r : R} (hmode : grammar.mode r = .silent)
    (h : Guards grammar size (grammar.body r) stack p) : Guards grammar size (.rule r) stack p where
  matches_of input hinput := by
    obtain ⟨rest, after, pairs, hbody⟩ := h.matches_of input hinput
    exact ⟨rest, after, pairs, .rule_silent hmode hbody⟩
  fails_of input hinput := .rule_silent hmode (h.fails_of input hinput)

/-- A character where the guard fails is taken up. -/
theorem unless_cons (h : Guards grammar size e stack p) {c : Char} (hp : p (c :: rest) = false) :
    ComesTo grammar size (.seq (.not e) .any) (c :: rest) stack (.done rest stack []) :=
  .seq (.not_fails (h.fails_of _ hp)) (.any_cons c rest stack)

/-- Nothing is taken up where the guard holds, and nothing at the end of the text. -/
theorem unless_fails (h : Guards grammar size e stack p) (hrest : rest = [] ∨ p rest = true) :
    ComesTo grammar size (.seq (.not e) .any) rest stack .fails := by
  cases hp : p rest with
  | true =>
      obtain ⟨_, _, _, he⟩ := h.matches_of rest hp
      exact .seq_fails (.not_done he)
  | false =>
      obtain rfl : rest = [] := hrest.resolve_right (hp ▸ Bool.false_ne_true)
      exact .seq (.not_fails (h.fails_of [] hp)) (.any_nil stack)

/-- The text up to the first place where the guard holds, or to the end, is taken up. -/
theorem many_unless (h : Guards grammar size e stack p) (htext : UpTo p text rest) :
    ComesTo grammar size (.many (.seq (.not e) .any)) (text ++ rest) stack
      (.done rest stack []) := by
  induction text with
  | nil => exact .many_stop (h.unless_fails htext.stops)
  | cons c text ih => exact .many_step (h.unless_cons htext.not_head) (ih htext.tail)

theorem many1_unless (h : Guards grammar size e stack p) (hne : text ≠ [])
    (htext : UpTo p text rest) :
    ComesTo grammar size (.many1 (.seq (.not e) .any)) (text ++ rest) stack
      (.done rest stack []) := by
  cases text with
  | nil => exact absurd rfl hne
  | cons c text => exact .seq (h.unless_cons htext.not_head) (h.many_unless htext.tail)

theorem many1_unless_fails (h : Guards grammar size e stack p)
    (hrest : rest = [] ∨ p rest = true) :
    ComesTo grammar size (.many1 (.seq (.not e) .any)) rest stack .fails :=
  .seq_fails (h.unless_fails hrest)

end Guards

end RowTemplate.Grammar
