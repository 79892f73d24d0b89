/-! Parsing expression grammars with a stack of remembered texts. Choice is ordered, repetition
takes all it can and gives nothing back, and an alternative that fails leaves no trace on the
stack. A run has fuel, and running out of it is no outcome. -/

namespace RowTemplate.Grammar

/-- A parsing expression over rules `R`. -/
inductive Expr (R : Type)
  | literal (text : List Char)
  | any
  /-- The start of the text. -/
  | start
  /-- The end of the text. -/
  | finish
  | seq (first second : Expr R)
  /-- The second only where the first fails. -/
  | alt (first second : Expr R)
  /-- Any number of times, as often as `e` matches. -/
  | many (e : Expr R)
  /-- Takes up nothing, and succeeds where `e` fails. -/
  | not (e : Expr R)
  /-- Remembers the text that `e` takes up. -/
  | push (e : Expr R)
  /-- The text remembered last. -/
  | peek
  /-- The text remembered last, which is then forgotten. -/
  | pop
  | rule (r : R)

namespace Expr

/-- One or more times. -/
def many1 {R : Type} (e : Expr R) : Expr R := seq e (many e)

end Expr

/-- What a rule leaves in the tree: a pair around its parts, a pair alone, or only its parts. -/
inductive Mode
  | normal
  | atomic
  | silent
  deriving DecidableEq

/-- A rule that matched, where it starts, the text that it took up, and what its parts left. -/
inductive Pair (R : Type)
  | mk (rule : R) (start : Nat) (text : List Char) (parts : List (Pair R))

/-- What the run of an expression comes to. -/
inductive Outcome (R : Type)
  /-- A match: the text after it, the remembered texts, and what it leaves in the tree. -/
  | done (rest : List Char) (stack : List (List Char)) (pairs : List (Pair R))
  | fails
  /-- Nothing was remembered where a remembered text was asked for. -/
  | stackEmpty

namespace Outcome

variable {R : Type}

/-- Puts pairs in front of those that a match leaves. -/
def prepend (pairs : List (Pair R)) : Outcome R → Outcome R
  | done rest stack more => done rest stack (pairs ++ more)
  | other => other

/-- Goes on after a match, and puts what it left in front. -/
def andThen (outcome : Outcome R)
    (next : List Char → List (List Char) → Option (Outcome R)) : Option (Outcome R) :=
  match outcome with
  | done rest stack pairs => (next rest stack).map (prepend pairs)
  | other => some other

/-- Goes on after a failure. -/
def orElse (outcome : Outcome R) (next : Option (Outcome R)) : Option (Outcome R) :=
  match outcome with
  | fails => next
  | other => some other

/-- Keeps the match as a pair of a rule that starts at the given position. -/
def wrap (mode : Mode) (r : R) (start : Nat) (input : List Char) : Outcome R → Outcome R
  | done rest stack pairs =>
      let text := input.take (input.length - rest.length)
      match mode with
      | .normal => done rest stack [.mk r start text pairs]
      | .atomic => done rest stack [.mk r start text []]
      | .silent => done rest stack pairs
  | other => other

end Outcome

end Grammar

/-- The rules of a grammar, each with an expression and with what it leaves in the tree. -/
structure Grammar (R : Type) where
  body : R → Grammar.Expr R
  mode : R → Grammar.Mode

namespace Grammar

variable {R : Type}

/-- Takes up the given text. -/
def matchText (text input : List Char) (stack : List (List Char)) : Outcome R :=
  if text.isPrefixOf input then .done (input.drop text.length) stack [] else .fails

/-- Runs an expression on the rest `input` of a text of `size` characters. -/
def run (grammar : Grammar R) (size : Nat) :
    Nat → Expr R → List Char → List (List Char) → Option (Outcome R)
  | 0, _, _, _ => none
  | fuel + 1, e, input, stack =>
      let go := grammar.run size fuel
      match e with
      | .literal text => some (matchText text input stack)
      | .any =>
          match input with
          | [] => some .fails
          | _ :: rest => some (.done rest stack [])
      | .start => some (if input.length = size then .done input stack [] else .fails)
      | .finish => some (if input.isEmpty then .done input stack [] else .fails)
      | .seq first second => do (← go first input stack).andThen (go second)
      | .alt first second => do (← go first input stack).orElse (go second input stack)
      | .many e => do
          match ← go e input stack with
          | .fails => some (.done input stack [])
          | outcome => outcome.andThen (go (.many e))
      | .not e => do
          match ← go e input stack with
          | .done .. => some .fails
          | .fails => some (.done input stack [])
          | .stackEmpty => some .stackEmpty
      | .push e => do
          match ← go e input stack with
          | .done rest stack pairs =>
              some (.done rest (input.take (input.length - rest.length) :: stack) pairs)
          | other => some other
      | .peek =>
          match stack with
          | [] => some .stackEmpty
          | top :: _ => some (matchText top input stack)
      | .pop =>
          match stack with
          | [] => some .stackEmpty
          | top :: below => some (matchText top input below)
      | .rule r => do
          let outcome ← go (grammar.body r) input stack
          some (outcome.wrap (grammar.mode r) r (size - input.length) input)

/-- What a rule comes to on a whole text, with any amount of fuel from some amount on. -/
def Yields (grammar : Grammar R) (r : R) (text : List Char) (outcome : Outcome R) : Prop :=
  ∃ least, ∀ fuel ≥ least, grammar.run text.length fuel (.rule r) text [] = some outcome

end Grammar

end RowTemplate
