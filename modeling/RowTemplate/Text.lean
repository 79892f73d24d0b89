/-! Texts as lists of characters. A newline ends a line, and a carriage return right before it belongs
to the line end; a text that ends in a newline has no further line. A cut splits a text around the
first occurrence of a pattern, and its two parts with the pattern between them are the text again. -/

namespace RowTemplate

/-! ### Lines -/

/-- The lines of a text, without their ends. -/
def lines : List Char → List (List Char)
  | [] => []
  | '\n' :: cs => [] :: lines cs
  | '\r' :: '\n' :: cs => [] :: lines cs
  | c :: cs =>
      match lines cs with
      | [] => [[c]]
      | line :: rest => (c :: line) :: rest

/-- The lines of a string, without their ends. -/
def linesOf (text : String) : List String := (lines text.toList).map String.ofList

/-! ### First occurrences -/

/-- The text before the first occurrence of a pattern, and the text after it. -/
def cut? (pattern : List Char) : List Char → Option (List Char × List Char)
  | [] => if pattern.isEmpty then some ([], []) else none
  | c :: cs =>
      if pattern.isPrefixOf (c :: cs) then some ([], (c :: cs).drop pattern.length)
      else (cut? pattern cs).map fun (before, after) => (c :: before, after)

/-- The two sides of a cut, with the pattern between them, are the whole text. -/
theorem eq_of_cut? {pattern text before after : List Char}
    (h : cut? pattern text = some (before, after)) : text = before ++ pattern ++ after := by
  induction text generalizing before with
  | nil =>
      rw [cut?] at h
      split at h
      case isTrue hp => grind
      case isFalse => exact absurd h nofun
  | cons c cs ih =>
      rw [cut?] at h
      split at h
      case isTrue hp =>
        obtain ⟨tail, htail⟩ := List.isPrefixOf_iff_prefix.1 hp
        cases h
        rw [← htail]
        simp
      case isFalse =>
        obtain ⟨⟨before', after'⟩, hcut, heq⟩ := Option.map_eq_some_iff.1 h
        cases heq
        simp [ih hcut]

/-- A cut is found exactly when the pattern occurs. -/
theorem cut?_eq_none_iff {pattern text : List Char} :
    cut? pattern text = none ↔ ¬ pattern <:+: text := by
  induction text with
  | nil => cases pattern <;> simp [cut?]
  | cons c cs ih =>
      rw [cut?, List.infix_cons_iff, ← List.isPrefixOf_iff_prefix]
      split
      case isTrue hp => simp [hp]
      case isFalse hp => simp [hp, ih]

end RowTemplate
