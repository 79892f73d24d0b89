import RowTemplate.Template.Scan
import Mathlib

/-! What the scan finds at each place of a text, said without the scan. A closing mark cannot start
inside a body and end in its own closer, because its last character occurs in it only once; so the
first closer is found exactly where the body ends. Every text is empty, or starts with a block, or
starts with a tag, or starts with a character of text, and the nodes of the text follow suit. -/

namespace RowTemplate

/-! ### First occurrences of a mark -/

section Mark

variable {name before after : List Char} {last : Char}

/-- A mark at the start of two texts is inside the first, or ends inside the second. -/
theorem mark_prefix_append_cases (h : name ++ [last] <+: before ++ after) :
    name ++ [last] <+: before ∨ ∃ front, name = before ++ front ∧ front ++ [last] <+: after := by
  rcases List.prefix_or_prefix_of_prefix h (List.prefix_append before after) with hmark | hbefore
  · exact Or.inl hmark
  · obtain ⟨tail, htail⟩ := hbefore
    rcases List.eq_nil_or_concat tail with rfl | ⟨front, c, rfl⟩
    · rw [List.append_nil] at htail
      exact Or.inl (htail ▸ List.prefix_refl _)
    · rw [List.concat_eq_append] at htail
      rw [← htail, List.prefix_append_right_inj] at h
      rw [← List.append_assoc] at htail
      obtain ⟨hname, hc⟩ := List.append_inj' htail rfl
      cases hc
      exact Or.inr ⟨front, hname.symm, h⟩

/-- A mark whose last character is new cannot overlap a later copy of itself. -/
theorem mark_prefix_of_append (hlast : last ∉ name) (hbefore : before ≠ [])
    (h : name ++ [last] <+: before ++ (name ++ [last]) ++ after) : name ++ [last] <+: before := by
  rw [List.append_assoc] at h
  rcases mark_prefix_append_cases h with hmark | ⟨front, hname, hrest⟩
  · exact hmark
  · have hfront : front ++ [last] <+: name := by
      refine List.prefix_of_prefix_length_le hrest ?_ ?_
      · rw [List.append_assoc]
        exact List.prefix_append ..
      · have := List.length_pos_iff.2 hbefore
        rw [hname, List.length_append, List.length_append, List.length_singleton]
        omega
    exact absurd (hfront.subset (by simp)) hlast

/-- A mark that ends in a character which is not in the second text is inside the first. -/
theorem mark_prefix_of_not_mem (hlast : last ∉ after) (h : name ++ [last] <+: before ++ after) :
    name ++ [last] <+: before := by
  rcases mark_prefix_append_cases h with hmark | ⟨front, _, hrest⟩
  · exact hmark
  · exact absurd (hrest.subset (by simp)) hlast

theorem cut?_mark (hlast : last ∉ name) (hbefore : ¬ name ++ [last] <:+: before) :
    cut? (name ++ [last]) (before ++ (name ++ [last]) ++ after) = some (before, after) := by
  induction before with
  | nil =>
      cases hmark : name ++ [last] with
      | nil => simp at hmark
      | cons c cs =>
          rw [List.nil_append, List.cons_append, cut?, if_pos]
          · rw [← List.cons_append, List.drop_left]
          · rw [List.isPrefixOf_iff_prefix, ← List.cons_append]
            exact List.prefix_append ..
  | cons c cs ih =>
      have hcs : ¬ name ++ [last] <:+: cs := fun h => hbefore (List.infix_cons h)
      rw [List.cons_append, List.cons_append, cut?, if_neg, ih hcs]
      · rfl
      · rw [List.isPrefixOf_iff_prefix, ← List.cons_append, ← List.cons_append]
        intro h
        exact hbefore (mark_prefix_of_append hlast (List.cons_ne_nil c cs) h).isInfix

end Mark

theorem not_infix_of_cut? {pattern text before after : List Char} (hpattern : pattern ≠ [])
    (h : cut? pattern text = some (before, after)) : ¬ pattern <:+: before := by
  induction text generalizing before with
  | nil =>
      cases pattern with
      | nil => exact absurd rfl hpattern
      | cons c cs => simp [cut?] at h
  | cons c cs ih =>
      have htext := eq_of_cut? h
      rw [cut?] at h
      split at h
      case isTrue =>
        cases h
        exact fun hinfix => hpattern (List.infix_nil.1 hinfix)
      case isFalse hprefix =>
        obtain ⟨⟨before', after'⟩, hcut, hpair⟩ := Option.map_eq_some_iff.1 h
        cases hpair
        rw [List.infix_cons_iff]
        rintro (hstart | hlater)
        · apply hprefix
          rw [List.isPrefixOf_iff_prefix, htext, List.append_assoc]
          exact hstart.trans (List.prefix_append ..)
        · exact ih hcut hlater

namespace Template

/-! ### The piece at a place -/

theorem block?_eq_some_iff_source {cs rest : List Char} {node : Node} :
    block? cs = some (node, rest) ↔ ∃ list body, '>' ∉ list ∧ ¬ closer list <:+: body ∧
      cs = opener list ++ body ++ closer list ++ rest ∧
        node = .block (.ofList list) (.ofList body) := by
  rw [block?_eq_some_iff]
  constructor
  · rintro ⟨tail, list, inner, body, rfl, hlist, hbody, rfl⟩
    have hname : '>' ∉ list := by
      intro hmem
      exact not_infix_of_cut? (by simp) hlist ((List.singleton_infix_iff _ _).2 hmem)
    refine ⟨list, body, hname, not_infix_of_cut? (by simp [closer]) hbody, ?_, rfl⟩
    rw [eq_of_cut? hlist, eq_of_cut? hbody]
    simp [opener]
  · rintro ⟨list, body, hname, hbody, rfl, rfl⟩
    have hlast : '>' ∉ '<' :: '/' :: list := by simpa using hname
    refine ⟨list ++ '>' :: (body ++ closer list ++ rest), list, body ++ closer list ++ rest, body,
      by simp [opener], ?_, cut?_mark hlast hbody, rfl⟩
    have hopener : ¬ [] ++ ['>'] <:+: list := by
      rwa [List.nil_append, List.singleton_infix_iff]
    have hcut : cut? ([] ++ ['>']) (list ++ ([] ++ ['>']) ++ (body ++ closer list ++ rest)) =
        some (list, body ++ closer list ++ rest) := cut?_mark List.not_mem_nil hopener
    simpa using hcut

theorem block?_eq_none_iff {cs : List Char} : block? cs = none ↔ ¬ StartsBlock cs := by
  constructor
  · rintro hnone ⟨list, body, hname, tail, rfl⟩
    cases hcut : cut? (closer list) (body ++ closer list ++ tail) with
    | none => exact cut?_eq_none_iff.1 hcut ⟨body, tail, rfl⟩
    | some parts =>
        obtain ⟨before, after⟩ := parts
        have hsome : block? (opener list ++ before ++ closer list ++ after) =
            some (.block (.ofList list) (.ofList before), after) :=
          block?_eq_some_iff_source.2
            ⟨list, before, hname, not_infix_of_cut? (by simp [closer]) hcut, rfl, rfl⟩
        have htext : opener list ++ body ++ closer list ++ tail =
            opener list ++ before ++ closer list ++ after := by
          have := eq_of_cut? hcut
          simp only [List.append_assoc] at this ⊢
          rw [this]
        rw [htext, hsome] at hnone
        cases hnone
  · intro hstarts
    cases hblock : block? cs with
    | none => rfl
    | some piece =>
        obtain ⟨list, body, hname, _, rfl, _⟩ := block?_eq_some_iff_source.1 hblock
        exact absurd ⟨list, body, hname, List.prefix_append ..⟩ hstarts

theorem tag?_eq_none_iff {cs : List Char} : tag? cs = none ↔ ¬ StartsTag cs := by
  constructor
  · rintro hnone ⟨name, ⟨hne, hname⟩, tail, rfl⟩
    rw [tag?_eq_some_iff.2 ⟨name, hne, hname, rfl, rfl⟩] at hnone
    cases hnone
  · intro hstarts
    cases htag : tag? cs with
    | none => rfl
    | some piece =>
        obtain ⟨name, hne, hname, rfl, _⟩ := tag?_eq_some_iff.1 htag
        exact absurd ⟨name, ⟨hne, hname⟩, List.prefix_append ..⟩ hstarts

/-- A place where neither a tag nor a block starts: what stands there is text. -/
def IsLiteral (cs : List Char) : Prop := ¬ StartsTag cs ∧ ¬ StartsBlock cs

theorem isLiteral_cons {c : Char} (hc : c ≠ '<') (cs : List Char) : IsLiteral (c :: cs) := by
  constructor
  · rintro ⟨name, _, tail, htail⟩
    exact hc (List.cons.inj htail).1.symm
  · rintro ⟨list, body, _, tail, htail⟩
    exact hc (List.cons.inj htail).1.symm

/-! ### The nodes of a text -/

/-- The nodes of a text, adjacent text joined. -/
def read (cs : List Char) : List Node := Node.joinText (scan cs)

theorem parse_eq_read (template : String) : parse template = read template.toList := rfl

@[simp] theorem read_nil : read [] = [] := by
  rw [read, scan]
  rfl

theorem read_of_block? {cs rest : List Char} {node : Node} (h : block? cs = some (node, rest)) :
    read cs = Node.cons node (read rest) := by
  cases cs with
  | nil => cases h
  | cons c cs =>
      rw [read, scan_cons, next, h]
      rfl

theorem read_of_tag? {cs rest : List Char} {node : Node} (hblock : block? cs = none)
    (h : tag? cs = some (node, rest)) : read cs = Node.cons node (read rest) := by
  cases cs with
  | nil => cases h
  | cons c cs =>
      rw [read, scan_cons, next, hblock, h]
      rfl

theorem read_of_isLiteral {c : Char} {cs : List Char} (h : IsLiteral (c :: cs)) :
    read (c :: cs) = Node.cons (literal c cs).1 (read (literal c cs).2) := by
  rw [read, scan_cons, next, block?_eq_none_iff.2 h.2, tag?_eq_none_iff.2 h.1]
  rfl

theorem read_block {list body : List Char} (hname : '>' ∉ list) (hbody : ¬ closer list <:+: body)
    (rest : List Char) : read (opener list ++ body ++ closer list ++ rest) =
      .block (.ofList list) (.ofList body) :: read rest :=
  read_of_block? (block?_eq_some_iff_source.2 ⟨list, body, hname, hbody, rfl, rfl⟩)

theorem not_startsBlock_of_startsTag {cs : List Char} (h : StartsTag cs) : ¬ StartsBlock cs := by
  obtain ⟨name, ⟨hne, hname⟩, tail, rfl⟩ := h
  rintro ⟨list, body, _, tail', htail⟩
  cases name with
  | nil => exact hne rfl
  | cons c name =>
      have hc : '#' = c := (List.cons.inj (List.cons.inj htail).2).1
      have := hname c List.mem_cons_self
      rw [← hc] at this
      exact absurd this (by decide)

theorem read_tag {name : List Char} (hname : IsTagName name) (rest : List Char) :
    read (tagMark name ++ rest) = .tag (.ofList name) :: read rest := by
  have hblock : block? (tagMark name ++ rest) = none :=
    block?_eq_none_iff.2 (not_startsBlock_of_startsTag ⟨name, hname, List.prefix_append ..⟩)
  exact read_of_tag? hblock (tag?_eq_some_iff.2 ⟨name, hname.1, hname.2, rfl, rfl⟩)

theorem cons_text_cons_text (s t : String) (nodes : List Node) :
    Node.cons (.text s) (Node.cons (.text t) nodes) = Node.cons (.text (s ++ t)) nodes := by
  rcases nodes with _ | ⟨node, rest⟩
  · rfl
  · cases node with
    | text u => simp only [Node.cons, String.append_assoc]
    | tag name => rfl
    | block list body => rfl

theorem cons_text_of_ne {nodes : List Node} (h : ∀ t rest, nodes ≠ .text t :: rest) (s : String) :
    Node.cons (.text s) nodes = .text s :: nodes := by
  rcases nodes with _ | ⟨node, rest⟩
  · rfl
  · cases node with
    | text t => exact absurd rfl (h t rest)
    | tag name => rfl
    | block list body => rfl

/-- A character of text joins the text that follows it. -/
theorem read_literal {c : Char} {cs : List Char} (h : IsLiteral (c :: cs)) :
    read (c :: cs) = Node.cons (.text (.ofList [c])) (read cs) := by
  rw [read_of_isLiteral h, literal]
  by_cases hc : c = '<'
  · rw [if_pos hc, hc]
  · rw [if_neg hc]
    cases cs with
    | nil => rfl
    | cons d cs =>
        by_cases hd : d = '<'
        · rw [hd]
          rfl
        · have hrun : read (d :: cs) =
              Node.cons (.text (.ofList (d :: cs.takeWhile (· != '<'))))
                (read (cs.dropWhile (· != '<'))) := by
            rw [read_of_isLiteral (isLiteral_cons hd cs), literal, if_neg hd]
          rw [hrun, cons_text_cons_text, List.takeWhile_cons, List.dropWhile_cons]
          simp [hd]

/-- Induction on a text, piece by piece. -/
theorem readInduction {motive : List Char → Prop} (nil : motive [])
    (block : ∀ list body rest, '>' ∉ list → ¬ closer list <:+: body → motive rest →
      motive (opener list ++ body ++ closer list ++ rest))
    (tag : ∀ name rest, IsTagName name → motive rest → motive (tagMark name ++ rest))
    (literal : ∀ c cs, IsLiteral (c :: cs) → motive cs → motive (c :: cs))
    (cs : List Char) : motive cs := by
  induction hn : cs.length using Nat.strong_induction_on generalizing cs with
  | _ n ih =>
      have hshorter : ∀ rest : List Char, rest.length < cs.length → motive rest :=
        fun rest hlt => ih rest.length (hn ▸ hlt) rest rfl
      by_cases hblock : StartsBlock cs
      · obtain ⟨⟨node, rest⟩, hsome⟩ :=
          Option.ne_none_iff_exists'.1 fun hnone => block?_eq_none_iff.1 hnone hblock
        obtain ⟨list, body, hname, hbody, rfl, _⟩ := block?_eq_some_iff_source.1 hsome
        exact block list body rest hname hbody (hshorter rest (by simp [opener]; omega))
      · by_cases htag : StartsTag cs
        · obtain ⟨name, hname, rest, rfl⟩ := htag
          exact tag name rest hname (hshorter rest (by simp [tagMark]; omega))
        · cases cs with
          | nil => exact nil
          | cons c cs => exact literal c cs ⟨htag, hblock⟩ (hshorter cs (by simp))

end Template

end RowTemplate
