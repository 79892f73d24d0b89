import RowTemplate.Template.Node
import RowTemplate.Text

/-! Reading a template from left to right. At each place a block is tried first, then a tag; what
is neither is text. Every template has a reading, and the nodes written out are the template. -/

namespace RowTemplate.Template

/-- The characters that cannot stand in the name of a tag. -/
def isReserved (c : Char) : Bool := c == '<' || c == '>' || c == '#' || c == '/'

/-- The block at the start of a text, and what follows it. The list's name ends at the first `>`
and the body at the first closer of that list. -/
def block? : List Char → Option (Node × List Char)
  | '<' :: '#' :: cs => do
      let (list, inner) ← cut? ['>'] cs
      let (body, rest) ← cut? (closer list) inner
      some (.block (.ofList list) (.ofList body), rest)
  | _ => none

/-- The tag at the start of a text, and what follows it. -/
def tag? : List Char → Option (Node × List Char)
  | '<' :: cs =>
      let name := cs.takeWhile (!isReserved ·)
      match cs.dropWhile (!isReserved ·) with
      | '>' :: rest => if name.isEmpty then none else some (.tag (.ofList name), rest)
      | _ => none
  | _ => none

/-- The literal text at a place, a `<` alone or all before the next `<`, and what follows it. -/
def literal (c : Char) (cs : List Char) : Node × List Char :=
  if c = '<' then (.text "<", cs)
  else (.text (.ofList (c :: cs.takeWhile (· != '<'))), cs.dropWhile (· != '<'))

/-- The first piece of a text, and what follows it. -/
def next (c : Char) (cs : List Char) : Node × List Char :=
  (block? (c :: cs) <|> tag? (c :: cs)).getD (literal c cs)

theorem block?_eq_some_iff {cs rest : List Char} {node : Node} :
    block? cs = some (node, rest) ↔ ∃ tail list inner body, cs = '<' :: '#' :: tail ∧
      cut? ['>'] tail = some (list, inner) ∧ cut? (closer list) inner = some (body, rest) ∧
      node = .block (.ofList list) (.ofList body) := by
  unfold block?
  split
  case h_1 tail => simp [Option.bind_eq_some_iff, @eq_comm _ node]
  case h_2 hne =>
    simp only [reduceCtorEq, false_iff]
    rintro ⟨tail, _, _, _, rfl, _⟩
    exact hne tail rfl

/-- A tag is a non-empty name without reserved characters between `<` and `>`. -/
theorem tag?_eq_some_iff {cs rest : List Char} {node : Node} :
    tag? cs = some (node, rest) ↔ ∃ name, name ≠ [] ∧ (∀ c ∈ name, isReserved c = false) ∧
      cs = tagMark name ++ rest ∧ node = .tag (.ofList name) := by
  constructor
  · intro h
    unfold tag? at h
    split at h
    case h_1 cs =>
      dsimp only at h
      split at h
      case h_1 rest' hrest =>
        split at h
        case isTrue => exact absurd h nofun
        case isFalse hname =>
          cases h
          refine ⟨_, by simpa using hname, fun c hc => ?_, ?_, rfl⟩
          · simpa using List.all_eq_true.1 List.all_takeWhile c hc
          · have := List.takeWhile_append_dropWhile (p := (!isReserved ·)) (l := cs)
            rw [hrest] at this
            simpa [tagMark] using this.symm
      case h_2 => exact absurd h nofun
    case h_2 => exact absurd h nofun
  · rintro ⟨name, hne, hname, rfl, rfl⟩
    have htake : (name ++ '>' :: rest).takeWhile (!isReserved ·) = name := by
      rw [List.takeWhile_append_of_pos (by simpa using hname)]
      simp [isReserved]
    have hdrop : (name ++ '>' :: rest).dropWhile (!isReserved ·) = '>' :: rest := by
      rw [List.dropWhile_append_of_pos (by simpa using hname)]
      simp [isReserved]
    simp [tag?, tagMark, htake, hdrop, hne]

theorem source_of_block? {cs rest : List Char} {node : Node} (h : block? cs = some (node, rest)) :
    node.source ++ rest = cs := by
  obtain ⟨tail, list, inner, body, rfl, hlist, hbody, rfl⟩ := block?_eq_some_iff.1 h
  simp [Node.source, opener, eq_of_cut? hlist, eq_of_cut? hbody]

theorem source_of_tag? {cs rest : List Char} {node : Node} (h : tag? cs = some (node, rest)) :
    node.source ++ rest = cs := by
  obtain ⟨name, _, _, rfl, rfl⟩ := tag?_eq_some_iff.1 h
  simp [Node.source]

theorem source_literal (c : Char) (cs : List Char) :
    (literal c cs).1.source ++ (literal c cs).2 = c :: cs := by
  unfold literal
  split
  case isTrue hc => simp [Node.source, hc]
  case isFalse => simp [Node.source]

/-- A piece and what follows it are the text that was read. -/
theorem source_next (c : Char) (cs : List Char) :
    (next c cs).1.source ++ (next c cs).2 = c :: cs := by
  unfold next
  cases hblock : block? (c :: cs) with
  | some piece => exact source_of_block? hblock
  | none =>
      cases htag : tag? (c :: cs) with
      | some piece => exact source_of_tag? htag
      | none => exact source_literal c cs

/-- Each piece takes up some of the text. -/
theorem source_next_ne_nil (c : Char) (cs : List Char) : (next c cs).1.source ≠ [] := by
  unfold next
  cases hblock : block? (c :: cs) with
  | some piece =>
      obtain ⟨_, _, _, _, _, _, _, hnode⟩ := block?_eq_some_iff.1 hblock
      simp [hnode, Node.source, opener]
  | none =>
      cases htag : tag? (c :: cs) with
      | some piece =>
          obtain ⟨_, _, _, _, hnode⟩ := tag?_eq_some_iff.1 htag
          simp [hnode, Node.source, tagMark]
      | none =>
          change (literal c cs).1.source ≠ []
          unfold literal
          split <;> simp [Node.source]

theorem length_next_lt (c : Char) (cs : List Char) : (next c cs).2.length < (c :: cs).length := by
  have hlength := congrArg List.length (source_next c cs)
  have hpos := List.length_pos_iff.2 (source_next_ne_nil c cs)
  rw [List.length_append] at hlength
  omega

/-- The pieces of a text in order, adjacent text apart. -/
def scan : List Char → List Node
  | [] => []
  | c :: cs =>
      let piece := next c cs
      piece.1 :: scan piece.2
termination_by cs => cs.length
decreasing_by exact length_next_lt c cs

/-- The nodes of a template, adjacent text joined. -/
def parse (template : String) : List Node := Node.joinText (scan template.toList)

theorem scan_cons (c : Char) (cs : List Char) :
    scan (c :: cs) = (next c cs).1 :: scan (next c cs).2 := by
  rw [scan]

theorem sources_scan (cs : List Char) : Node.sources (scan cs) = cs := by
  induction cs using scan.induct with
  | case1 => simp [scan]
  | case2 c cs piece ih => rw [scan_cons, Node.sources_cons, ih, source_next]

/-- The nodes of a template written one after the other are the template. -/
@[simp] theorem sources_parse (template : String) :
    Node.sources (parse template) = template.toList := by
  rw [parse, Node.sources_joinText, sources_scan]

/-! ### Readings

What it means for nodes to be the reading of a text, said without the scan: they spell out the text,
each node has the form of its kind, and text holds no tag and no block that the rest of the text
could close. -/

/-- A name that can stand in a tag. -/
def IsTagName (name : List Char) : Prop := name ≠ [] ∧ ∀ c ∈ name, isReserved c = false

/-- A text that starts with a tag. -/
def StartsTag (cs : List Char) : Prop := ∃ name, IsTagName name ∧ tagMark name <+: cs

/-- A text that starts with an opener, and has the closer of its list somewhere after it. -/
def StartsBlock (cs : List Char) : Prop :=
  ∃ list body, '>' ∉ list ∧ opener list ++ body ++ closer list <+: cs

/-- Nodes that are the reading of a text. -/
structure IsReading (cs : List Char) (nodes : List Node) : Prop where
  sources_eq : Node.sources nodes = cs
  text_ne_empty : ∀ content, Node.text content ∈ nodes → content ≠ ""
  not_adjacent : ∀ before after s t, nodes ≠ before ++ .text s :: .text t :: after
  isTagName : ∀ name, Node.tag name ∈ nodes → IsTagName name.toList
  not_mem_list : ∀ list body, Node.block list body ∈ nodes → '>' ∉ list.toList
  not_closed : ∀ list body, Node.block list body ∈ nodes → ¬ closer list.toList <:+: body.toList
  /-- Text is no more than text: no `<` in it starts a tag or a block of the whole text. -/
  is_literal : ∀ before after content u v, nodes = before ++ .text content :: after →
    content.toList = u ++ '<' :: v →
      ¬ StartsTag ('<' :: v ++ Node.sources after) ∧ ¬ StartsBlock ('<' :: v ++ Node.sources after)

/-- A node among those of a template, or of the body of a block in it, however deep. -/
inductive Occurs (node : Node) : String → Prop
  | here {template : String} (h : node ∈ parse template) : Occurs node template
  | inside {template list body : String} (h : Node.block list body ∈ parse template)
      (hbody : Occurs node body) : Occurs node template

end RowTemplate.Template
