import RowTemplate.Proofs.Scan

/-! The reading of a text exists and is unique, and it is what the scan gives. A reading is taken
apart at its first node: the node is written at the start of the text, it fits before the nodes that
follow it, and these are a reading of the rest. The nodes that the scan gives are built in the same
way, and conversely each first node of a reading is what the scan finds at that place. -/

namespace RowTemplate.Template

/-- What a node of a reading satisfies, in front of the nodes that follow it. -/
def Fits (following : List Node) : Node → Prop
  | .text content => content ≠ "" ∧ (∀ t rest, following ≠ .text t :: rest) ∧
      ∀ u v, content.toList = u ++ '<' :: v → IsLiteral ('<' :: v ++ Node.sources following)
  | .tag name => IsTagName name.toList
  | .block list body => '>' ∉ list.toList ∧ ¬ closer list.toList <:+: body.toList

theorem isReading_nil : IsReading [] [] where
  sources_eq := rfl
  text_ne_empty := nofun
  not_adjacent := by simp
  isTagName := nofun
  not_mem_list := nofun
  not_closed := nofun
  is_literal := by simp

theorem isReading_cons_iff {cs : List Char} {node : Node} {nodes : List Node} :
    IsReading cs (node :: nodes) ↔ cs = node.source ++ Node.sources nodes ∧ Fits nodes node ∧
      IsReading (Node.sources nodes) nodes := by
  constructor
  · intro h
    refine ⟨h.sources_eq.symm, ?_, ?_⟩
    · cases node with
      | text content =>
          refine ⟨h.text_ne_empty content List.mem_cons_self, fun t rest hrest => ?_, ?_⟩
          · exact h.not_adjacent [] rest content t (hrest ▸ rfl)
          · exact fun u v huv => h.is_literal [] nodes content u v rfl huv
      | tag name => exact h.isTagName name List.mem_cons_self
      | block list body =>
          exact ⟨h.not_mem_list list body List.mem_cons_self, h.not_closed list body List.mem_cons_self⟩
    · constructor
      case sources_eq => rfl
      case text_ne_empty => exact fun content hmem => h.text_ne_empty content (List.mem_cons_of_mem _ hmem)
      case not_adjacent =>
        exact fun before after s t heq => h.not_adjacent (node :: before) after s t (congrArg _ heq)
      case isTagName => exact fun name hmem => h.isTagName name (List.mem_cons_of_mem _ hmem)
      case not_mem_list =>
        exact fun list body hmem => h.not_mem_list list body (List.mem_cons_of_mem _ hmem)
      case not_closed =>
        exact fun list body hmem => h.not_closed list body (List.mem_cons_of_mem _ hmem)
      case is_literal =>
        exact fun before after content u v heq =>
          h.is_literal (node :: before) after content u v (congrArg _ heq)
  · rintro ⟨rfl, hfits, h⟩
    constructor
    case sources_eq => rfl
    case text_ne_empty =>
      intro content hmem
      rcases List.mem_cons.1 hmem with rfl | hmem
      · exact hfits.1
      · exact h.text_ne_empty content hmem
    case not_adjacent =>
      intro before after s t heq
      cases before with
      | nil =>
          obtain ⟨rfl, hnodes⟩ := List.cons.inj heq
          exact hfits.2.1 t after hnodes
      | cons first before => exact h.not_adjacent before after s t (List.cons.inj heq).2
    case isTagName =>
      intro name hmem
      rcases List.mem_cons.1 hmem with rfl | hmem
      · exact hfits
      · exact h.isTagName name hmem
    case not_mem_list =>
      intro list body hmem
      rcases List.mem_cons.1 hmem with rfl | hmem
      · exact hfits.1
      · exact h.not_mem_list list body hmem
    case not_closed =>
      intro list body hmem
      rcases List.mem_cons.1 hmem with rfl | hmem
      · exact hfits.2
      · exact h.not_closed list body hmem
    case is_literal =>
      intro before after content u v heq huv
      cases before with
      | nil =>
          obtain ⟨rfl, rfl⟩ := List.cons.inj heq
          exact hfits.2.2 u v huv
      | cons first before => exact h.is_literal before after content u v (List.cons.inj heq).2 huv

theorem IsReading.block {list body rest : List Char} {nodes : List Node}
    (hrest : IsReading rest nodes) (hname : '>' ∉ list) (hbody : ¬ closer list <:+: body) :
    IsReading (opener list ++ body ++ closer list ++ rest)
      (.block (.ofList list) (.ofList body) :: nodes) := by
  rw [isReading_cons_iff, hrest.sources_eq]
  refine ⟨by simp [Node.source], ⟨?_, ?_⟩, hrest⟩
  · rwa [String.toList_ofList]
  · rwa [String.toList_ofList, String.toList_ofList]

theorem IsReading.tag {name rest : List Char} {nodes : List Node} (hrest : IsReading rest nodes)
    (hname : IsTagName name) : IsReading (tagMark name ++ rest) (.tag (.ofList name) :: nodes) := by
  rw [isReading_cons_iff, hrest.sources_eq]
  refine ⟨by simp [Node.source], ?_, hrest⟩
  change IsTagName (String.ofList name).toList
  rwa [String.toList_ofList]

/-- A character of text extends a reading to the left, into the text that it starts with if any. -/
theorem IsReading.literal {c : Char} {cs : List Char} {nodes : List Node} (h : IsReading cs nodes)
    (hc : IsLiteral (c :: cs)) : IsReading (c :: cs) (Node.cons (.text (.ofList [c])) nodes) := by
  by_cases htext : ∃ t rest, nodes = .text t :: rest
  · obtain ⟨t, rest, rfl⟩ := htext
    obtain ⟨rfl, ⟨_, hadjacent, hliteral⟩, hrest⟩ := isReading_cons_iff.1 h
    change IsReading _ (.text (.ofList [c] ++ t) :: rest)
    have hchars : (String.ofList [c] ++ t).toList = c :: t.toList := by simp
    refine isReading_cons_iff.2 ⟨?_, ⟨?_, hadjacent, fun u v huv => ?_⟩, hrest⟩
    · simp [Node.source]
    · intro hempty
      rw [hempty] at hchars
      cases hchars
    · rw [hchars] at huv
      cases u with
      | nil =>
          obtain ⟨rfl, rfl⟩ := List.cons.inj huv
          exact hc
      | cons d u => exact hliteral u v (List.cons.inj huv).2
  · have hne : ∀ t rest, nodes ≠ .text t :: rest := fun t rest heq => htext ⟨t, rest, heq⟩
    rw [cons_text_of_ne hne, isReading_cons_iff, h.sources_eq]
    refine ⟨by simp [Node.source], ⟨?_, hne, fun u v huv => ?_⟩, h⟩
    · intro hempty
      have := congrArg String.toList hempty
      simp at this
    · rw [String.toList_ofList] at huv
      have hu : u = [] := by
        cases u with
        | nil => rfl
        | cons d u => simp at huv
      rw [hu, List.nil_append] at huv
      obtain ⟨rfl, rfl⟩ := List.cons.inj huv
      rw [h.sources_eq]
      exact hc

theorem isReading_read (cs : List Char) : IsReading cs (read cs) := by
  induction cs using readInduction with
  | nil => rw [read_nil]; exact isReading_nil
  | block list body rest hname hbody ih =>
      rw [read_block hname hbody]
      exact ih.block hname hbody
  | tag name rest hname ih =>
      rw [read_tag hname]
      exact ih.tag hname
  | literal c cs hc ih =>
      rw [read_literal hc]
      exact ih.literal hc

/-- Text that is followed by other nodes is read as one node. -/
theorem read_text {content rest : List Char} (hne : content ≠ [])
    (hliteral : ∀ u v, content = u ++ '<' :: v → IsLiteral ('<' :: v ++ rest)) :
    read (content ++ rest) = Node.cons (.text (.ofList content)) (read rest) := by
  induction content with
  | nil => exact absurd rfl hne
  | cons c cs ih =>
      have hc : IsLiteral (c :: (cs ++ rest)) := by
        by_cases hlt : c = '<'
        · rw [hlt]
          exact hliteral [] cs (hlt ▸ rfl)
        · exact isLiteral_cons hlt _
      rw [List.cons_append, read_literal hc]
      by_cases hcs : cs = []
      · rw [hcs, List.nil_append]
      · have hlater : ∀ u v, cs = u ++ '<' :: v → IsLiteral ('<' :: v ++ rest) :=
          fun u v huv => hliteral (c :: u) v (huv ▸ rfl)
        rw [ih hcs hlater, cons_text_cons_text, ← String.ofList_append, List.singleton_append]

theorem eq_read_of_isReading {nodes : List Node} :
    ∀ {cs : List Char}, IsReading cs nodes → nodes = read cs := by
  induction nodes with
  | nil =>
      intro cs h
      rw [← h.sources_eq]
      exact read_nil.symm
  | cons node rest ih =>
      intro cs h
      obtain ⟨rfl, hfits, hrest⟩ := isReading_cons_iff.1 h
      have hread := ih hrest
      cases node with
      | text content =>
          obtain ⟨hne, hadjacent, hliteral⟩ := hfits
          have hchars : content.toList ≠ [] := by simpa using hne
          change _ = read (content.toList ++ Node.sources rest)
          rw [read_text hchars hliteral, ← hread, String.ofList_toList, cons_text_of_ne hadjacent]
      | tag name =>
          change _ = read (tagMark name.toList ++ Node.sources rest)
          rw [read_tag hfits, ← hread, String.ofList_toList]
      | block list body =>
          change _ = read (opener list.toList ++ body.toList ++ closer list.toList ++ _)
          rw [read_block hfits.1 hfits.2, ← hread, String.ofList_toList, String.ofList_toList]

/-- **Reading.** The nodes of a template are its reading: they spell out the template in order, no
text is empty or next to text, tags and blocks have the form of their kinds, no text holds the start
of a tag or a block, and no other list of nodes satisfies all this. -/
theorem parse_eq_iff_isReading (template : String) :
    (∀ nodes, parse template = nodes ↔ IsReading template.toList nodes) ∧
      ∃! nodes, IsReading template.toList nodes := by
  have hparse : ∀ nodes, parse template = nodes ↔ IsReading template.toList nodes := by
    intro nodes
    rw [parse_eq_read]
    constructor
    · rintro rfl
      exact isReading_read template.toList
    · intro h
      exact (eq_read_of_isReading h).symm
  refine ⟨hparse, parse template, (hparse _).1 rfl, fun nodes h => ?_⟩
  exact ((hparse nodes).2 h).symm

end RowTemplate.Template
