import RowTemplate.Proofs.Reading

/-! Fragments of a template. A template may be cut between two nodes and inside a text, but not
inside a tag or a block. With less text after it a `<` can be closed only where it could be closed
before, and what stands before a node does not matter for it; so a fragment between two cuts reads
as the nodes that it covers, where a text that reaches over an end of the fragment is trimmed. -/

namespace RowTemplate

/-! ### Stretches of a text -/

theorem extract_append (i j : ℕ) (cs ds : List Char) :
    (cs ++ ds).extract i j =
      cs.extract i j ++ ds.extract (i - cs.length) (j - cs.length) := by
  have hrest : j - i - (cs.length - i) = j - cs.length - (i - cs.length) := by omega
  rw [List.extract_eq_take_drop, List.drop_append, List.take_append, List.length_drop, hrest]

theorem extract_eq_nil_of_le {i : ℕ} {cs : List Char} (hi : cs.length ≤ i) (j : ℕ) :
    cs.extract i j = [] := by
  rw [List.extract_eq_take_drop, List.drop_eq_nil_of_le hi, List.take_nil]

theorem extract_eq_nil_of_ge {i j : ℕ} (h : j ≤ i) (cs : List Char) : cs.extract i j = [] := by
  rw [List.extract_eq_take_drop, Nat.sub_eq_zero_of_le h, List.take_zero]

theorem extract_zero_right (i : ℕ) (cs : List Char) : cs.extract i 0 = [] :=
  extract_eq_nil_of_ge (Nat.zero_le i) cs

theorem extract_between (cs ds es : List Char) :
    (cs ++ ds ++ es).extract cs.length (cs ++ ds).length = ds := by
  rw [List.extract_eq_take_drop, List.append_assoc, List.drop_left, List.length_append,
    Nat.add_sub_cancel_left, List.take_left]

/-- A stretch with what stands before and after it is the whole text. -/
theorem take_extract_drop {i j : ℕ} (h : i ≤ j) (cs : List Char) :
    cs.take i ++ cs.extract i j ++ cs.drop j = cs := by
  rw [List.extract_eq_take_drop, ← List.take_add, Nat.add_sub_cancel' h, List.take_append_drop]

theorem extract_whole {j : ℕ} {cs : List Char} (hj : cs.length ≤ j) : cs.extract 0 j = cs :=
  List.take_of_length_le hj

namespace Node

/-- A place in the text that nodes spell out: between two of them, or inside a text. -/
inductive IsCut : List Node → ℕ → Prop
  | between (before after : List Node) : IsCut (before ++ after) (sources before).length
  | inside (before after : List Node) {content : String} {i : ℕ} (h : i ≤ content.length) :
      IsCut (before ++ .text content :: after) ((sources before).length + i)

/-- What a stretch covers of a node: a text is trimmed to the stretch and dropped if nothing is left
of it, and a tag or a block is covered as a whole or not at all. -/
def part (i j : ℕ) : Node → List Node
  | text content =>
      let chars := content.toList.extract i j
      if chars = [] then [] else [.text (.ofList chars)]
  | node => if i = 0 ∧ node.source.length ≤ j then [node] else []

/-- What a stretch covers of the nodes whose text it is a stretch of. -/
def covered (i j : ℕ) : List Node → List Node
  | [] => []
  | node :: rest =>
      node.part i j ++ covered (i - node.source.length) (j - node.source.length) rest

/-! ### Cuts -/

theorem isCut_zero (nodes : List Node) : IsCut nodes 0 := .between [] nodes

theorem IsCut.cons_cases {node : Node} {rest : List Node} {i : ℕ} (h : IsCut (node :: rest) i) :
    i = 0 ∨ (∃ content, node = .text content ∧ i ≤ node.source.length) ∨
      ∃ k, i = node.source.length + k ∧ IsCut rest k := by
  generalize hnodes : node :: rest = nodes at h
  cases h with
  | between before after =>
      cases before with
      | nil => exact Or.inl rfl
      | cons first before =>
          obtain ⟨rfl, rfl⟩ := List.cons.inj hnodes
          exact Or.inr (Or.inr ⟨_, by simp, .between before after⟩)
  | @inside before after content i hi =>
      cases before with
      | nil =>
          obtain ⟨rfl, rfl⟩ := List.cons.inj hnodes
          rw [sources_nil, List.length_nil, Nat.zero_add]
          exact Or.inr (Or.inl ⟨content, rfl, hi.trans_eq String.length_toList.symm⟩)
      | cons first before =>
          obtain ⟨rfl, rfl⟩ := List.cons.inj hnodes
          exact Or.inr (Or.inr ⟨_, by simp [Nat.add_assoc], .inside before after hi⟩)

theorem IsCut.tail {node : Node} {rest : List Node} {i : ℕ} (h : IsCut (node :: rest) i) :
    IsCut rest (i - node.source.length) := by
  rcases h.cons_cases with rfl | ⟨content, _, hi⟩ | ⟨k, rfl, hk⟩
  · rw [Nat.zero_sub]
    exact isCut_zero rest
  · rw [Nat.sub_eq_zero_of_le hi]
    exact isCut_zero rest
  · rwa [Nat.add_sub_cancel_left]

theorem IsCut.eq_zero_or_le {node : Node} {rest : List Node} {i : ℕ} (h : IsCut (node :: rest) i)
    (hnode : ∀ content, node ≠ .text content) : i = 0 ∨ node.source.length ≤ i := by
  rcases h.cons_cases with hi | ⟨content, htext, _⟩ | ⟨k, rfl, _⟩
  · exact Or.inl hi
  · exact absurd htext (hnode content)
  · exact Or.inr (Nat.le_add_right _ _)

/-! ### Parts of nodes -/

theorem source_length_pos {node : Node} (hnode : ∀ content, node ≠ .text content) :
    0 < node.source.length := by
  cases node with
  | text content => exact absurd rfl (hnode content)
  | tag name => simp [source, tagMark]
  | block list body => simp [source, opener]

theorem part_of_ne_text {node : Node} (hnode : ∀ content, node ≠ .text content) (i j : ℕ) :
    node.part i j = if i = 0 ∧ node.source.length ≤ j then [node] else [] := by
  cases node with
  | text content => exact absurd rfl (hnode content)
  | tag name => rfl
  | block list body => rfl

theorem part_eq_nil_of_le {node : Node} {i : ℕ} (hi : node.source.length ≤ i) (j : ℕ) :
    node.part i j = [] := by
  by_cases hnode : ∃ content, node = .text content
  · obtain ⟨content, rfl⟩ := hnode
    exact if_pos (extract_eq_nil_of_le hi j)
  · have hpos := source_length_pos (not_exists.1 hnode)
    rw [part_of_ne_text (not_exists.1 hnode), if_neg]
    omega

theorem part_zero_right (node : Node) (i : ℕ) : node.part i 0 = [] := by
  by_cases hnode : ∃ content, node = .text content
  · obtain ⟨content, rfl⟩ := hnode
    exact if_pos (extract_zero_right i _)
  · have hpos := source_length_pos (not_exists.1 hnode)
    rw [part_of_ne_text (not_exists.1 hnode), if_neg]
    omega

theorem part_whole {node : Node} {j : ℕ} (hnode : node ≠ .text "")
    (hj : node.source.length ≤ j) : node.part 0 j = [node] := by
  cases node with
  | text content =>
      have hchars : content.toList.extract 0 j = content.toList := extract_whole hj
      have hne : content.toList ≠ [] := by
        intro hempty
        exact hnode (congrArg Node.text (String.toList_inj.1 hempty))
      simp only [part, hchars, if_neg hne, String.ofList_toList]
  | tag name => exact if_pos ⟨rfl, hj⟩
  | block list body => exact if_pos ⟨rfl, hj⟩

/-! ### What stretches cover -/

theorem covered_append (before after : List Node) (i j : ℕ) :
    covered i j (before ++ after) = covered i j before ++
      covered (i - (sources before).length) (j - (sources before).length) after := by
  induction before generalizing i j with
  | nil => rfl
  | cons node before ih =>
      rw [List.cons_append, covered, ih, covered, sources_cons, List.length_append,
        List.append_assoc, Nat.sub_sub, Nat.sub_sub]

theorem covered_eq_nil_of_le {nodes : List Node} {i : ℕ} (hi : (sources nodes).length ≤ i)
    (j : ℕ) : covered i j nodes = [] := by
  induction nodes generalizing i j with
  | nil => rfl
  | cons node rest ih =>
      rw [sources_cons, List.length_append] at hi
      rw [covered, part_eq_nil_of_le (by omega), ih (by omega), List.append_nil]

theorem covered_zero_right (nodes : List Node) (i : ℕ) : covered i 0 nodes = [] := by
  induction nodes generalizing i with
  | nil => rfl
  | cons node rest ih => rw [covered, part_zero_right, Nat.zero_sub, ih, List.append_nil]

theorem covered_whole {nodes : List Node} (hnodes : ∀ node ∈ nodes, node ≠ .text "") {j : ℕ}
    (hj : (sources nodes).length ≤ j) : covered 0 j nodes = nodes := by
  induction nodes generalizing j with
  | nil => rfl
  | cons node rest ih =>
      rw [sources_cons, List.length_append] at hj
      obtain ⟨hnode, hrest⟩ := List.forall_mem_cons.1 hnodes
      rw [covered, part_whole hnode (by omega), Nat.zero_sub, ih hrest (by omega),
        List.singleton_append]

/-- The stretch of a window of the nodes covers the window. -/
theorem covered_window (before after : List Node) {window : List Node}
    (hwindow : ∀ node ∈ window, node ≠ .text "") :
    covered (sources before).length (sources (before ++ window)).length
      (before ++ window ++ after) = window := by
  have hlength : (sources (before ++ window)).length =
      (sources before).length + (sources window).length := by
    rw [sources, List.flatMap_append, List.length_append]
    rfl
  rw [covered_append, covered_append, covered_eq_nil_of_le (Nat.le_refl _), Nat.sub_self,
    Nat.sub_self, covered_zero_right, List.nil_append, List.append_nil, hlength,
    Nat.add_sub_cancel_left]
  exact covered_whole hwindow (Nat.le_refl _)

/-- Text is not covered first unless it stands first. -/
theorem covered_zero_ne_text {nodes : List Node} (h : ∀ t rest, nodes ≠ .text t :: rest) (j : ℕ) :
    ∀ t rest, covered 0 j nodes ≠ .text t :: rest := by
  cases nodes with
  | nil => exact fun _ _ => nofun
  | cons node rest =>
      have hnode : ∀ content, node ≠ .text content := fun content heq => h content rest (heq ▸ rfl)
      by_cases hj : node.source.length ≤ j
      · rw [covered, part_of_ne_text hnode, if_pos ⟨rfl, hj⟩]
        exact fun t later heq => hnode t (List.cons.inj heq).1
      · have hnone : covered 0 j (node :: rest) = [] := by
          rw [covered, part_of_ne_text hnode, if_neg (fun hwhole => hj hwhole.2),
            Nat.sub_eq_zero_of_le (Nat.le_of_not_le hj), covered_zero_right, List.append_nil]
        rw [hnone]
        exact fun _ _ => nofun

end Node

namespace Template

/-! ### Readings of stretches -/

theorem IsLiteral.of_isPrefix {cs cs' : List Char} (h : IsLiteral cs') (hstart : cs <+: cs') :
    IsLiteral cs := by
  constructor
  · rintro ⟨name, hname, hmark⟩
    exact h.1 ⟨name, hname, hmark.trans hstart⟩
  · rintro ⟨list, body, hlist, hmark⟩
    exact h.2 ⟨list, body, hlist, hmark.trans hstart⟩

variable {cs : List Char} {nodes following : List Node} {i j : ℕ}

theorem isReading_part_of_ne_text {node : Node} (hnode : ∀ content, node ≠ .text content)
    (hfits : Fits following node) (hi : i = 0 ∨ node.source.length ≤ i)
    (hj : j = 0 ∨ node.source.length ≤ j) (h : IsReading cs nodes) :
    IsReading (node.source.extract i j ++ cs) (node.part i j ++ nodes) := by
  rw [Node.part_of_ne_text hnode]
  by_cases hwhole : i = 0 ∧ node.source.length ≤ j
  · obtain ⟨rfl, hlength⟩ := hwhole
    rw [if_pos ⟨rfl, hlength⟩, extract_whole hlength, ← h.sources_eq]
    refine isReading_cons_iff.2 ⟨rfl, ?_, h.sources_eq ▸ h⟩
    cases node with
    | text content => exact absurd rfl (hnode content)
    | tag name => exact hfits
    | block list body => exact hfits
  · have hempty : node.source.extract i j = [] := by
      rcases hi with rfl | hi
      · rcases hj with rfl | hj
        · exact extract_zero_right 0 _
        · exact absurd ⟨rfl, hj⟩ hwhole
      · exact extract_eq_nil_of_le hi j
    rwa [if_neg hwhole, hempty]

/-- What is left of a text reads as text, as it has less text after it than before. -/
theorem isReading_part_text {content : String} {rest : List Node}
    (hfits : Fits rest (.text content))
    (h : IsReading
      ((Node.sources rest).extract (i - content.toList.length) (j - content.toList.length))
      (Node.covered (i - content.toList.length) (j - content.toList.length) rest)) :
    IsReading (content.toList.extract i j ++
        (Node.sources rest).extract (i - content.toList.length) (j - content.toList.length))
      (Node.part i j (.text content) ++
        Node.covered (i - content.toList.length) (j - content.toList.length) rest) := by
  obtain ⟨_, hadjacent, hliteral⟩ := hfits
  by_cases hchars : content.toList.extract i j = []
  · rw [hchars, Node.part]
    simpa only [hchars, if_true, List.nil_append] using h
  · have hi : i ≤ content.toList.length :=
      Nat.le_of_not_le fun hi => hchars (extract_eq_nil_of_le hi j)
    have hij : i ≤ j := Nat.le_of_not_le fun hji => hchars (extract_eq_nil_of_ge hji _)
    rw [Nat.sub_eq_zero_of_le hi] at h ⊢
    have hpart : Node.part i j (.text content) = [.text (.ofList (content.toList.extract i j))] :=
      if_neg hchars
    rw [hpart, List.singleton_append, ← h.sources_eq]
    refine isReading_cons_iff.2
      ⟨by simp [Node.source], ⟨?_, ?_, fun u v huv => ?_⟩, h.sources_eq ▸ h⟩
    · simpa using hchars
    · exact Node.covered_zero_ne_text hadjacent _
    · rw [String.toList_ofList] at huv
      have hcontent : content.toList =
          (content.toList.take i ++ u) ++ '<' :: (v ++ content.toList.drop j) := by
        have hwhole := take_extract_drop hij content.toList
        rw [huv] at hwhole
        simpa using hwhole.symm
      refine (hliteral _ _ hcontent).of_isPrefix ?_
      rw [h.sources_eq, List.cons_append, List.cons_append, List.append_assoc, List.prefix_cons_inj,
        List.prefix_append_right_inj]
      rcases Nat.le_total j content.toList.length with hj | hj
      · rw [Nat.sub_eq_zero_of_le hj, extract_zero_right]
        exact List.nil_prefix
      · rw [List.drop_eq_nil_of_le hj, List.nil_append]
        exact List.take_prefix _ _

/-- A stretch between two cuts reads as the nodes that it covers. -/
theorem isReading_covered {nodes : List Node} (h : IsReading (Node.sources nodes) nodes) {i j : ℕ}
    (hi : Node.IsCut nodes i) (hj : Node.IsCut nodes j) :
    IsReading ((Node.sources nodes).extract i j) (Node.covered i j nodes) := by
  induction nodes generalizing i j with
  | nil => simpa [Node.covered] using isReading_nil
  | cons node rest ih =>
      obtain ⟨_, hfits, hrest⟩ := isReading_cons_iff.1 h
      have hlater := ih hrest hi.tail hj.tail
      rw [Node.sources_cons, extract_append, Node.covered]
      by_cases hnode : ∃ content, node = .text content
      · obtain ⟨content, rfl⟩ := hnode
        exact isReading_part_text hfits hlater
      · have hnode := not_exists.1 hnode
        exact isReading_part_of_ne_text hnode hfits (hi.eq_zero_or_le hnode)
          (hj.eq_zero_or_le hnode) hlater

theorem isReading_parse (template : String) :
    IsReading (Node.sources (parse template)) (parse template) := by
  rw [sources_parse]
  exact isReading_read template.toList

/-- Nodes that are next to one another are the reading of what they spell out. -/
theorem isReading_window {before window after : List Node}
    (h : IsReading (Node.sources (before ++ window ++ after)) (before ++ window ++ after)) :
    IsReading (Node.sources window) window := by
  have hfirst : Node.IsCut (before ++ window ++ after) (Node.sources before).length := by
    rw [List.append_assoc]
    exact .between before (window ++ after)
  have hlast : Node.IsCut (before ++ window ++ after) (Node.sources (before ++ window)).length :=
    .between (before ++ window) after
  have hwindow : ∀ node ∈ window, node ≠ .text "" := by
    rintro _ hmem rfl
    have hwhole : Node.text "" ∈ before ++ window ++ after :=
      List.mem_append_left _ (List.mem_append_right _ hmem)
    exact h.text_ne_empty "" hwhole rfl
  have hcovered := isReading_covered h hfirst hlast
  rw [Node.covered_window before after hwindow] at hcovered
  exact hcovered.sources_eq ▸ hcovered

/-- What is taken out of a text is text. -/
theorem read_infix_of_text {content : String} {fragment cs : List Char} {nodes : List Node}
    (h : IsReading cs nodes) (hmem : .text content ∈ nodes) (hne : fragment ≠ [])
    (hwithin : fragment <:+: content.toList) : read fragment = [.text (.ofList fragment)] := by
  obtain ⟨before, after, rfl⟩ := List.append_of_mem hmem
  obtain ⟨front, back, hcontent⟩ := hwithin
  have hliteral : ∀ u v, fragment = u ++ '<' :: v → IsLiteral ('<' :: v ++ []) := by
    rintro u v rfl
    have hwhole := h.is_literal before after _ (front ++ u) (v ++ back) rfl
      (by rw [← hcontent]; simp)
    refine IsLiteral.of_isPrefix hwhole ?_
    rw [List.append_nil, ← List.cons_append, List.append_assoc]
    exact List.prefix_append _ _
  have hread := read_text hne hliteral
  rwa [List.append_nil, read_nil] at hread

/-- **Fragments.** A fragment of a template whose ends are between nodes or inside texts reads as
the nodes that it covers, with its first and last text trimmed. So a window of the nodes, written
out, reads as these nodes, and what is taken out of a text reads as text. -/
theorem parse_fragment (template : String) :
    (∀ before fragment after : String, template = before ++ fragment ++ after →
      Node.IsCut (parse template) before.length →
      Node.IsCut (parse template) (before ++ fragment).length →
        parse fragment =
          Node.covered before.length (before ++ fragment).length (parse template)) ∧
      (∀ before window after, parse template = before ++ window ++ after →
        parse (.ofList (Node.sources window)) = window) ∧
      ∀ content fragment : String, .text content ∈ parse template →
        fragment.toList <:+: content.toList →
          parse fragment = if fragment = "" then [] else [.text fragment] := by
  have hreading := isReading_parse template
  refine ⟨?_, ?_, ?_⟩
  · rintro before fragment after rfl hfirst hlast
    have hfragment : (before ++ fragment ++ after).toList.extract before.length
        (before ++ fragment).length = fragment.toList := by
      rw [← String.length_toList, ← String.length_toList, String.toList_append,
        String.toList_append, extract_between]
    have hcovered := isReading_covered hreading hfirst hlast
    rw [sources_parse, hfragment] at hcovered
    exact (eq_read_of_isReading hcovered).symm
  · intro before window after hparse
    rw [hparse] at hreading
    rw [parse_eq_read, String.toList_ofList]
    exact (eq_read_of_isReading (isReading_window hreading)).symm
  · intro content fragment hmem hwithin
    by_cases hempty : fragment = ""
    · rw [if_pos hempty, hempty]
      exact read_nil
    · rw [if_neg hempty, parse_eq_read]
      have hne : fragment.toList ≠ [] := by simpa using hempty
      rw [read_infix_of_text hreading hmem hne hwithin, String.ofList_toList]

/-- The cuts are inside the first text and inside a mark that nothing closes, which is text. -/
theorem parse_fragment_marks :
    ∃ nodes, parse "ab<x><#l><y></l>c<#d><" = nodes ∧
      Node.IsCut nodes "a".length ∧ Node.IsCut nodes ("a" ++ "b<x><#l><y></l>c<#").length ∧
      parse "b<x><#l><y></l>c<#" = [.text "b", .tag "x", .block "l" "<y>", .text "c<#"] ∧
      parse (.ofList (Node.sources [.tag "x", .block "l" "<y>"])) = [.tag "x", .block "l" "<y>"] ∧
      parse "#d>" = [.text "#d>"] := by
  let nodes : List Node := [.text "ab", .tag "x", .block "l" "<y>", .text "c<#d><"]
  have hparse : parse "ab<x><#l><y></l>c<#d><" = nodes := by cbv
  have hfirst : Node.IsCut nodes "a".length :=
    .inside [] [.tag "x", .block "l" "<y>", .text "c<#d><"] (by decide)
  have hlast : Node.IsCut nodes ("a" ++ "b<x><#l><y></l>c<#").length :=
    .inside (i := 3) [.text "ab", .tag "x", .block "l" "<y>"] [] (by decide)
  obtain ⟨hfragment, hwindow, htext⟩ := parse_fragment "ab<x><#l><y></l>c<#d><"
  rw [hparse] at hfragment hwindow htext
  refine ⟨nodes, hparse, hfirst, hlast, ?_, ?_, ?_⟩
  · rw [hfragment "a" "b<x><#l><y></l>c<#" "d><" (by decide) hfirst hlast]
    decide
  · exact hwindow [.text "ab"] _ [.text "c<#d><"] rfl
  · exact htext "c<#d><" "#d>" (by decide) (by decide)

end Template

end RowTemplate
