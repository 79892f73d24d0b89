import RowTemplate.Proofs.Rendering
import RowTemplate.Proofs.Reading

/-! Templates written one after the other. A text that follows can turn a `<` far back into a tag or
a block, but only through a `>` of its own and only where that `<` is text. Where neither can happen
every piece of the first template is found again, its last text joins the first text of the second,
and the rendering is that of the two in order. -/

namespace RowTemplate

/-! ### Nodes put together -/

namespace Node

/-- Some nodes and then others; where they meet, text joins text. -/
def append : List Node → List Node → List Node
  | [], after => after
  | [node], after => cons node after
  | node :: next :: before, after => node :: append (next :: before) after

/-- No text has a `<` that could become the start of a tag or a block. -/
def NoOpenText (nodes : List Node) : Prop := ∀ content, .text content ∈ nodes → '<' ∉ content.toList

theorem noOpenText_cons_text {s : String} {nodes : List Node}
    (h : NoOpenText (cons (.text s) nodes)) : '<' ∉ s.toList ∧ NoOpenText nodes := by
  by_cases htext : ∃ t rest, nodes = .text t :: rest
  · obtain ⟨t, rest, rfl⟩ := htext
    have hjoined : '<' ∉ s.toList ∧ '<' ∉ t.toList := by
      simpa using h (s ++ t) List.mem_cons_self
    refine ⟨hjoined.1, fun content hmem => ?_⟩
    rcases List.mem_cons.1 hmem with heq | hmem
    · cases heq
      exact hjoined.2
    · exact h content (List.mem_cons_of_mem _ hmem)
  · rw [Template.cons_text_of_ne fun t rest heq => htext ⟨t, rest, heq⟩] at h
    exact ⟨h s List.mem_cons_self, fun content hmem => h content (List.mem_cons_of_mem _ hmem)⟩

theorem foldr_cons_cons_text (s : String) (nodes after : List Node) :
    (cons (.text s) nodes).foldr cons after = cons (.text s) (nodes.foldr cons after) := by
  rcases nodes with _ | ⟨node, rest⟩
  · rfl
  · cases node with
    | text t => exact (Template.cons_text_cons_text s t _).symm
    | tag name => rfl
    | block list body => rfl

theorem append_eq_foldr {before : List Node}
    (h : ∀ front back s t, before ≠ front ++ .text s :: .text t :: back) (after : List Node) :
    append before after = before.foldr cons after := by
  induction before with
  | nil => rfl
  | cons node before ih =>
      cases before with
      | nil => rfl
      | cons next before =>
          have hlater : append (next :: before) after = (next :: before).foldr cons after :=
            ih fun front back s t heq => h (node :: front) back s t (congrArg _ heq)
          rw [append, List.foldr_cons, ← hlater]
          cases node with
          | text s =>
              have hfirst : ∀ t rest, append (next :: before) after ≠ .text t :: rest := by
                cases next with
                | text t => exact absurd rfl (h [] before s t)
                | tag name => cases before <;> simp [append, cons]
                | block list body => cases before <;> simp [append, cons]
              exact (Template.cons_text_of_ne hfirst s).symm
          | tag name => rfl
          | block list body => rfl

end Node

/-! ### Reading across a seam -/

namespace Template

theorem isLiteral_append {cs after : List Char} (hafter : '>' ∉ after) (h : IsLiteral cs) :
    IsLiteral (cs ++ after) := by
  constructor
  · rintro ⟨name, hname, hmark⟩
    exact h.1 ⟨name, hname, mark_prefix_of_not_mem hafter hmark⟩
  · rintro ⟨list, body, hlist, hmark⟩
    have hends : opener list ++ body ++ closer list =
        (opener list ++ body ++ '<' :: '/' :: list) ++ ['>'] := by
      simp [closer]
    rw [hends] at hmark
    exact h.2 ⟨list, body, hlist, hends ▸ mark_prefix_of_not_mem hafter hmark⟩

theorem read_append {after : List Char} (cs : List Char) :
    Node.NoOpenText (read cs) ∨ '>' ∉ after →
      read (cs ++ after) = (read cs).foldr Node.cons (read after) := by
  induction cs using readInduction with
  | nil =>
      intro _
      rw [read_nil]
      rfl
  | block list body rest hname hbody ih =>
      intro hseam
      rw [read_block hname hbody] at hseam ⊢
      rw [List.append_assoc, read_block hname hbody, ih]
      · rfl
      · exact hseam.imp_left fun h content hmem => h content (List.mem_cons_of_mem _ hmem)
  | tag name rest hname ih =>
      intro hseam
      rw [read_tag hname] at hseam ⊢
      rw [List.append_assoc, read_tag hname, ih]
      · rfl
      · exact hseam.imp_left fun h content hmem => h content (List.mem_cons_of_mem _ hmem)
  | literal c cs hc ih =>
      intro hseam
      rw [read_literal hc] at hseam ⊢
      have hlater : Node.NoOpenText (read cs) ∨ '>' ∉ after :=
        hseam.imp_left fun h => (Node.noOpenText_cons_text h).2
      have hliteral : IsLiteral (c :: (cs ++ after)) := by
        rcases hseam with hopen | hafter
        · have hlt : '<' ∉ [c] := by simpa using (Node.noOpenText_cons_text hopen).1
          exact isLiteral_cons (fun heq => hlt (heq ▸ List.mem_cons_self)) _
        · exact isLiteral_append hafter hc
      rw [List.cons_append, read_literal hliteral, ih hlater, Node.foldr_cons_cons_text]

end Template

/-! ### Rendering across a seam -/

section Text

variable (lists : String → Option (List Row)) (names : Row)

theorem substituteText_node_cons (node : Node) (nodes : List Node) :
    substituteText lists names (Node.cons node nodes) =
      substituteText lists names (node :: nodes) := by
  fun_cases Node.cons node nodes with
  | case1 s t rest =>
      rw [substituteText_text, substituteText_text, substituteText_text, ← followedBy_assoc]
      rfl
  | case2 => rfl

theorem substituteText_foldr_cons (before after : List Node) :
    substituteText lists names (before.foldr Node.cons after) =
      followedBy (substituteText lists names before) (substituteText lists names after) := by
  induction before with
  | nil => rw [substituteText_nil, empty_followedBy]; rfl
  | cons node before ih =>
      calc substituteText lists names ((node :: before).foldr Node.cons after)
          = followedBy (substituteText lists names [node])
              (substituteText lists names (before.foldr Node.cons after)) := by
            rw [List.foldr_cons, substituteText_node_cons, substituteText_cons]
        _ = followedBy (substituteText lists names (node :: before))
              (substituteText lists names after) := by
            rw [ih, ← followedBy_assoc, ← substituteText_cons]

end Text

namespace Template

/-- **Safe seams.** If no text of the first template has a `<`, or the second has no `>`, then the
nodes of the two written one after the other are those of the first and those of the second, text
joined where they meet; and the rendering is that of the first and then that of the second, or the
first failure of the two. -/
theorem parse_append_of_safe (s t : String)
    (hseam : (∀ content, .text content ∈ parse s → '<' ∉ content.toList) ∨ '>' ∉ t.toList) :
    parse (s ++ t) = Node.append (parse s) (parse t) ∧
      ∀ params, render (s ++ t) params = followedBy (render s params) (render t params) := by
  have hread : parse (s ++ t) = (parse s).foldr Node.cons (parse t) := by
    rw [parse_eq_read, parse_eq_read s, parse_eq_read t, String.toList_append]
    exact read_append s.toList hseam
  constructor
  · exact hread.trans (Node.append_eq_foldr (isReading_read s.toList).not_adjacent _).symm
  · intro params
    rw [render_eq, render_eq, render_eq, hread, substituteText_foldr_cons]

theorem parse_append_of_safe_marks :
    ∃ params, (∀ content, .text content ∈ parse "<#l><#m><</l>a" → '<' ∉ content.toList) ∧
      parse ("<#l><#m><</l>a" ++ "b</l><k>") = [.block "l" "<#m><", .text "ab</l>", .tag "k"] ∧
      render ("<#l><#m><</l>a" ++ "b</l><k>") params = .ok "<#m><ab</l>1" := by
  let params : Params := ⟨⟨[("k", .scalar "1"), ("l", .list [.empty])], by decide⟩⟩
  have hfirst : parse "<#l><#m><</l>a" = [.block "l" "<#m><", .text "a"] := by cbv
  have hsecond : parse "b</l><k>" = [.text "b</l>", .tag "k"] := by cbv
  have hopen : ∀ content, .text content ∈ parse "<#l><#m><</l>a" → '<' ∉ content.toList := by
    rw [hfirst]
    simp
  obtain ⟨hparse, hrender⟩ := parse_append_of_safe "<#l><#m><</l>a" "b</l><k>" (.inl hopen)
  refine ⟨params, hopen, ?_, ?_⟩
  · rw [hparse, hfirst, hsecond]
    decide
  · have hbefore : render "<#l><#m><</l>a" params = .ok "<#m><a" := by cbv
    have hafter : render "b</l><k>" params = .ok "b</l>1" := by cbv
    rw [hrender, hbefore, hafter]
    decide

example : parse "<a" = [.text "<a"] ∧ parse ("<a" ++ ">") = [.tag "a"] := by
  constructor <;> cbv

end Template

end RowTemplate
