import RowTemplate.Grammar.Template
import RowTemplate.Proofs.Expressions
import RowTemplate.Proofs.Scan

/-! The grammar of templates against the scan. At each place the rules of the grammar match exactly
what the scan finds there, so the parts of a tree stand for the pieces of the text one after the
other, and stretches of the template join the text that the scan joins by appending. -/

namespace RowTemplate.Template

open Grammar

variable (size : Nat) {stack below : List (List Char)} {rest : List Char}

/-! ### Names, bodies and text -/

/-- A text that starts with a character of a kind. -/
def startsWith (p : Char → Bool) : List Char → Bool
  | [] => false
  | c :: _ => p c

theorem upTo_of_forall {p : Char → Bool} {text : List Char} (htext : ∀ c ∈ text, p c = false)
    (hrest : rest = [] ∨ startsWith p rest = true) : UpTo (startsWith p) text rest where
  not_inside back hback hne := by
    cases back with
    | nil => exact absurd rfl hne
    | cons c back => exact htext c (hback.subset List.mem_cons_self)
  stops := hrest

theorem not_of_mem_takeWhile {p : Char → Bool} {cs : List Char} {c : Char}
    (hc : c ∈ cs.takeWhile (!p ·)) : p c = false := by
  simpa using List.all_eq_true.1 List.all_takeWhile c hc

theorem upTo_takeWhile (p : Char → Bool) (cs : List Char) :
    UpTo (startsWith p) (cs.takeWhile (!p ·)) (cs.dropWhile (!p ·)) := by
  refine upTo_of_forall (fun c hc => not_of_mem_takeWhile hc) ?_
  cases hdrop : cs.dropWhile (!p ·) with
  | nil => exact Or.inl rfl
  | cons c rest =>
      have hc := List.head?_dropWhile_not (!p ·) cs
      rw [hdrop] at hc
      exact Or.inr (by simpa [startsWith] using hc)

theorem upTo_of_cut? {pattern text before after : List Char}
    (h : cut? pattern text = some (before, after)) :
    UpTo (pattern.isPrefixOf ·) before (pattern ++ after) := by
  have hstops : pattern.isPrefixOf (pattern ++ after) = true := by simp
  induction text generalizing before with
  | nil =>
      rw [cut?] at h
      split at h
      case isTrue =>
        cases h
        exact .nil (Or.inr hstops)
      case isFalse => cases h
  | cons c cs ih =>
      rw [cut?] at h
      split at h
      case isTrue =>
        cases h
        exact .nil (Or.inr hstops)
      case isFalse hprefix =>
        obtain ⟨⟨before', after'⟩, hcut, hpair⟩ := Option.map_eq_some_iff.1 h
        cases hpair
        apply (ih hcut).cons
        have htext := eq_of_cut? hcut
        rw [List.append_assoc] at htext
        rw [← htext]
        exact Bool.eq_false_of_not_eq_true hprefix

theorem upTo_of_cut?_eq_none {pattern text : List Char} (h : cut? pattern text = none) :
    UpTo (pattern.isPrefixOf ·) text [] where
  not_inside back hback _ := by
    rw [List.append_nil]
    apply Bool.eq_false_of_not_eq_true
    intro hprefix
    exact cut?_eq_none_iff.1 h
      ((List.isPrefixOf_iff_prefix.1 hprefix).isInfix.trans hback.isInfix)
  stops := Or.inl rfl

theorem guards_literal (c : Char) (stack : List (List Char)) :
    Guards grammar size (.literal [c]) stack (startsWith (· == c)) := by
  have hguards : Guards grammar size (.literal [c]) stack ([c].isPrefixOf ·) :=
    (Takes.literal [c] stack).guards
  have heq : ([c].isPrefixOf ·) = startsWith (· == c) := by
    funext input
    cases input with
    | nil => rfl
    | cons d input => simp [startsWith, List.isPrefixOf, Bool.beq_comm]
  rwa [heq] at hguards

theorem guards_reserved (stack : List (List Char)) :
    Guards grammar size (.rule .reserved) stack (startsWith isReserved) := by
  have hguards : Guards grammar size (.rule .reserved) stack _ :=
    .silent rfl (.alt (guards_literal size '<' stack) (.alt (guards_literal size '>' stack)
      (.alt (guards_literal size '#' stack) (guards_literal size '/' stack))))
  have heq : (fun input => startsWith (· == '<') input || (startsWith (· == '>') input ||
      (startsWith (· == '#') input || startsWith (· == '/') input))) = startsWith isReserved := by
    funext input
    cases input with
    | nil => rfl
    | cons c input => simp [startsWith, isReserved, Bool.or_assoc]
  rwa [heq] at hguards

/-- The closer of the list remembered last is one fixed text. -/
theorem takes_blockClose (list : List Char) (below : List (List Char)) :
    Takes grammar size (.rule .blockClose) (list :: below) (closer list) (list :: below) := by
  have hbody : Takes grammar size (grammar.body .blockClose) (list :: below)
      (['<', '/'] ++ (list ++ ['>'])) (list :: below) :=
    .seq (.literal ['<', '/'] _) (.seq (.peek list below) (.literal ['>'] _))
  exact .silent rfl hbody

theorem takes_blockEnd (list : List Char) (below : List (List Char)) :
    Takes grammar size (inOrder [.literal ['<', '/'], .pop, .literal ['>']]) (list :: below)
      (closer list) below := by
  have hend : Takes grammar size (inOrder [.literal ['<', '/'], .pop, .literal ['>']])
      (list :: below) (['<', '/'] ++ (list ++ ['>'])) below :=
    .seq (.literal ['<', '/'] _) (.seq (.pop list below) (.literal ['>'] _))
  exact hend

theorem comesTo_tagName {name : List Char} (hne : name ≠ [])
    (h : UpTo (startsWith isReserved) name rest) :
    ComesTo grammar size (.rule .tagName) (name ++ rest) stack
      (.done rest stack [.mk .tagName (size - (name ++ rest).length) name []]) :=
  .rule_atomic rfl ((guards_reserved size stack).many1_unless hne h)

theorem comesTo_listName {list : List Char} (h : UpTo (['>'].isPrefixOf ·) list rest) :
    ComesTo grammar size (.rule .listName) (list ++ rest) stack
      (.done rest stack [.mk .listName (size - (list ++ rest).length) list []]) :=
  .rule_atomic rfl ((Takes.literal ['>'] stack).guards.many_unless h)

theorem comesTo_blockBody {list body : List Char}
    (h : UpTo ((closer list).isPrefixOf ·) body rest) :
    ComesTo grammar size (.rule .blockBody) (body ++ rest) (list :: below)
      (.done rest (list :: below) [.mk .blockBody (size - (body ++ rest).length) body []]) :=
  .rule_atomic rfl ((takes_blockClose size list below).guards.many_unless h)

/-! ### The piece at a place -/

/-- A pair over the text of a node, from a position of the template on, that stands for the node. -/
structure StandsFor (pos : Nat) (node : Node) (pair : Pair Rule) : Prop where
  isPair : ∃ r parts, pair = .mk r pos node.source parts
  nodeOfPair?_eq : nodeOfPair? pair = some node

/-- An expression that matches at a place if there is a piece, takes the piece up and leaves one pair
that stands for it. -/
def Reads (size : Nat) (e : Expr Rule) (input : List Char) : Option (Node × List Char) → Prop
  | none => ComesTo grammar size e input [] .fails
  | some (node, rest) => ∃ pair, ComesTo grammar size e input [] (.done rest [] [pair]) ∧
      StandsFor (size - input.length) node pair

variable {size} in
theorem Reads.alt {first second : Expr Rule} {input : List Char}
    {piece piece' : Option (Node × List Char)} (h : Reads size first input piece)
    (h' : Reads size second input piece') :
    Reads size (.alt first second) input (piece <|> piece') := by
  cases piece with
  | none =>
      cases piece' with
      | none => exact .alt_second h h'
      | some _ =>
          obtain ⟨pair, hrun, hpair⟩ := h'
          exact ⟨pair, .alt_second h hrun, hpair⟩
  | some _ =>
      obtain ⟨pair, hrun, hpair⟩ := h
      exact ⟨pair, .alt_first hrun, hpair⟩

theorem reads_of_body {r : Rule} {input rest : List Char} {node : Node} {parts : List (Pair Rule)}
    (hmode : grammar.mode r = .normal)
    (hbody : ComesTo grammar size (grammar.body r) input [] (.done rest [] parts))
    (hinput : node.source ++ rest = input)
    (hnode : nodeOfPair? (.mk r (size - input.length) node.source parts) = some node) :
    Reads size (.rule r) input (some (node, rest)) := by
  subst hinput
  exact ⟨_, .rule_normal hmode hbody, ⟨r, parts, rfl⟩, hnode⟩

/-- What follows the opener of a block: its body and its end. -/
def bodyAndEnd : Expr Rule :=
  inOrder [.rule .blockBody, .literal ['<', '/'], .pop, .literal ['>']]

/-- After a whole opener a block goes on with the list's name remembered. -/
theorem comesTo_block {list inner : List Char} {outcome : Outcome Rule}
    (hlist : UpTo (['>'].isPrefixOf ·) list (['>'] ++ inner))
    (hinner : ComesTo grammar size bodyAndEnd inner [list] outcome) :
    ∃ start, ComesTo grammar size (grammar.body .block) (['<', '#'] ++ (list ++ (['>'] ++ inner))) []
      (outcome.prepend [.mk .listName start list []]) := by
  have hopen : ComesTo grammar size (.literal ['<', '#'])
      (['<', '#'] ++ (list ++ (['>'] ++ inner))) [] (.done (list ++ (['>'] ++ inner)) [] []) :=
    (Takes.literal ['<', '#'] []).done _
  have hmark : ComesTo grammar size (.literal ['>']) (['>'] ++ inner) [list] (.done inner [list] []) :=
    (Takes.literal ['>'] [list]).done inner
  have hrest := ComesTo.seq hopen (.seq (.push (comesTo_listName size hlist)) (.seq hmark hinner))
  rw [Outcome.prepend_nil, Outcome.prepend_nil] at hrest
  exact ⟨_, hrest⟩

theorem comesTo_bodyAndEnd {list body : List Char}
    (hbody : UpTo ((closer list).isPrefixOf ·) body (closer list ++ rest)) :
    ∃ start, ComesTo grammar size bodyAndEnd (body ++ (closer list ++ rest)) [list]
      (.done rest [] [.mk .blockBody start body []]) :=
  ⟨_, .seq (comesTo_blockBody size hbody) ((takes_blockEnd size list []).done rest)⟩

/-- A body without a closer runs to the end of the text, and there is no closer there. -/
theorem bodyAndEnd_fails {list inner : List Char} (hbody : cut? (closer list) inner = none) :
    ComesTo grammar size bodyAndEnd inner [list] .fails := by
  have hend : ComesTo grammar size (inOrder [.literal ['<', '/'], .pop, .literal ['>']]) [] [list]
      .fails := (takes_blockEnd size list []).fails (by simp [closer])
  have hrun := ComesTo.seq (comesTo_blockBody size (upTo_of_cut?_eq_none hbody)) hend
  rwa [List.append_nil] at hrun

/-- An opener without its `>` takes the rest of the text for the name. -/
theorem block_fails_of_open {tail : List Char} (hlist : cut? ['>'] tail = none) :
    ComesTo grammar size (grammar.body .block) (['<', '#'] ++ tail) [] .fails := by
  have hname : ComesTo grammar size (.rule .listName) (tail ++ []) []
      (.done [] [] [.mk .listName _ tail []]) := comesTo_listName size (upTo_of_cut?_eq_none hlist)
  have hmark : ComesTo grammar size (.seq (.literal ['>']) bodyAndEnd) [] [tail] .fails :=
    .seq_fails ((Takes.literal ['>'] [tail]).fails (by simp))
  have hrest := ComesTo.seq hname.push hmark
  rw [List.append_nil] at hrest
  exact .seq ((Takes.literal ['<', '#'] []).done tail) hrest

theorem reads_block (input : List Char) : Reads size (.rule .block) input (block? input) := by
  cases hblock : block? input with
  | some piece =>
      obtain ⟨node, rest⟩ := piece
      have hsource := source_of_block? hblock
      obtain ⟨tail, list, inner, body, rfl, hlist, hbody, rfl⟩ := block?_eq_some_iff.1 hblock
      obtain ⟨start, hinner⟩ := comesTo_bodyAndEnd size (upTo_of_cut? hbody)
      rw [← List.append_assoc, ← eq_of_cut? hbody] at hinner
      obtain ⟨start', hrun⟩ := comesTo_block size (upTo_of_cut? hlist) hinner
      rw [← List.append_assoc list, ← eq_of_cut? hlist] at hrun
      exact reads_of_body size rfl hrun hsource rfl
  | none =>
      apply ComesTo.rule_fails
      by_cases hopen : ['<', '#'] <+: input
      · obtain ⟨tail, rfl⟩ := hopen
        cases hlist : cut? ['>'] tail with
        | none => exact block_fails_of_open size hlist
        | some parts =>
            obtain ⟨list, inner⟩ := parts
            have hbody : cut? (closer list) inner = none := by
              apply Option.eq_none_iff_forall_not_mem.2
              intro (body, rest) hbody
              have hsome := block?_eq_some_iff.2 ⟨tail, list, inner, body, rfl, hlist, hbody, rfl⟩
              cases hblock.symm.trans hsome
            obtain ⟨start, hrun⟩ := comesTo_block size (upTo_of_cut? hlist)
              (bodyAndEnd_fails size hbody)
            rw [← List.append_assoc list, ← eq_of_cut? hlist] at hrun
            exact hrun
      · exact .seq_fails ((Takes.literal ['<', '#'] []).fails hopen)

/-- What follows the `<` of a tag. -/
def nameAndMark : Expr Rule := inOrder [.rule .tagName, .literal ['>']]

theorem nameAndMark_fails {cs : List Char} (htag : tag? ('<' :: cs) = none) :
    ComesTo grammar size nameAndMark cs [] .fails := by
  have hupTo := upTo_takeWhile isReserved cs
  have hcs : cs.takeWhile (!isReserved ·) ++ cs.dropWhile (!isReserved ·) = cs :=
    List.takeWhile_append_dropWhile
  by_cases hne : cs.takeWhile (!isReserved ·) = []
  · rw [hne, List.nil_append] at hcs
    rw [hcs] at hupTo
    exact .seq_fails (.rule_fails ((guards_reserved size []).many1_unless_fails hupTo.stops))
  · have hmark : ¬ ['>'] <+: cs.dropWhile (!isReserved ·) := by
      rintro ⟨rest, hrest⟩
      have hsource : '<' :: cs = tagMark (cs.takeWhile (!isReserved ·)) ++ rest := by
        rw [tagMark, List.append_assoc, hrest, List.cons_append, hcs]
      have hsome := tag?_eq_some_iff.2
        ⟨_, hne, fun c hc => not_of_mem_takeWhile hc, hsource, rfl⟩
      cases htag.symm.trans hsome
    have hname : ComesTo grammar size (.rule .tagName) (_ ++ _) [] _ := comesTo_tagName size hne hupTo
    rw [hcs] at hname
    exact .seq hname ((Takes.literal ['>'] []).fails hmark)

theorem reads_tag (input : List Char) : Reads size (.rule .tag) input (tag? input) := by
  cases htag : tag? input with
  | some piece =>
      obtain ⟨node, rest⟩ := piece
      have hsource := source_of_tag? htag
      obtain ⟨name, hne, hname, rfl, rfl⟩ := tag?_eq_some_iff.1 htag
      have hupTo : UpTo (startsWith isReserved) name (['>'] ++ rest) :=
        upTo_of_forall hname (Or.inr rfl)
      have hrun : ComesTo grammar size (grammar.body .tag) (['<'] ++ (name ++ (['>'] ++ rest))) []
          (.done rest [] [.mk .tagName _ name []]) :=
        .seq ((Takes.literal ['<'] []).done _) (.seq (comesTo_tagName size hne hupTo)
          ((Takes.literal ['>'] []).done rest))
      rw [← List.append_assoc name] at hrun
      exact reads_of_body size rfl hrun hsource rfl
  | none =>
      apply ComesTo.rule_fails
      by_cases hopen : ['<'] <+: input
      · obtain ⟨cs, rfl⟩ := hopen
        exact .seq ((Takes.literal ['<'] []).done cs) (nameAndMark_fails size htag)
      · exact .seq_fails ((Takes.literal ['<'] []).fails hopen)

theorem reads_text {text : List Char} (hbody : ComesTo grammar size (grammar.body .literal)
    (text ++ rest) [] (.done rest [] [])) :
    Reads size (.rule .literal) (text ++ rest) (some (.text (.ofList text), rest)) := by
  refine ⟨_, .rule_atomic rfl hbody, ⟨.literal, [], ?_⟩, rfl⟩
  rw [Node.source, String.toList_ofList]

theorem reads_literal (c : Char) (cs : List Char) :
    Reads size (.rule .literal) (c :: cs) (some (literal c cs)) := by
  by_cases hc : c = '<'
  · rw [hc]
    exact reads_text size (.alt_first ((Takes.literal ['<'] []).done cs))
  · have hupTo := (upTo_takeWhile (· == '<') cs).cons (by simpa [startsWith] using hc)
    have hfirst : ¬ ['<'] <+: c :: cs.takeWhile (· != '<') ++ cs.dropWhile (· != '<') := by
      simpa using fun h => hc h.symm
    have hrun := (guards_literal size '<' []).many1_unless (List.cons_ne_nil c _) hupTo
    have hread := reads_text size (.alt_second ((Takes.literal ['<'] []).fails hfirst) hrun)
    rw [List.cons_append, List.takeWhile_append_dropWhile] at hread
    rwa [literal, if_neg hc]

theorem literal_fails : ComesTo grammar size (.rule .literal) [] [] .fails := by
  apply ComesTo.rule_fails
  refine .alt_second ((Takes.literal ['<'] []).fails (by simp)) ?_
  exact (guards_literal size '<' []).many1_unless_fails (Or.inl rfl)

/-- A block, else a tag, else text. -/
def piece : Expr Rule := .alt (.rule .block) (.alt (.rule .tag) (.rule .literal))

/-- **The piece at a place.** The choice of the grammar is the piece that the scan finds. -/
theorem reads_next (c : Char) (cs : List Char) :
    Reads size piece (c :: cs) (some (next c cs)) := by
  have hread := (reads_block size (c :: cs)).alt ((reads_tag size (c :: cs)).alt
    (reads_literal size c cs))
  rw [next]
  cases hblock : block? (c :: cs) with
  | some found =>
      rw [hblock] at hread
      exact hread
  | none =>
      rw [hblock] at hread
      cases htag : tag? (c :: cs) with
      | some found =>
          rw [htag] at hread
          exact hread
      | none =>
          rw [htag] at hread
          exact hread

theorem piece_fails : ComesTo grammar size piece [] [] .fails :=
  .alt_second (reads_block size []) (.alt_second (reads_tag size []) (literal_fails size))

/-! ### All pieces -/

/-- Pairs that stand for nodes one after the other, from a position of the template on. -/
inductive Cover : Nat → List (Pair Rule) → List Node → Prop
  | nil {pos} : Cover pos [] []
  | cons {pos pair pairs node nodes} (hpair : StandsFor pos node pair)
      (hpairs : Cover (pos + node.source.length) pairs nodes) :
      Cover pos (pair :: pairs) (node :: nodes)

/-- **All pieces.** The repetition takes up the whole text, and leaves one pair for each piece of the
scan. -/
theorem exists_cover_scan {input : List Char} (hsize : input.length ≤ size) :
    ∃ pairs, ComesTo grammar size (.many piece) input [] (.done [] [] pairs) ∧
      Cover (size - input.length) pairs (scan input) := by
  induction input using scan.induct with
  | case1 =>
      rw [scan]
      exact ⟨[], .many_stop (piece_fails size), .nil⟩
  | case2 c cs _ ih =>
      have hlength := congrArg List.length (source_next c cs)
      rw [List.length_append] at hlength
      have hle : (next c cs).2.length ≤ size := by omega
      obtain ⟨pairs, hmany, hcover⟩ := ih hle
      obtain ⟨pair, hrun, hpair⟩ := reads_next size c cs
      have hpos : size - (next c cs).2.length =
          size - (c :: cs).length + (next c cs).1.source.length := by omega
      rw [hpos] at hcover
      rw [scan_cons]
      exact ⟨pair :: pairs, .many_step hrun hmany, .cons hpair hcover⟩

/-! ### Stretches of the template -/

variable {template : List Char}

theorem extract_append_extract {first middle last : Nat} (h : first ≤ middle) (h' : middle ≤ last) :
    template.extract first middle ++ template.extract middle last = template.extract first last := by
  have hdrop : template.drop middle = (template.drop first).drop (middle - first) := by
    rw [List.drop_drop]
    congr 1
    omega
  have hlast : last - first = (middle - first) + (last - middle) := by omega
  rw [List.extract_eq_take_drop, List.extract_eq_take_drop, List.extract_eq_take_drop, hdrop, hlast,
    List.take_add]

theorem extract_source {pos : Nat} {text after : List Char} (h : template.drop pos = text ++ after) :
    template.extract pos (pos + text.length) = text := by
  rw [List.extract_eq_take_drop, h, Nat.add_sub_cancel_left, List.take_left]

/-! ### The nodes of the tree -/

theorem exists_of_blockOf? {list body : List Char} {parts : List (Pair Rule)} {node : Node}
    (h : blockOf? list body parts = some node) : ∃ name content, node = .block name content := by
  fun_induction blockOf? list body parts with
  | case1 list body =>
      cases h
      exact ⟨_, _, rfl⟩
  | case2 _ _ _ _ _ _ ih => exact ih h
  | case3 _ _ _ _ _ _ ih => exact ih h
  | case4 => cases h

theorem cons_of_ne_text {node : Node} (h : ∀ content, node ≠ .text content) (nodes : List Node) :
    Node.cons node nodes = node :: nodes := by
  cases node with
  | text content => exact absurd rfl (h content)
  | tag | block => rfl

theorem collect?_of_ne_text {pos : Nat} {node : Node} {pair : Pair Rule}
    (h : StandsFor pos node pair) (hnode : ∀ content, node ≠ .text content)
    (textStart : Option Nat) (nodes : List Node) (pairs : List (Pair Rule)) :
    collect? template textStart nodes (pair :: pairs) =
      collect? template none (node :: nodes) pairs := by
  obtain ⟨⟨r, parts, rfl⟩, hstands⟩ := h
  rw [collect?, hstands]
  · rfl
  · rintro start text parts' ⟨⟩
    cases hstands
  · rintro start text parts' ⟨⟩
    exact hnode _ (Option.some.inj hstands).symm

theorem StandsFor.eq_literal {pos : Nat} {content : String} {pair : Pair Rule}
    (h : StandsFor pos (.text content) pair) :
    ∃ parts, pair = .mk .literal pos content.toList parts := by
  obtain ⟨⟨r, parts, rfl⟩, hstands⟩ := h
  cases r with
  | literal => exact ⟨parts, rfl⟩
  | block =>
      obtain ⟨list, body, hblock⟩ := exists_of_blockOf? hstands
      cases hblock
  | _ => cases hstands

/-- **Merging.** Pairs that cover the rest of a template give its nodes with adjacent text joined,
both after a node that is no text and after a text that reaches up to the first of them. -/
theorem collect?_cover {pos : Nat} {pairs : List (Pair Rule)} {nodes : List Node}
    (h : Cover pos pairs nodes) (hdrop : template.drop pos = Node.sources nodes)
    (start : Nat) (text : List Char) (parts : List (Pair Rule)) :
    (∀ before, collect? template none before (pairs ++ [.mk .finish start text parts]) =
      some (before.reverse ++ Node.joinText nodes)) ∧
    ∀ first before, first ≤ pos →
      collect? template (some first) (.text (.ofList (template.extract first pos)) :: before)
          (pairs ++ [.mk .finish start text parts]) =
        some (before.reverse ++
          Node.cons (.text (.ofList (template.extract first pos))) (Node.joinText nodes)) := by
  induction h with
  | nil =>
      refine ⟨fun before => ?_, fun first before _ => ?_⟩
      · show some before.reverse = _
        rw [Node.joinText, List.foldr_nil, List.append_nil]
      · exact congrArg some List.reverse_cons
  | @cons pos pair pairs node nodes hpair _ ih =>
      rw [Node.sources_cons] at hdrop
      have hnext : template.drop (pos + node.source.length) = Node.sources nodes := by
        rw [← List.drop_drop, hdrop, List.drop_left]
      obtain ⟨hnone, hsome⟩ := ih hnext
      have hjoin : Node.joinText (node :: nodes) = Node.cons node (Node.joinText nodes) := rfl
      rw [hjoin]
      by_cases htext : ∃ content, node = .text content
      · obtain ⟨content, rfl⟩ := htext
        obtain ⟨parts', rfl⟩ := hpair.eq_literal
        have hcontent : template.extract pos (pos + content.toList.length) = content.toList :=
          extract_source hdrop
        refine ⟨fun before => ?_, fun first before hfirst => ?_⟩
        · have hmore := hsome pos before (Nat.le_add_right ..)
          rw [Node.source, hcontent] at hmore
          rw [String.ofList_toList] at hmore
          show collect? template (some pos) (.text (.ofList content.toList) :: before) _ = _
          rw [String.ofList_toList]
          exact hmore
        · have hlonger : .ofList (template.extract first pos) ++ content =
              String.ofList (template.extract first (pos + content.toList.length)) := by
            rw [← extract_append_extract hfirst (Nat.le_add_right ..), hcontent,
              String.ofList_append, String.ofList_toList]
          rw [cons_text_cons_text, hlonger]
          exact hsome first before (by omega)
      · have hne : ∀ content, node ≠ .text content := fun content h => htext ⟨content, h⟩
        have hapart : ∀ t rest, node :: Node.joinText nodes ≠ .text t :: rest :=
          fun t rest h => hne t (List.cons.inj h).1
        refine ⟨fun before => ?_, fun first before _ => ?_⟩
        · rw [List.cons_append, collect?_of_ne_text hpair hne, hnone, cons_of_ne_text hne]
          simp
        · rw [List.cons_append, collect?_of_ne_text hpair hne, hnone, cons_of_ne_text hne,
            cons_text_of_ne hapart]
          simp

/-- **The grammar is the scan.** On every template the grammar comes to a match of the whole text,
and to nothing else. It never asks for a remembered text where there is none, and the nodes of the
tree are those of the scan. -/
theorem grammar_yields_parse (template : String) :
    ∃ pairs, grammar.Yields .template template.toList (.done [] [] pairs) ∧
      (∀ fuel outcome, grammar.run template.toList.length fuel (.rule .template) template.toList [] =
        some outcome → outcome = .done [] [] pairs) ∧
      (∀ inner place held, inner = .peek ∨ inner = .pop →
        Enters grammar template.toList.length inner place held (.rule .template) template.toList [] →
          held ≠ []) ∧
      nodesOfPairs? template.toList pairs = some (parse template) := by
  obtain ⟨pieces, hmany, hcover⟩ := exists_cover_scan template.toList.length (Nat.le_refl _)
  have hfinish : ComesTo grammar template.toList.length (.rule .finish) ([] ++ []) []
      (.done [] [] [.mk .finish template.toList.length [] []]) := .rule_normal rfl .finish
  have hbody : ComesTo grammar template.toList.length (grammar.body .template)
      (template.toList ++ []) []
      (.done [] [] (pieces ++ [.mk .finish template.toList.length [] []])) := by
    rw [List.append_nil]
    exact .seq (.start rfl) (.seq hmany hfinish)
  have hrun := ComesTo.rule_normal rfl hbody
  rw [List.append_nil] at hrun
  rw [Nat.sub_self] at hcover
  refine ⟨_, hrun.yields, fun fuel outcome h => ComesTo.unique ⟨fuel, h⟩ hrun,
    fun inner place held hinner henters => hrun.ne_nil_of_enters hinner henters, ?_⟩
  exact (collect?_cover hcover (sources_scan template.toList).symm _ [] []).1 []

example : (match grammar.run 7 40 (.rule .template) "a<#b>c<".toList [] with
  | some (.done [] [] pairs) => nodesOfPairs? "a<#b>c<".toList pairs
  | _ => none) = some [.text "a<#b>c<"] := by decide

end RowTemplate.Template
