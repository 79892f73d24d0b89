import RowTemplate.Proofs.Table
import RowTemplate.Render

/-! Equations for the text that nodes stand for, one for each kind of node, and the dependence of
the pieces on the values of the visible names: mapping the values maps the pieces. -/

namespace RowTemplate

universe u v w x

variable {α : Type u} {β : Type v}

/-- Induction on nodes that also goes into the bodies of blocks. -/
theorem Node.bodyInduction {motive : List Node → Prop} (nil : motive [])
    (text : ∀ content rest, motive rest → motive (.text content :: rest))
    (tag : ∀ name rest, motive rest → motive (.tag name :: rest))
    (block : ∀ list body rest, motive (Template.parse body) → motive rest →
      motive (.block list body :: rest)) (nodes : List Node) : motive nodes :=
  RenderM.nodes.induct motive nil text tag block nodes

theorem map_mapM {ι : Type u} {ε : Type v} {γ : Type w} {δ : Type x} (f : γ → δ)
    (g : ι → Except ε γ) (items : List ι) :
    (items.mapM g).map (List.map f) = items.mapM fun item => (g item).map f := by
  induction items with
  | nil => rfl
  | cons item rest ih =>
      rw [List.mapM_cons, List.mapM_cons, ← ih]
      cases g item with
      | error e => rfl
      | ok c => cases rest.mapM g <;> rfl

theorem mapM_congr_of_mem {ι : Type u} {ε : Type v} {γ : Type w} {f g : ι → Except ε γ}
    {items : List ι} (h : ∀ item ∈ items, f item = g item) : items.mapM f = items.mapM g := by
  induction items with
  | nil => rfl
  | cons item rest ih =>
      rw [List.mapM_cons, List.mapM_cons, h item List.mem_cons_self,
        ih fun later hlater => h later (List.mem_cons_of_mem _ hlater)]

namespace Piece

@[simp] theorem texts_nil (spell : α → String) : texts spell [] = "" := String.join_nil

@[simp] theorem texts_cons (spell : α → String) (piece : Piece α) (pieces : List (Piece α)) :
    texts spell (piece :: pieces) = piece.text spell ++ texts spell pieces :=
  String.join_cons

@[simp] theorem texts_append (spell : α → String) (before after : List (Piece α)) :
    texts spell (before ++ after) = texts spell before ++ texts spell after := by
  rw [texts, List.map_append, String.join_append, texts, texts]

theorem texts_flatten (spell : α → String) (copies : List (List (Piece α))) :
    texts spell copies.flatten = String.join (copies.map (texts spell)) := by
  induction copies with
  | nil => simp
  | cons copy rest ih =>
      rw [List.flatten_cons, texts_append, ih, List.map_cons, String.join_cons]

end Piece

/-- The text of one outcome and then that of another; the first failure counts. -/
def followedBy (first second : Except Error String) : Except Error String :=
  return (← first) ++ (← second)

@[simp] theorem empty_followedBy (a : Except Error String) : followedBy (.ok "") a = a := by
  cases a with
  | error e => rfl
  | ok text => exact congrArg Except.ok String.empty_append

@[simp] theorem followedBy_empty (a : Except Error String) : followedBy a (.ok "") = a := by
  cases a with
  | error e => rfl
  | ok text => exact congrArg Except.ok String.append_empty

theorem followedBy_assoc (a b c : Except Error String) :
    followedBy (followedBy a b) c = followedBy a (followedBy b c) := by
  cases a with
  | error e => rfl
  | ok s =>
      cases b with
      | error e => rfl
      | ok t =>
          cases c with
          | error e => rfl
          | ok u => exact congrArg Except.ok String.append_assoc

/-- The pieces of one copy of a body, with a row joined to the visible names. -/
def copy (lists : String → Option (List (Table α))) (names : Table α) (list body : String)
    (row : Table α) : Except Error (List (Piece α)) := do
  substitute lists (← names.join list row) (Template.parse body)

theorem substitute_block (lists : String → Option (List (Table α))) (names : Table α)
    (list body : String) (rest : List Node) :
    substitute lists names (.block list body :: rest) = do
      let rows ← rowsOfBlock lists list
      let copies ← rows.mapM (copy lists names list body)
      return copies.flatten ++ (← substitute lists names rest) := by
  rw [substitute]
  rfl

/-! ### The text of each kind of node -/

section Text

variable (lists : String → Option (List Row)) (names : Row)

/-- The text that nodes stand for, where the lists and the visible names are given. -/
def substituteText (nodes : List Node) : Except Error String :=
  (substitute lists names nodes).map (Piece.texts id)

theorem substituteText_nil : substituteText lists names [] = .ok "" := by
  rw [substituteText, substitute]
  rfl

theorem substituteText_text (content : String) (rest : List Node) :
    substituteText lists names (.text content :: rest) =
      followedBy (.ok content) (substituteText lists names rest) := by
  rw [substituteText, substitute, substituteText]
  cases substitute lists names rest with
  | error e => rfl
  | ok pieces => exact congrArg Except.ok (Piece.texts_cons ..)

theorem substituteText_tag (name : String) (rest : List Node) :
    substituteText lists names (.tag name :: rest) =
      followedBy (match names.get? name with
        | some value => .ok value
        | none => .error (.notSet name .scalar)) (substituteText lists names rest) := by
  rw [substituteText, substitute, substituteText]
  cases names.get? name with
  | none => rfl
  | some value =>
      cases substitute lists names rest with
      | error e => rfl
      | ok pieces => exact congrArg Except.ok (Piece.texts_cons ..)

/-- The text of one copy of a body, with a row joined to the visible names. -/
def copyText (list body : String) (row : Row) : Except Error String := do
  substituteText lists (← names.join list row) (Template.parse body)

theorem map_copy (list body : String) (row : Row) :
    (copy lists names list body row).map (Piece.texts id) = copyText lists names list body row := by
  rw [copy, copyText]
  cases names.join list row <;> rfl

theorem substituteText_block (list body : String) (rest : List Node) :
    substituteText lists names (.block list body :: rest) =
      followedBy (rowsOfBlock lists list >>= fun rows =>
        (rows.mapM (copyText lists names list body)).map String.join)
          (substituteText lists names rest) := by
  rw [substituteText, substitute_block, substituteText]
  cases rowsOfBlock lists list with
  | error e => rfl
  | ok rows =>
      have hcopies : rows.mapM (copyText lists names list body) =
          (rows.mapM (copy lists names list body)).map (List.map (Piece.texts id)) := by
        simp only [map_mapM, map_copy]
      change (rows.mapM (copy lists names list body) >>= _).map _ =
        followedBy ((rows.mapM (copyText lists names list body)).map _) _
      rw [hcopies]
      cases rows.mapM (copy lists names list body) with
      | error e => rfl
      | ok copies =>
          cases substitute lists names rest with
          | error e => rfl
          | ok pieces =>
              change Except.ok _ = Except.ok _
              rw [Piece.texts_append, Piece.texts_flatten]

/-- The text of nodes is that of the first one and then that of the others. -/
theorem substituteText_cons (node : Node) (rest : List Node) :
    substituteText lists names (node :: rest) =
      followedBy (substituteText lists names [node]) (substituteText lists names rest) := by
  cases node with
  | text content => simp only [substituteText_text, substituteText_nil, followedBy_empty]
  | tag name => simp only [substituteText_tag, substituteText_nil, followedBy_empty]
  | block list body => simp only [substituteText_block, substituteText_nil, followedBy_empty]

end Text

/-! ### Mapping the values -/

namespace Piece

/-- The piece with a function applied to its value. -/
def map (f : α → β) : Piece α → Piece β
  | literal text => literal text
  | value a => value (f a)

theorem texts_map (spell : β → String) (f : α → β) (pieces : List (Piece α)) :
    texts spell (pieces.map (map f)) = texts (spell ∘ f) pieces := by
  have htext : text spell ∘ map f = text (spell ∘ f) := by
    funext piece
    cases piece <;> rfl
  rw [texts, List.map_map, htext, texts]

end Piece

/-- The lists with a function applied to all values in their rows. -/
def mapLists (f : α → β) (lists : String → Option (List (Table α))) (list : String) :
    Option (List (Table β)) :=
  (lists list).map (List.map (Table.map f))

theorem rowsOfBlock_map (f : α → β) (lists : String → Option (List (Table α))) (list : String) :
    rowsOfBlock (mapLists f lists) list =
      (rowsOfBlock lists list).map (List.map (Table.map f)) := by
  unfold rowsOfBlock mapLists
  by_cases hempty : list.isEmpty = true
  · rw [if_pos hempty, if_pos hempty]
    rfl
  · rw [if_neg hempty, if_neg hempty]
    cases lists list <;> rfl

/-- Substitution does not look at values: mapping them before or after it is the same. -/
theorem substitute_map (f : α → β) (lists : String → Option (List (Table α))) (nodes : List Node) :
    ∀ names : Table α, substitute (mapLists f lists) (names.map f) nodes =
      (substitute lists names nodes).map (List.map (Piece.map f)) := by
  induction nodes using Node.bodyInduction with
  | nil =>
      intro names
      rw [substitute, substitute]
      rfl
  | text content rest ih =>
      intro names
      rw [substitute, substitute, ih]
      cases substitute lists names rest <;> rfl
  | tag name rest ih =>
      intro names
      rw [substitute, substitute, ih, Table.get?_map]
      cases names.get? name with
      | none => rfl
      | some a => cases substitute lists names rest <;> rfl
  | block list body rest ihbody ih =>
      intro names
      have hcopy : ∀ row : Table α, copy (mapLists f lists) (names.map f) list body (row.map f) =
          (copy lists names list body row).map (List.map (Piece.map f)) := by
        intro row
        rw [copy, copy, Table.join_map]
        cases names.join list row with
        | error e => rfl
        | ok joined => exact ihbody joined
      rw [substitute_block, substitute_block, ih, rowsOfBlock_map]
      cases rowsOfBlock lists list with
      | error e => rfl
      | ok rows =>
          have hcopies : (rows.map (Table.map f)).mapM
              (copy (mapLists f lists) (names.map f) list body) =
                (rows.mapM (copy lists names list body)).map (List.map (List.map (Piece.map f))) := by
            rw [List.mapM_map, map_mapM]
            exact congrArg rows.mapM (funext hcopy)
          change ((rows.map (Table.map f)).mapM _ >>= _) =
            (rows.mapM (copy lists names list body) >>= _).map _
          rw [hcopies]
          cases rows.mapM (copy lists names list body) with
          | error e => rfl
          | ok copies =>
              cases substitute lists names rest with
              | error e => rfl
              | ok pieces =>
                  change Except.ok _ = Except.ok _
                  rw [List.map_append, List.map_flatten]

/-! ### Where the pieces come from -/

theorem exists_of_bind_eq_ok {ε : Type v} {γ : Type w} {δ : Type w} {x : Except ε γ}
    {f : γ → Except ε δ} {d : δ} (h : x >>= f = .ok d) : ∃ c, x = .ok c ∧ f c = .ok d := by
  cases x with
  | error e => cases h
  | ok c => exact ⟨c, rfl, h⟩

/-- A traversal succeeds when each item does, and gives their results in order. -/
theorem mapM_eq_ok_iff {ι : Type u} {ε : Type v} {γ : Type w} {g : ι → Except ε γ} {items : List ι}
    {results : List γ} :
    items.mapM g = .ok results ↔
      List.Forall₂ (fun item result => g item = .ok result) items results := by
  induction items generalizing results with
  | nil =>
      rw [List.mapM_nil, List.forall₂_nil_left_iff]
      exact ⟨fun h => (Except.ok.inj h).symm, fun h => congrArg Except.ok h.symm⟩
  | cons item rest ih =>
      rw [List.mapM_cons, List.forall₂_cons_left_iff]
      constructor
      · intro h
        obtain ⟨first, hfirst, h⟩ := exists_of_bind_eq_ok h
        obtain ⟨others, hothers, h⟩ := exists_of_bind_eq_ok h
        exact ⟨first, others, hfirst, ih.1 hothers, (Except.ok.inj h).symm⟩
      · rintro ⟨first, others, hfirst, hothers, rfl⟩
        rw [hfirst, ih.2 hothers]
        rfl

theorem mem_of_mapM {ι : Type u} {ε : Type v} {γ : Type w} {g : ι → Except ε γ} {items : List ι}
    {results : List γ}
    (h : items.mapM g = .ok results) {result : γ} (hmem : result ∈ results) :
    ∃ item ∈ items, g item = .ok result := by
  have hresults := mapM_eq_ok_iff.1 h
  clear h
  induction hresults with
  | nil => exact absurd hmem List.not_mem_nil
  | @cons item first rest others hfirst _ ih =>
      rcases List.mem_cons.1 hmem with rfl | hmem
      · exact ⟨item, List.mem_cons_self, hfirst⟩
      · obtain ⟨item', hmem', hitem'⟩ := ih hmem
        exact ⟨item', List.mem_cons_of_mem _ hmem', hitem'⟩

theorem exists_mapM_eq_ok_iff {ι : Type u} {ε : Type v} {γ : Type w} {g : ι → Except ε γ}
    {items : List ι} :
    (∃ results, items.mapM g = .ok results) ↔ ∀ item ∈ items, ∃ result, g item = .ok result := by
  simp only [mapM_eq_ok_iff]
  induction items with
  | nil => exact ⟨fun _ => nofun, fun _ => ⟨[], .nil⟩⟩
  | cons item rest ih =>
      rw [List.forall_mem_cons, ← ih]
      constructor
      · rintro ⟨results, hresults⟩
        cases hresults with
        | cons hfirst hrest => exact ⟨⟨_, hfirst⟩, _, hrest⟩
      · rintro ⟨⟨first, hfirst⟩, others, hrest⟩
        exact ⟨first :: others, .cons hfirst hrest⟩

/-- A traversal fails with the failure of the first item that fails. -/
theorem exists_of_mapM_eq_error {ι : Type u} {ε : Type v} {γ : Type w} {g : ι → Except ε γ}
    {items : List ι} {e : ε} (h : items.mapM g = .error e) :
    ∃ before item after, items = before ++ item :: after ∧
      (∀ earlier ∈ before, ∃ result, g earlier = .ok result) ∧ g item = .error e := by
  induction items with
  | nil => cases h
  | cons first rest ih =>
      rw [List.mapM_cons] at h
      cases hfirst : g first with
      | error e' =>
          rw [hfirst] at h
          cases h
          exact ⟨[], first, rest, rfl, nofun, hfirst⟩
      | ok result =>
          have hrest : rest.mapM g = .error e := by
            rw [hfirst] at h
            cases hresults : rest.mapM g with
            | ok results => rw [hresults] at h; cases h
            | error e' => rw [hresults] at h; cases h; rfl
          obtain ⟨before, item, after, rfl, hbefore, hitem⟩ := ih hrest
          refine ⟨first :: before, item, after, rfl, ?_, hitem⟩
          exact List.forall_mem_cons.2 ⟨⟨result, hfirst⟩, hbefore⟩

/-- A piece is a stretch of a source, or one of some values. -/
def Piece.From (source : List Char) (P : α → Prop) : Piece α → Prop
  | literal text => text.toList <:+: source
  | value a => P a

theorem Piece.From.mono {source source' : List Char} {P : α → Prop} {piece : Piece α}
    (h : piece.From source P) (hsource : source <:+: source') : piece.From source' P := by
  cases piece with
  | literal text => exact List.IsInfix.trans h hsource
  | value a => exact h

/-- All values of a table satisfy a predicate. -/
def Table.All (P : α → Prop) (t : Table α) : Prop := ∀ key a, t.get? key = some a → P a

theorem Table.All.join {P : α → Prop} {names row joined : Table α} {list : String}
    (hnames : names.All P) (hrow : row.All P) (h : names.join list row = .ok joined) :
    joined.All P := by
  intro key a hget
  rw [get?_of_join h, Option.or_eq_some_iff] at hget
  rcases hget with hget | ⟨_, hget⟩
  · exact hrow key a hget
  · exact hnames key a hget

theorem rowsOfBlock_eq_ok_iff {lists : String → Option (List (Table α))} {list : String}
    {rows : List (Table α)} :
    rowsOfBlock lists list = .ok rows ↔ list ≠ "" ∧ lists list = some rows := by
  unfold rowsOfBlock
  by_cases hempty : list = ""
  · simp [hempty]
  · have hne : ¬ list.isEmpty = true := by simpa using hempty
    rw [if_neg hne]
    cases lists list <;> simp [hempty]

theorem pieces_of_substitute {P : α → Prop} {lists : String → Option (List (Table α))}
    (hlists : ∀ list rows, lists list = some rows → ∀ row ∈ rows, row.All P) (nodes : List Node) :
    ∀ {names : Table α} {pieces : List (Piece α)}, names.All P →
      substitute lists names nodes = .ok pieces →
        ∀ piece ∈ pieces, piece.From (Node.sources nodes) P := by
  induction nodes using Node.bodyInduction with
  | nil =>
      intro names pieces _ h
      rw [substitute] at h
      cases h
      exact fun piece hmem => absurd hmem List.not_mem_nil
  | text content rest ih =>
      intro names pieces hnames h piece hmem
      rw [substitute] at h
      obtain ⟨others, hrest, hpieces⟩ := exists_of_bind_eq_ok h
      cases hpieces
      rcases List.mem_cons.1 hmem with rfl | hmem
      · exact (List.prefix_append content.toList _).isInfix
      · exact (ih hnames hrest piece hmem).mono (List.suffix_append _ _).isInfix
  | tag name rest ih =>
      intro names pieces hnames h piece hmem
      rw [substitute] at h
      cases hname : names.get? name with
      | none => rw [hname] at h; cases h
      | some a =>
          rw [hname] at h
          obtain ⟨others, hrest, hpieces⟩ := exists_of_bind_eq_ok h
          cases hpieces
          rcases List.mem_cons.1 hmem with rfl | hmem
          · exact hnames name a hname
          · exact (ih hnames hrest piece hmem).mono (List.suffix_append _ _).isInfix
  | block list body rest ihbody ih =>
      intro names pieces hnames h piece hmem
      rw [substitute_block] at h
      obtain ⟨rows, hrows, h⟩ := exists_of_bind_eq_ok h
      obtain ⟨copies, hcopies, h⟩ := exists_of_bind_eq_ok h
      obtain ⟨others, hrest, hpieces⟩ := exists_of_bind_eq_ok h
      cases hpieces
      rcases List.mem_append.1 hmem with hmem | hmem
      · obtain ⟨copied, hcopied, hmem⟩ := List.mem_flatten.1 hmem
        obtain ⟨row, hrow, hcopy⟩ := mem_of_mapM hcopies hcopied
        obtain ⟨joined, hjoin, hbody⟩ := exists_of_bind_eq_ok hcopy
        have hjoined := hnames.join (hlists list rows (rowsOfBlock_eq_ok_iff.1 hrows).2 row hrow) hjoin
        refine (ihbody hjoined hbody piece hmem).mono ?_
        rw [Template.sources_parse, Node.sources_cons, Node.source]
        exact ⟨opener list.toList, closer list.toList ++ Node.sources rest, by simp⟩
      · exact (ih hnames hrest piece hmem).mono (List.suffix_append _ _).isInfix

end RowTemplate
