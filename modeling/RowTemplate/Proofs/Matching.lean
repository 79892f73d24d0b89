import RowTemplate.Proofs.Substitution

/-! Two substitutions side by side. Their outcomes match if they are related, apart from failures
that the first alone may have and failures that the second alone may have. Steps that match, one
after the other, match; so a match at each tag, at each block and at each row that is joined is a
match of the texts of all nodes, however deep the blocks are nested. -/

namespace RowTemplate

variable {α β γ δ : Type}

/-- Two outcomes are related values or the same failure, or one of them is a failure that need not
be one of the other: `lost` are such failures of the first, `gained` those of the second. -/
inductive Matches (lost gained : Error → Prop) (R : α → β → Prop) :
    Except Error α → Except Error β → Prop
  | ok {a : α} {b : β} (h : R a b) : Matches lost gained R (.ok a) (.ok b)
  | same (e : Error) : Matches lost gained R (.error e) (.error e)
  | lost {e : Error} {second : Except Error β} (h : lost e) :
      Matches lost gained R (.error e) second
  | gained {e : Error} {first : Except Error α} (h : gained e) :
      Matches lost gained R first (.error e)

namespace Matches

variable {lost gained : Error → Prop} {R : α → β → Prop} {S : γ → δ → Prop}
  {first : Except Error α} {second : Except Error β}

theorem of_eq {outcome outcome' : Except Error α} (h : outcome = outcome') :
    Matches lost gained Eq outcome outcome' := by
  subst h
  cases outcome with
  | ok a => exact .ok rfl
  | error e => exact .same e

/-- What outcomes that match up to equality can be. -/
theorem eq_or {outcome outcome' : Except Error α} (h : Matches lost gained Eq outcome outcome') :
    outcome' = outcome ∨ (∃ e, lost e ∧ outcome = .error e) ∨
      ∃ e, gained e ∧ outcome' = .error e := by
  cases h with
  | ok heq => exact Or.inl (congrArg Except.ok heq.symm)
  | same e => exact Or.inl rfl
  | lost he => exact Or.inr (Or.inl ⟨_, he, rfl⟩)
  | gained he => exact Or.inr (Or.inr ⟨_, he, rfl⟩)

/-- Where neither may fail alone, outcomes that match up to equality are equal. -/
theorem eq {outcome outcome' : Except Error α}
    (h : Matches (fun _ => False) (fun _ => False) Eq outcome outcome') : outcome = outcome' := by
  rcases h.eq_or with heq | ⟨e, hfalse, _⟩ | ⟨e, hfalse, _⟩
  · exact heq.symm
  · exact hfalse.elim
  · exact hfalse.elim

/-- Where only the first may fail, the second succeeds with it. -/
theorem exists_ok {a : α} (h : Matches lost (fun _ => False) R (.ok a) second) :
    ∃ b, second = .ok b ∧ R a b := by
  cases h with
  | ok hab => exact ⟨_, rfl, hab⟩
  | gained hfalse => exact hfalse.elim

theorem of_ok (h : ∀ a, first = .ok a → ∃ b, second = .ok b ∧ R a b) :
    Matches (fun _ => True) gained R first second := by
  cases first with
  | error e => exact .lost trivial
  | ok a =>
      obtain ⟨b, rfl, hab⟩ := h a rfl
      exact .ok hab

theorem bind {f : α → Except Error γ} {g : β → Except Error δ}
    (h : Matches lost gained R first second)
    (hnext : ∀ a b, first = .ok a → R a b → Matches lost gained S (f a) (g b)) :
    Matches lost gained S (first >>= f) (second >>= g) := by
  cases h with
  | ok hab => exact hnext _ _ rfl hab
  | same e => exact .same e
  | lost he => exact .lost he
  | gained he => exact .gained he

theorem map {f : α → γ} {g : β → δ} (h : Matches lost gained R first second)
    (hfg : ∀ a b, R a b → S (f a) (g b)) :
    Matches lost gained S (first.map f) (second.map g) := by
  cases h with
  | ok hab => exact .ok (hfg _ _ hab)
  | same e => exact .same e
  | lost he => exact .lost he
  | gained he => exact .gained he

theorem mapM {ι : Type} {f : ι → Except Error α} {g : ι → Except Error β} {items : List ι}
    (h : ∀ item ∈ items, Matches lost gained R (f item) (g item)) :
    Matches lost gained (List.Forall₂ R) (items.mapM f) (items.mapM g) := by
  induction items with
  | nil => exact .ok .nil
  | cons item rest ih =>
      rw [List.mapM_cons, List.mapM_cons]
      refine (h item List.mem_cons_self).bind fun a b _ hab => ?_
      have hrest := ih fun later hmem => h later (List.mem_cons_of_mem _ hmem)
      refine hrest.bind fun as bs _ hlists => ?_
      exact .ok (.cons hab hlists)

theorem seq {R : String → String → Prop} {a b c d : Except Error String}
    (happend : ∀ s t u v, R s t → R u v → R (s ++ u) (t ++ v))
    (hfirst : Matches lost gained R a b) (hsecond : Matches lost gained R c d) :
    Matches lost gained R (followedBy a c) (followedBy b d) := by
  refine hfirst.bind fun s t _ hst => hsecond.bind fun u v _ huv => ?_
  exact .ok (happend s t u v hst huv)

end Matches

/-- The value of a tag. -/
def tagText (names : Row) (name : String) : Except Error String :=
  match names.get? name with
  | some value => .ok value
  | none => .error (.notSet name .scalar)

/-- The text of a block: that of its body for each row of its list. -/
def blockText (lists : String → Option (List Row)) (names : Row) (list body : String) :
    Except Error String :=
  rowsOfBlock lists list >>= fun rows => (rows.mapM (copyText lists names list body)).map String.join

theorem blockText_eq_ok_iff {lists : String → Option (List Row)} {names : Row}
    {list body text : String} : blockText lists names list body = .ok text ↔
      ∃ rows texts, rowsOfBlock lists list = .ok rows ∧
        List.Forall₂ (fun row copied => copyText lists names list body row = .ok copied) rows texts ∧
        text = String.join texts := by
  constructor
  · intro h
    obtain ⟨rows, hrows, h⟩ := exists_of_bind_eq_ok h
    cases hcopies : rows.mapM (copyText lists names list body) with
    | error e =>
        rw [hcopies] at h
        cases h
    | ok texts =>
        rw [hcopies] at h
        exact ⟨rows, texts, hrows, mapM_eq_ok_iff.1 hcopies, (Except.ok.inj h).symm⟩
  · rintro ⟨rows, texts, hrows, hcopies, rfl⟩
    rw [← mapM_eq_ok_iff] at hcopies
    change (rowsOfBlock lists list >>= fun rows => _) = _
    rw [hrows]
    exact congrArg (Except.map String.join) hcopies

section Substitution

variable {lost gained : Error → Prop} {lists lists' : String → Option (List Row)}
  {R : String → String → Prop} {S : Row → Row → Prop} {P : Node → Prop}

/-- Substitutions match where their tags and their blocks do. The nodes are among those that `P`
holds of, at any depth; `S` relates the visible names of the one to those of the other, and `R` the
texts. -/
theorem matches_of_blocks (hrefl : ∀ text, R text text)
    (happend : ∀ s t u v, R s t → R u v → R (s ++ u) (t ++ v))
    (hbody : ∀ list body, P (.block list body) → ∀ node ∈ Template.parse body, P node)
    (htag : ∀ names names', S names names' → ∀ name, P (.tag name) →
      Matches lost gained R (tagText names name) (tagText names' name))
    (hblock : ∀ names names', S names names' → ∀ list body, P (.block list body) →
      (∀ joined joined', S joined joined' → Matches lost gained R
        (substituteText lists joined (Template.parse body))
        (substituteText lists' joined' (Template.parse body))) →
      Matches lost gained R (blockText lists names list body) (blockText lists' names' list body))
    (nodes : List Node) : (∀ node ∈ nodes, P node) → ∀ names names', S names names' →
      Matches lost gained R (substituteText lists names nodes)
        (substituteText lists' names' nodes) := by
  induction nodes using Node.bodyInduction with
  | nil =>
      intro _ names names' _
      rw [substituteText_nil, substituteText_nil]
      exact .ok (hrefl "")
  | text content rest ih =>
      intro hnodes names names' h
      rw [substituteText_text, substituteText_text]
      have hrest := ih (fun node hmem => hnodes node (List.mem_cons_of_mem _ hmem)) names names' h
      exact (Matches.ok (hrefl content)).seq happend hrest
  | tag name rest ih =>
      intro hnodes names names' h
      rw [substituteText_tag, substituteText_tag]
      have hrest := ih (fun node hmem => hnodes node (List.mem_cons_of_mem _ hmem)) names names' h
      exact (htag names names' h name (hnodes _ List.mem_cons_self)).seq happend hrest
  | block list body rest ihbody ih =>
      intro hnodes names names' h
      rw [substituteText_block, substituteText_block]
      have hrest := ih (fun node hmem => hnodes node (List.mem_cons_of_mem _ hmem)) names names' h
      have hfirst : P (.block list body) := hnodes _ List.mem_cons_self
      have hcopies := hblock names names' h list body hfirst (ihbody (hbody list body hfirst))
      exact hcopies.seq happend hrest

/-- Where both substitutions go through the same rows, blocks match if joining these rows does. -/
theorem matches_of_nodes
    (hbody : ∀ list body, P (.block list body) → ∀ node ∈ Template.parse body, P node)
    (htag : ∀ names names', S names names' → ∀ name, P (.tag name) →
      Matches lost gained Eq (tagText names name) (tagText names' name))
    (hblock : ∀ list body, P (.block list body) →
      Matches lost gained Eq (rowsOfBlock lists list) (rowsOfBlock lists' list))
    (hjoin : ∀ names names', S names names' → ∀ list body rows, P (.block list body) →
      lists list = some rows → ∀ row ∈ rows,
        Matches lost gained S (names.join list row) (names'.join list row))
    (nodes : List Node) : (∀ node ∈ nodes, P node) → ∀ names names', S names names' →
      Matches lost gained Eq (substituteText lists names nodes)
        (substituteText lists' names' nodes) := by
  refine matches_of_blocks (fun _ => rfl) (fun s t u v hst huv => by rw [hst, huv]) hbody htag ?_ nodes
  intro names names' h list body hnode hcopy
  refine (hblock list body hnode).bind fun rows rows' hrows heq => ?_
  subst heq
  have hcopies : ∀ row ∈ rows, Matches lost gained Eq (copyText lists names list body row)
      (copyText lists' names' list body row) := by
    intro row hrow
    have hlist := (rowsOfBlock_eq_ok_iff.1 hrows).2
    refine (hjoin names names' h list body rows hnode hlist row hrow).bind ?_
    exact fun joined joined' _ hjoined => hcopy joined joined' hjoined
  refine (Matches.mapM hcopies).map fun texts texts' htexts => ?_
  rw [List.forall₂_eq_eq_eq] at htexts
  rw [htexts]

/-- The same for any nodes. -/
theorem matches_substituteText
    (htag : ∀ names names', S names names' → ∀ name,
      Matches lost gained Eq (tagText names name) (tagText names' name))
    (hblock : ∀ list, Matches lost gained Eq (rowsOfBlock lists list) (rowsOfBlock lists' list))
    (hjoin : ∀ names names', S names names' → ∀ list rows, lists list = some rows → ∀ row ∈ rows,
      Matches lost gained S (names.join list row) (names'.join list row))
    (nodes : List Node) : ∀ names names', S names names' →
      Matches lost gained Eq (substituteText lists names nodes)
        (substituteText lists' names' nodes) :=
  matches_of_nodes (P := fun _ => True) (fun _ _ _ _ _ => trivial)
    (fun names names' h name _ => htag names names' h name) (fun list _ _ => hblock list)
    (fun names names' h list _ rows _ hrows row hrow => hjoin names names' h list rows hrows row hrow)
    nodes (fun _ _ => trivial)

end Substitution

end RowTemplate
