import RowTemplate.Substitution
import Mathlib

/-! Look-ups in tables that are put together from others: a table of pairs, the union of two tables,
and a table whose values are mapped. Each is determined by its look-ups, and joining a row commutes
with mapping the values because a collision is about keys alone. -/

namespace RowTemplate

universe u v

variable {α : Type u} {β : Type v}

theorem lookup_eq_some_iff_mem {entries : List (String × α)}
    (hnodup : (entries.map Prod.fst).Nodup) (key : String) (value : α) :
    entries.lookup key = some value ↔ (key, value) ∈ entries := by
  induction entries with
  | nil => simp
  | cons head rest ih =>
      obtain ⟨k, v⟩ := head
      rw [List.map_cons, List.nodup_cons] at hnodup
      rw [lookup_cons_eq_ite, List.mem_cons, Prod.mk.injEq]
      by_cases hkey : key = k
      · subst hkey
        have hrest : (key, value) ∉ rest := fun h => hnodup.1 (List.mem_map.2 ⟨_, h, rfl⟩)
        simp [hrest, eq_comm]
      · simp [hkey, ih hnodup.2]

theorem lookup_isSome_iff {entries : List (String × α)} {key : String} :
    (entries.lookup key).isSome = true ↔ key ∈ entries.map Prod.fst := by
  rw [List.lookup_isSome_iff, List.mem_map]
  exact exists_congr fun entry => and_congr_right fun _ => beq_iff_eq.trans eq_comm

namespace Table

theorem nodup_keys (t : Table α) : t.keys.Nodup :=
  List.pairwise_map.2 <| t.sorted.imp fun {a b} h (heq : a.1 = b.1) =>
    String.lt_irrefl b.1 (heq ▸ h)

/-- Entries that are kept or dropped, and keep their keys, have distinct keys. -/
theorem nodup_filterMap (t : Table α) {f : String × α → Option (String × β)}
    (hkey : ∀ entry kept, f entry = some kept → kept.1 = entry.1) :
    ((t.entries.filterMap f).map Prod.fst).Nodup := by
  refine List.pairwise_map.2 (List.pairwise_filterMap.2 ?_)
  refine (List.pairwise_map.1 t.nodup_keys).imp fun {a b} hne a' ha b' hb heq => hne ?_
  rw [← hkey a a' ha, ← hkey b b' hb, heq]

theorem mem_keys_iff {t : Table α} {key : String} : key ∈ t.keys ↔ t.contains key = true := by
  rw [contains_iff, keys, List.mem_map]
  constructor
  · rintro ⟨⟨_, value⟩, hmem, rfl⟩
    exact ⟨value, (t.mem_entries_iff _ _).1 hmem⟩
  · rintro ⟨value, hget⟩
    exact ⟨(key, value), (t.mem_entries_iff _ _).2 hget, rfl⟩

/-- A table has as many entries as its keys are distinct names. -/
theorem size_eq_length_dedup {t : Table α} {names : List String}
    (h : ∀ key, t.contains key = true ↔ key ∈ names) : t.size = names.dedup.length := by
  have hkeys : t.keys.toFinset = names.toFinset := by
    ext key
    rw [List.mem_toFinset, List.mem_toFinset, mem_keys_iff, h]
  calc t.size
      = t.keys.length := (List.length_map ..).symm
    _ = t.keys.toFinset.card := (List.toFinset_card_of_nodup t.nodup_keys).symm
    _ = names.toFinset.card := by rw [hkeys]
    _ = names.dedup.length := List.card_toFinset _

/-- The first key with a property is the least one. -/
theorem find?_keys_eq_some_iff {t : Table α} {p : String → Bool} {key : String} :
    t.keys.find? p = some key ↔
      key ∈ t.keys ∧ p key = true ∧ ∀ k ∈ t.keys, p k = true → key ≤ k := by
  have hsorted : t.keys.Pairwise (· < ·) := List.pairwise_map.2 t.sorted
  rw [List.find?_eq_some_iff_append]
  constructor
  · rintro ⟨hkey, before, after, hkeys, hbefore⟩
    rw [hkeys] at hsorted ⊢
    refine ⟨by simp, hkey, fun k hmem hk => ?_⟩
    have hafter := (List.pairwise_cons.1 (List.pairwise_append.1 hsorted).2.1).1
    rcases List.mem_append.1 hmem with hmem | hmem
    · exact absurd hk (by simpa using hbefore k hmem)
    · rcases List.mem_cons.1 hmem with rfl | hmem
      · exact String.le_refl k
      · exact Std.le_of_lt (hafter k hmem)
  · rintro ⟨hmem, hkey, hleast⟩
    obtain ⟨before, after, hkeys⟩ := List.append_of_mem hmem
    refine ⟨hkey, before, after, hkeys, fun k hk => ?_⟩
    rw [hkeys] at hsorted hleast
    have hlt : k < key := (List.pairwise_append.1 hsorted).2.2 k hk key List.mem_cons_self
    have hnot : ¬ p k = true := fun hpk =>
      Std.not_le.2 hlt (hleast k (List.mem_append_left _ hk) hpk)
    simpa using hnot

/-- After inserting pairs in order, the last value given to a key counts. -/
theorem get?_foldl_insert (pairs : List (String × α)) (t : Table α) (key : String) :
    (pairs.foldl (fun t pair => t.insert pair.1 pair.2) t).get? key =
      (pairs.reverse.lookup key).or (t.get? key) := by
  induction pairs generalizing t with
  | nil => rfl
  | cons pair rest ih =>
      rw [List.foldl_cons, ih, get?_insert, List.reverse_cons, List.lookup_append, Option.or_assoc,
        lookup_cons_eq_ite]
      split <;> rfl

theorem get?_ofList (pairs : List (String × α)) (key : String) :
    (ofList pairs).get? key = pairs.reverse.lookup key := by
  rw [ofList, get?_foldl_insert, get?_empty, Option.or_none]

theorem get?_ofList_eq_some_iff {pairs : List (String × α)}
    (hnodup : (pairs.map Prod.fst).Nodup) (key : String) (value : α) :
    (ofList pairs).get? key = some value ↔ (key, value) ∈ pairs := by
  have hreverse : (pairs.reverse.map Prod.fst).Nodup := by
    rwa [List.map_reverse, List.nodup_reverse]
  rw [get?_ofList, lookup_eq_some_iff_mem hreverse, List.mem_reverse]

theorem get?_union (t u : Table α) (key : String) :
    (t.union u).get? key = (u.get? key).or (t.get? key) := by
  have hlookup : u.entries.reverse.lookup key = u.get? key := by
    apply Option.ext
    intro value
    have hreverse : (u.entries.reverse.map Prod.fst).Nodup := by
      rw [List.map_reverse, List.nodup_reverse]
      exact u.nodup_keys
    rw [lookup_eq_some_iff_mem hreverse, List.mem_reverse, mem_entries_iff]
  rw [union, get?_foldl_insert, hlookup]

/-- A row with visible keys is refused for the least of them. -/
theorem collision_eq_error_iff {γ : Type v} {row : Table α} {p : String → Bool} {list : String}
    {entered : γ} {e : Error} :
    (match row.keys.find? p with
      | some key => .error (.collision key list)
      | none => .ok entered : Except Error γ) = .error e ↔
      ∃ key, e = .collision key list ∧ key ∈ row.keys ∧ p key = true ∧
        ∀ k ∈ row.keys, p k = true → key ≤ k := by
  cases hfind : row.keys.find? p with
  | some key =>
      have hkey := find?_keys_eq_some_iff.1 hfind
      constructor
      · intro h
        cases h
        exact ⟨key, rfl, hkey⟩
      · rintro ⟨key', rfl, hkey'⟩
        rw [find?_keys_eq_some_iff.2 hkey'] at hfind
        cases hfind
        rfl
  | none =>
      constructor
      · exact fun h => absurd h nofun
      · rintro ⟨key, _, hkey⟩
        rw [find?_keys_eq_some_iff.2 hkey] at hfind
        cases hfind

/-- Joining a row fails for its least key that is visible. -/
theorem join_eq_error_iff {names row : Table α} {list : String} {e : Error} :
    names.join list row = .error e ↔ ∃ key, e = .collision key list ∧ key ∈ row.keys ∧
      names.contains key = true ∧ ∀ k ∈ row.keys, names.contains k = true → key ≤ k :=
  collision_eq_error_iff

theorem join_eq_ok_iff {names row joined : Table α} {list : String} :
    names.join list row = .ok joined ↔
      (∀ key ∈ row.keys, names.contains key = false) ∧ joined = names.union row := by
  unfold join
  cases hfind : row.keys.find? names.contains with
  | some key =>
      have hvisible := List.find?_some hfind
      have hmem := List.mem_of_find?_eq_some hfind
      constructor
      · exact fun h => absurd h nofun
      · rintro ⟨hfree, _⟩
        rw [hfree key hmem] at hvisible
        cases hvisible
  | none =>
      have hfree : ∀ key ∈ row.keys, names.contains key = false := by
        simpa using List.find?_eq_none.1 hfind
      exact ⟨fun h => ⟨hfree, (Except.ok.inj h).symm⟩, fun h => congrArg Except.ok h.2.symm⟩

theorem get?_of_join {scope row joined : Table α} {list : String}
    (h : scope.join list row = .ok joined) (key : String) :
    joined.get? key = (row.get? key).or (scope.get? key) := by
  unfold join at h
  split at h
  case h_1 => exact absurd h nofun
  case h_2 =>
    cases h
    exact get?_union scope row key

/-- The table with a function applied to its values. -/
def map (f : α → β) (t : Table α) : Table β where
  entries := t.entries.map fun entry => (entry.1, f entry.2)
  sorted := List.pairwise_map.2 t.sorted

@[simp] theorem keys_map (f : α → β) (t : Table α) : (t.map f).keys = t.keys := by
  simp [keys, map]

@[simp] theorem get?_map (f : α → β) (t : Table α) (key : String) :
    (t.map f).get? key = (t.get? key).map f := by
  apply Option.ext
  intro value
  rw [← mem_entries_iff, Option.map_eq_some_iff]
  simp only [map, List.mem_map, Prod.mk.injEq, Prod.exists]
  constructor
  · rintro ⟨k, a, hmem, rfl, rfl⟩
    exact ⟨a, (t.mem_entries_iff k a).1 hmem, rfl⟩
  · rintro ⟨a, hget, rfl⟩
    exact ⟨key, a, (t.mem_entries_iff key a).2 hget, rfl, rfl⟩

@[simp] theorem contains_map (f : α → β) (t : Table α) : (t.map f).contains = t.contains := by
  funext key
  rw [contains, get?_map, Option.isSome_map, contains]

theorem union_map (f : α → β) (t u : Table α) : (t.map f).union (u.map f) = (t.union u).map f := by
  apply eq_of_get?
  intro key
  simp only [get?_union, get?_map, Option.map_or]

theorem join_map (f : α → β) (scope row : Table α) (list : String) :
    (scope.map f).join list (row.map f) = (scope.join list row).map (map f) := by
  rw [join, join, keys_map, contains_map]
  cases row.keys.find? scope.contains with
  | some key => rfl
  | none => rw [union_map]; rfl

end Table

end RowTemplate
