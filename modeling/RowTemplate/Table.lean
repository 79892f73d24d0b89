import Std.Data.TreeMap.Lemmas
import Std.Data.HashMap.Lemmas

/-! Finite maps from strings. A table lists its entries in increasing key order, which for strings
is the order of code points, so two tables with the same look-ups are equal. -/

namespace RowTemplate

universe u

variable {α : Type u}

/-- Puts a value under a key in a key-ordered list of entries, in place of any value it had. -/
def putEntry (key : String) (value : α) : List (String × α) → List (String × α)
  | [] => [(key, value)]
  | (k, v) :: rest =>
      if key < k then (key, value) :: (k, v) :: rest
      else if key = k then (key, value) :: rest
      else (k, v) :: putEntry key value rest

theorem mem_putEntry {key : String} {value : α} {entries : List (String × α)} {entry : String × α}
    (h : entry ∈ putEntry key value entries) : entry = (key, value) ∨ entry ∈ entries := by
  induction entries with
  | nil => simpa [putEntry] using h
  | cons head rest ih =>
      rw [putEntry] at h
      split at h
      · simpa using h
      · split at h
        · rcases List.mem_cons.1 h with h | h
          · exact .inl h
          · exact .inr (List.mem_cons_of_mem _ h)
        · rcases List.mem_cons.1 h with h | h
          · exact .inr (h ▸ List.mem_cons_self)
          · exact (ih h).imp_right (List.mem_cons_of_mem _)

/-- Entries stay in increasing key order. -/
theorem pairwise_putEntry (key : String) (value : α) {entries : List (String × α)}
    (h : entries.Pairwise (fun a b => a.1 < b.1)) :
    (putEntry key value entries).Pairwise (fun a b => a.1 < b.1) := by
  induction entries with
  | nil => simp [putEntry]
  | cons head rest ih =>
      obtain ⟨k, v⟩ := head
      obtain ⟨hk, hrest⟩ := List.pairwise_cons.1 h
      rw [putEntry]
      split
      case isTrue hlt =>
        refine List.pairwise_cons.2 ⟨fun entry hmem => ?_, h⟩
        rcases List.mem_cons.1 hmem with rfl | hmem
        · exact hlt
        · exact String.lt_trans hlt (hk _ hmem)
      case isFalse hnlt =>
        split
        case isTrue heq => exact List.pairwise_cons.2 ⟨fun entry hmem => heq ▸ hk _ hmem, hrest⟩
        case isFalse hne =>
          refine List.pairwise_cons.2 ⟨fun entry hmem => ?_, ih hrest⟩
          rcases mem_putEntry hmem with rfl | hmem
          · exact Std.lt_of_le_of_ne (Std.not_lt.1 hnlt) (Ne.symm hne)
          · exact hk _ hmem

theorem lookup_cons_eq_ite (k key : String) (value : α) (entries : List (String × α)) :
    ((key, value) :: entries).lookup k = if k = key then some value else entries.lookup k := by
  by_cases h : k = key
  · simp [h]
  · simp [List.lookup_cons, beq_false_of_ne h, h]

theorem lookup_putEntry (key : String) (value : α) (entries : List (String × α)) (k : String) :
    (putEntry key value entries).lookup k = if k = key then some value else entries.lookup k := by
  induction entries with
  | nil => simp [putEntry, lookup_cons_eq_ite]
  | cons head rest ih =>
      simp only [putEntry]
      grind [lookup_cons_eq_ite]

/-- A finite map from strings, its entries in increasing order of their keys. -/
@[ext] structure Table (α : Type u) where
  entries : List (String × α)
  sorted : entries.Pairwise (fun a b => a.1 < b.1)
  deriving DecidableEq

namespace Table

/-- The table without entries. -/
def empty : Table α := ⟨[], .nil⟩

instance : Inhabited (Table α) := ⟨empty⟩

/-- Binds a key, replacing any value that it had. -/
def insert (t : Table α) (key : String) (value : α) : Table α :=
  ⟨putEntry key value t.entries, pairwise_putEntry key value t.sorted⟩

/-- The value of a key. -/
def get? (t : Table α) (key : String) : Option α := t.entries.lookup key

def contains (t : Table α) (key : String) : Bool := (t.get? key).isSome

/-- The keys in increasing order. -/
def keys (t : Table α) : List String := t.entries.map Prod.fst

def size (t : Table α) : Nat := t.entries.length

def isEmpty (t : Table α) : Bool := t.entries.isEmpty

/-- The table of some pairs; of equal keys the last one wins. -/
def ofList (pairs : List (String × α)) : Table α :=
  pairs.foldl (fun t pair => t.insert pair.1 pair.2) empty

/-- The table with the entries of a tree map, which lists them in key order. -/
def ofTreeMap (m : Std.TreeMap String α) : Table α where
  entries := m.toList
  sorted := m.ordered_keys_toList.imp fun h => compareOfLessAndEq_eq_lt.1 h

/-- The table with the entries of a hash map, put into key order. -/
def ofHashMap (m : Std.HashMap String α) : Table α := ofList m.toList

@[simp] theorem get?_empty (key : String) : (empty : Table α).get? key = none := rfl

theorem get?_insert (t : Table α) (key : String) (value : α) (k : String) :
    (t.insert key value).get? k = if k = key then some value else t.get? k :=
  lookup_putEntry key value t.entries k

/-- The entries are exactly the bound keys with their values. -/
theorem mem_entries_iff (t : Table α) (key : String) (value : α) :
    (key, value) ∈ t.entries ↔ t.get? key = some value := by
  obtain ⟨entries, sorted⟩ := t
  simp only [get?]
  induction entries with
  | nil => simp
  | cons head rest ih =>
      obtain ⟨k, v⟩ := head
      obtain ⟨hk, hrest⟩ := List.pairwise_cons.1 sorted
      rw [lookup_cons_eq_ite, List.mem_cons, ih hrest]
      split
      case isTrue heq =>
        subst heq
        have : rest.lookup key ≠ some value := fun h =>
          String.lt_irrefl key (hk _ ((ih hrest).2 h))
        simp [this, eq_comm]
      case isFalse hne => simp [hne]

theorem contains_iff (t : Table α) (key : String) :
    t.contains key = true ↔ ∃ value, t.get? key = some value :=
  Option.isSome_iff_exists

theorem nodup_entries (t : Table α) : t.entries.Nodup :=
  List.nodup_iff_pairwise_ne.2 <| t.sorted.imp fun {a b} h (heq : a = b) =>
    String.lt_irrefl b.1 (heq ▸ h)

/-- A table is determined by its look-ups. -/
theorem eq_of_get? {t u : Table α} (h : ∀ key, t.get? key = u.get? key) : t = u := by
  refine Table.ext (List.Perm.eq_of_pairwise ?_ t.sorted u.sorted ?_)
  · exact fun a b _ _ hab hba => absurd (String.lt_trans hab hba) (String.lt_irrefl _)
  · refine (List.perm_ext_iff_of_nodup t.nodup_entries u.nodup_entries).2 fun ⟨key, value⟩ => ?_
    rw [mem_entries_iff, mem_entries_iff, h]

end Table

end RowTemplate
