import RowTemplate.Proofs.Table
import RowTemplate.Row

/-! Rows from the same pairs by different ways. A table, a tree map and a hash map of some pairs all
answer a look-up with the last value that the key is given, so they give equal rows, in whichever
order the hash map lists its entries. Data with these pairs have the object of the pairs as their
JSON form, where the last value of a key counts as well, and the members of an object become the
entries of its row as they are. -/

namespace RowTemplate

universe u v

variable {α : Type u} {β : Type v}

namespace Table

/-! ### Tables from maps -/

theorem get?_ofTreeMap (m : Std.TreeMap String α) (key : String) :
    (ofTreeMap m).get? key = m[key]? := by
  apply Option.ext
  intro value
  rw [← mem_entries_iff, ← Std.TreeMap.mem_toList_iff_getElem?_eq_some]
  rfl

/-- The order in which a hash map lists its entries makes no difference. -/
theorem get?_ofList_of_perm {m : Std.HashMap String α} {order : List (String × α)}
    (h : order.Perm m.toList) (key : String) : (ofList order).get? key = m[key]? := by
  have hnodup : (order.map Prod.fst).Nodup := by
    rw [(h.map Prod.fst).nodup_iff, List.nodup_iff_pairwise_ne, List.pairwise_map]
    exact m.distinct_keys_toList.imp fun hne heq => by simp [heq] at hne
  apply Option.ext
  intro value
  rw [get?_ofList_eq_some_iff hnodup, h.mem_iff, Std.HashMap.mem_toList_iff_getElem?_eq_some]

theorem getElem?_treeMap_ofList (pairs : List (String × α)) (key : String) :
    (Std.TreeMap.ofList pairs)[key]? = pairs.reverse.lookup key := by
  rw [Std.TreeMap.ofList_eq_insertMany_empty, Std.TreeMap.getElem?_insertMany_list,
    Std.TreeMap.getElem?_emptyc, Option.or_none, List.findSomeRev?_eq_findSome?_reverse,
    List.lookup_eq_findSome?]
  congr 1
  funext pair
  simp only [Std.compare_eq_iff_eq, beq_iff_eq, @eq_comm _ pair.1]

theorem getElem?_hashMap_ofList (pairs : List (String × α)) (key : String) :
    (Std.HashMap.ofList pairs)[key]? = pairs.reverse.lookup key := by
  rw [Std.HashMap.ofList_eq_insertMany_empty, Std.HashMap.getElem?_insertMany_list,
    Std.HashMap.getElem?_empty, Option.or_none, List.findSomeRev?_eq_findSome?_reverse,
    List.lookup_eq_findSome?]
  congr 1
  funext pair
  simp only [beq_iff_eq, @eq_comm _ pair.1]

theorem ofTreeMap_ofList (pairs : List (String × α)) :
    ofTreeMap (.ofList pairs) = ofList pairs := by
  apply eq_of_get?
  intro key
  rw [get?_ofTreeMap, getElem?_treeMap_ofList, get?_ofList]

theorem ofList_of_perm_hashMap {pairs order : List (String × α)}
    (h : order.Perm (Std.HashMap.ofList pairs).toList) : ofList order = ofList pairs := by
  apply eq_of_get?
  intro key
  rw [get?_ofList_of_perm h, getElem?_hashMap_ofList, get?_ofList]

/-! ### Tables from entries -/

/-- The entries of a table in any order are a table again, the same one. -/
theorem ofList_of_perm_entries {t : Table α} {order : List (String × α)}
    (h : order.Perm t.entries) : ofList order = t := by
  have hnodup : (order.map Prod.fst).Nodup := (h.map Prod.fst).nodup_iff.2 t.nodup_keys
  apply eq_of_get?
  intro key
  apply Option.ext
  intro value
  rw [get?_ofList_eq_some_iff hnodup, h.mem_iff, mem_entries_iff]

theorem map_insert (f : α → β) (t : Table α) (key : String) (value : α) :
    (t.insert key value).map f = (t.map f).insert key (f value) := by
  apply eq_of_get?
  intro k
  rw [get?_map, get?_insert, get?_insert, get?_map, apply_ite (Option.map f)]
  rfl

theorem ofList_map (f : α → β) (pairs : List (String × α)) :
    ofList (pairs.map fun pair => (pair.1, f pair.2)) = (ofList pairs).map f := by
  have hfold : ∀ t : Table α, (pairs.map fun pair => (pair.1, f pair.2)).foldl
      (fun t pair => t.insert pair.1 pair.2) (t.map f) =
        (pairs.foldl (fun t pair => t.insert pair.1 pair.2) t).map f := by
    induction pairs with
    | nil => exact fun t => rfl
    | cons pair rest ih =>
        intro t
        rw [List.map_cons, List.foldl_cons, List.foldl_cons, ← map_insert, ih]
  exact hfold empty

/-- The value of a key is the last one that the key is given. -/
theorem get?_ofList_eq_some_iff_last {pairs : List (String × α)} {key : String} {value : α} :
    (ofList pairs).get? key = some value ↔
      ∃ before after, pairs = before ++ (key, value) :: after ∧ key ∉ after.map Prod.fst := by
  rw [get?_ofList, List.lookup_eq_some_iff]
  constructor
  · rintro ⟨after, before, hpairs, hafter⟩
    refine ⟨before.reverse, after.reverse, ?_, ?_⟩
    · rw [← List.reverse_reverse pairs, hpairs]
      simp
    · rw [List.map_reverse, List.mem_reverse, List.mem_map]
      rintro ⟨pair, hmem, rfl⟩
      simpa using hafter pair hmem
  · rintro ⟨before, after, rfl, hafter⟩
    refine ⟨after.reverse, before.reverse, by simp, fun pair hmem => ?_⟩
    rw [bne_iff_ne]
    rintro rfl
    exact hafter (List.mem_map.2 ⟨pair, List.mem_reverse.1 hmem, rfl⟩)

theorem contains_ofList_iff {pairs : List (String × α)} {key : String} :
    (ofList pairs).contains key = true ↔ key ∈ pairs.map Prod.fst := by
  rw [contains, get?_ofList, lookup_isSome_iff, List.map_reverse, List.mem_reverse]

end Table

/-! ### Data with the pairs -/

/-- Pairs of strings as the members of an object. -/
def Json.membersOf (pairs : List (String × String)) : List (String × Json) :=
  pairs.map fun pair => (pair.1, .string pair.2)

namespace Datum

/-- A map that goes through some pairs of strings. -/
def mapOf (pairs : List (String × String)) : Datum :=
  .map (pairs.map fun pair => (.string pair.1, .string pair.2))

/-- Fields that are gone through in the order of some pairs of strings. -/
def recordOf (pairs : List (String × String)) : Datum :=
  .record (pairs.map fun pair => (pair.1, .string pair.2))

theorem toJson_mapOf (pairs : List (String × String)) :
    (mapOf pairs).toJson = .ok (.ofPairs (Json.membersOf pairs)) := by
  have hentries : entriesToJson (pairs.map fun pair => (.string pair.1, .string pair.2)) =
      .ok (Json.membersOf pairs) := by
    induction pairs with
    | nil => rw [List.map_nil, entriesToJson]; rfl
    | cons pair rest ih => rw [List.map_cons, entriesToJson, ih, toKey, toJson]; rfl
  rw [mapOf, toJson, hentries]
  rfl

theorem toJson_recordOf (pairs : List (String × String)) :
    (recordOf pairs).toJson = .ok (.ofPairs (Json.membersOf pairs)) := by
  have hfields : fieldsToJson (pairs.map fun pair => (pair.1, .string pair.2)) =
      .ok (Json.membersOf pairs) := by
    induction pairs with
    | nil => rw [List.map_nil, fieldsToJson]; rfl
    | cons pair rest ih => rw [List.map_cons, fieldsToJson, ih, toJson]; rfl
  rw [recordOf, toJson, hfields]
  rfl

end Datum

namespace Row

variable (printer : Json.Printer)

theorem mapM_pairOfMember (pairs : List (String × String)) :
    (Json.membersOf pairs).mapM (pairOfMember printer) = .ok pairs := by
  induction pairs with
  | nil => rfl
  | cons pair rest ih =>
      rw [Json.membersOf, List.map_cons, List.mapM_cons, ← Json.membersOf, ih]
      rfl

/-- The object of some pairs gives the row of the pairs. -/
theorem ofJson_ofPairs (pairs : List (String × String)) :
    ofJson printer (.ofPairs (Json.membersOf pairs)) = .ok (Table.ofList pairs) := by
  have hentries : (Table.ofList (Json.membersOf pairs)).entries =
      Json.membersOf (Table.ofList pairs).entries := by
    rw [Json.membersOf, Table.ofList_map]
    rfl
  rw [Json.ofPairs, ofJson, hentries, mapM_pairOfMember]
  exact congrArg Except.ok (Table.ofList_of_perm_entries (List.Perm.refl _))

theorem ofDatum_mapOf (pairs : List (String × String)) :
    ofDatum (.mapOf pairs) = .ok (Table.ofList pairs) := by
  rw [ofDatum, ofDatumBy, Datum.toJson_mapOf]
  exact ofJson_ofPairs .compact pairs

theorem ofDatum_recordOf (pairs : List (String × String)) :
    ofDatum (.recordOf pairs) = .ok (Table.ofList pairs) := by
  rw [ofDatum, ofDatumBy, Datum.toJson_recordOf]
  exact ofJson_ofPairs .compact pairs

/-- **The last value stays.** Pairs of strings give one row, whether they are collected, inserted
one after the other, taken from their tree map or from their hash map in whichever order it lists
them, or read from a map or a record with these pairs. A key has the last value that it is given,
and no other keys are bound; the entries are in increasing order of their keys, one for each.
Conversely, the entries of a row in any order, read as a map, are the row again. -/
theorem ofList_keeps_last (pairs : List (String × String)) :
    let row : Row := Table.ofList pairs
    pairs.foldl (fun row pair => row.insert pair.1 pair.2) Table.empty = row ∧
      Table.ofTreeMap (.ofList pairs) = row ∧
      (Table.ofHashMap (.ofList pairs) = row ∧
        ∀ order, order.Perm (Std.HashMap.ofList pairs).toList → Table.ofList order = row) ∧
      ofDatum (.mapOf pairs) = .ok row ∧
      ofDatum (.recordOf pairs) = .ok row ∧
      (∀ key value, row.get? key = some value ↔
        ∃ before after, pairs = before ++ (key, value) :: after ∧ key ∉ after.map Prod.fst) ∧
      (∀ key, row.get? key = none ↔ key ∉ pairs.map Prod.fst) ∧
      (row.entries.Pairwise (fun entry later => entry.1 < later.1) ∧
        (∀ key value, (key, value) ∈ row.entries ↔ row.get? key = some value) ∧
        row.entries.length = row.size ∧ row.size = (pairs.map Prod.fst).dedup.length) ∧
      ∀ (other : Row) order, order.Perm other.entries → ofDatum (.mapOf order) = .ok other := by
  refine ⟨rfl, Table.ofTreeMap_ofList pairs, ⟨?_, ?_⟩, ofDatum_mapOf pairs, ofDatum_recordOf pairs,
    ?_, fun key => ?_, ⟨?_, ?_, rfl, ?_⟩, ?_⟩
  · exact Table.ofList_of_perm_hashMap (List.Perm.refl _)
  · exact fun order h => Table.ofList_of_perm_hashMap h
  · exact fun key value => Table.get?_ofList_eq_some_iff_last
  · rw [← Table.contains_ofList_iff, Table.contains, Option.isSome_iff_ne_none, not_not]
  · exact (Table.ofList pairs).sorted
  · exact fun key value => (Table.ofList pairs).mem_entries_iff key value
  · exact Table.size_eq_length_dedup fun key => Table.contains_ofList_iff
  · intro other order h
    rw [ofDatum_mapOf, Table.ofList_of_perm_entries h]

theorem ofList_keeps_last_repeated :
    ∃ (row : Row) (order : List (String × String)),
      row.entries = [("a", "2"), ("b", "3")] ∧
      order.Perm (Std.HashMap.ofList [("b", "1"), ("a", "2"), ("b", "3")]).toList ∧
      Table.ofList order = row ∧ [("b", "3"), ("a", "2")].Perm row.entries ∧
      ofDatum (.mapOf [("b", "3"), ("a", "2")]) = .ok row := by
  let pairs : List (String × String) := [("b", "1"), ("a", "2"), ("b", "3")]
  have hentries : (Table.ofList pairs).entries = [("a", "2"), ("b", "3")] := by decide
  have horder : (Std.HashMap.ofList pairs).toList.reverse.Perm (Std.HashMap.ofList pairs).toList :=
    List.reverse_perm _
  have hother : [("b", "3"), ("a", "2")].Perm (Table.ofList pairs).entries := by
    rw [hentries]
    exact List.Perm.swap _ _ _
  obtain ⟨_, _, ⟨_, hhash⟩, _, _, _, _, _, hdatum⟩ := ofList_keeps_last pairs
  exact ⟨_, _, hentries, horder, hhash _ horder, hother, hdatum _ _ hother⟩

end Row

end RowTemplate
