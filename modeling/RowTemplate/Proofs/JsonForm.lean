import RowTemplate.Proofs.NumberText
import RowTemplate.Proofs.RowSources

/-! The JSON form of a datum. The conversion of a datum stops at the first of the failures of its parts
and succeeds where there are none. It gives a value with the members of its objects in key order and
with numbers of 64 bits. The compact text shows numbers in decimal, so that they can be read back, and
arrays and objects part by part. -/

namespace RowTemplate

/-! ### Numbers -/

namespace JsonNumber

/-- The numbers that a JSON value may have: any integer, and the floating point numbers of 64 bits. -/
def IsValid : JsonNumber → Prop
  | int _ => True
  | float x => Number.Format.double.Holds x

end JsonNumber

/-- An integer in decimal, behind a minus sign if it is negative. -/
def decimalText (n : ℤ) : List Char :=
  if n < 0 then '-' :: Nat.toDigits 10 n.natAbs else Nat.toDigits 10 n.natAbs

theorem toList_toString_int (n : ℤ) : (toString n).toList = decimalText n := by
  rw [Int.toString_eq_repr, decimalText]
  cases n with
  | ofNat m =>
      have hnonneg : ¬ Int.ofNat m < 0 := not_lt.2 (Int.natCast_nonneg m)
      rw [if_neg hnonneg, Int.repr, Nat.repr_eq_ofList_toDigits, String.toList_ofList]
      rfl
  | negSucc m =>
      rw [if_pos (Int.negSucc_lt_zero m), Int.repr, Nat.repr_eq_ofList_toDigits]
      simp

/-- The text of a floating point number reads as the number. -/
theorem JsonNumber.reads_text_float {x : Number.Binary} (h : Number.Format.double.Holds x) :
    Number.Format.double.Reads (JsonNumber.float x).text.toList x := by
  rw [text, String.toList_ofList]
  exact Number.reads_shortestText layout h

/-! ### Values -/

namespace Json

/-- A printer writes integers in decimal, floating point numbers so that their texts read as the
numbers, and arrays and objects in brackets, with their parts as it writes these and without blanks. -/
structure Printer.IsFaithful (printer : Printer) : Prop where
  int : ∀ n, (printer.number (.int n)).toList = decimalText n
  float : ∀ x, Number.Format.double.Holds x →
    Number.Format.double.Reads (printer.number (.float x)).toList x
  null : printer.value .null = "null"
  bool : ∀ b, printer.value (.bool b) = if b then "true" else "false"
  number : ∀ n, printer.value (.number n) = printer.number n
  string : ∀ s, (printer.value (.string s)).toList = quote s
  array : ∀ items, (printer.value (.array items)).toList =
    bracket '[' ']' (items.map fun item => (printer.value item).toList)
  object : ∀ members, (printer.value (.object members)).toList =
    bracket '\x7b' '\x7d'
      (members.map fun member => quote member.1 ++ ':' :: (printer.value member.2).toList)

theorem toList_text (value : Json) : value.text.toList = value.chars := String.toList_ofList

theorem itemChars_eq_map (items : List Json) :
    itemChars items = items.map fun item => item.text.toList := by
  induction items with
  | nil => rfl
  | cons item rest ih => rw [itemChars, ih, List.map_cons, toList_text]

theorem memberChars_eq_map (members : List (String × Json)) :
    memberChars members =
      members.map fun member => quote member.1 ++ ':' :: member.2.text.toList := by
  induction members with
  | nil => rfl
  | cons member rest ih => rw [memberChars, ih, List.map_cons, toList_text]

/-- The compact text shows every value as it is. -/
theorem Printer.isFaithful_compact : Printer.compact.IsFaithful where
  int := toList_toString_int
  float _ := JsonNumber.reads_text_float
  null := rfl
  bool b := by cases b <;> rfl
  number _ := String.ofList_toList
  string _ := toList_text _
  array items := by
    rw [compact, toList_text, chars, itemChars_eq_map]
  object members := by
    rw [compact, toList_text, chars, memberChars_eq_map]

/-- The members of every object in a value are in key order, and every number is valid. -/
inductive WellFormed : Json → Prop
  | null : WellFormed .null
  | bool (b : Bool) : WellFormed (.bool b)
  | number {n : JsonNumber} (h : n.IsValid) : WellFormed (.number n)
  | string (s : String) : WellFormed (.string s)
  | array {items : List Json} (h : ∀ item ∈ items, WellFormed item) : WellFormed (.array items)
  | object {members : List (String × Json)}
      (hkeys : members.Pairwise fun member later => member.1 < later.1)
      (h : ∀ member ∈ members, WellFormed member.2) : WellFormed (.object members)

theorem wellFormed_ofPairs {members : List (String × Json)}
    (h : ∀ member ∈ members, member.2.WellFormed) : (ofPairs members).WellFormed := by
  refine .object (Table.ofList members).sorted fun member hmem => h member ?_
  have hget := ((Table.ofList members).mem_entries_iff member.1 member.2).1 hmem
  obtain ⟨before, after, rfl, _⟩ := Table.get?_ofList_eq_some_iff_last.1 hget
  exact List.mem_append_right before List.mem_cons_self

end Json

namespace Datum

/-! ### The first failure -/

/-- The outcome of a conversion whose parts have some failures: it stops at the first one, and gives
a value with a property where there are none. -/
inductive Converts {α : Type} (P : α → Prop) : List Failure → Except Failure α → Prop
  | ok {a : α} (h : P a) : Converts P [] (.ok a)
  | error (failure : Failure) (later : List Failure) :
      Converts P (failure :: later) (.error failure)

namespace Converts

variable {α β : Type} {P : α → Prop} {Q : β → Prop} {failures failures' : List Failure}
  {outcome : Except Failure α}

theorem eq_error_iff (h : Converts P failures outcome) (failure : Failure) :
    outcome = .error failure ↔ failures.head? = some failure := by
  cases h with
  | ok => exact ⟨nofun, nofun⟩
  | error first later => rw [List.head?_cons, Option.some.injEq, Except.error.injEq]

theorem of_ok {a : α} (h : Converts P failures (.ok a)) : failures = [] ∧ P a := by
  cases h with
  | ok ha => exact ⟨rfl, ha⟩

theorem exists_ok (h : Converts P [] outcome) : ∃ a, outcome = .ok a ∧ P a := by
  cases h with
  | ok ha => exact ⟨_, rfl, ha⟩

/-- The failures of a conversion come before those of the one that follows it. -/
theorem bind {next : α → Except Failure β} (h : Converts P failures outcome)
    (hnext : ∀ a, P a → Converts Q failures' (next a)) :
    Converts Q (failures ++ failures') (outcome >>= next) := by
  cases h with
  | ok ha => exact hnext _ ha
  | error failure later => exact .error failure _

theorem map {f : α → β} (h : Converts P failures outcome) (hf : ∀ a, P a → Q (f a)) :
    Converts Q failures (f <$> outcome) := by
  cases h with
  | ok ha => exact .ok (hf _ ha)
  | error failure later => exact .error failure later

end Converts

/-- A format with no wider fields than numbers of 64 bits have. -/
structure NoWider (format : Number.Format) : Prop where
  exponentBits_gt : 1 < format.exponentBits
  fractionBits_le : format.fractionBits ≤ Number.Format.double.fractionBits
  leastExponent_ge : Number.Format.double.leastExponent ≤ format.leastExponent
  greatestExponent_le : format.greatestExponent ≤ Number.Format.double.greatestExponent

theorem noWider_single : NoWider .single := ⟨by decide, by decide, by decide, by decide⟩

theorem noWider_double : NoWider .double := ⟨by decide, le_rfl, le_rfl, le_rfl⟩

section Widening

variable {format : Number.Format} {word : Nat}

/-- A number of a format that is no wider stays the same as a number of 64 bits. -/
theorem ofFloat_of_finite? (hformat : NoWider format) {x : Number.Binary}
    (hx : format.finite? word = some x) :
    ∃ y, ofFloat format word = .number (.float y) ∧ Number.Format.double.Holds y ∧
      y.absValue = x.absValue := by
  have hholds := Number.holds_of_finite? hformat.exponentBits_gt hx
  have hfraction := hformat.fractionBits_le
  have hroom : x.significand < 2 ^ (Number.Format.double.fractionBits + 1) :=
    hholds.onGrid.significand_lt.trans_le (Nat.pow_le_pow_right (by omega) (by omega))
  refine ⟨Number.Format.double.normalize x, by rw [ofFloat, hx], ?_,
    Number.absValue_normalize .double x⟩
  exact Number.holds_normalize hroom
    (hformat.leastExponent_ge.trans hholds.onGrid.leastExponent_le)
    (hholds.exponent_le.trans hformat.greatestExponent_le)

theorem wellFormed_ofFloat (hformat : NoWider format) (word : Nat) :
    (ofFloat format word).WellFormed := by
  cases hx : format.finite? word with
  | none =>
      rw [ofFloat, hx]
      exact .null
  | some x =>
      obtain ⟨y, hy, hholds, _⟩ := ofFloat_of_finite? hformat hx
      rw [hy]
      exact .number hholds

/-- A key that is a floating point number reads as the number, in the format of the key. -/
theorem reads_of_keyOfFloat (hformat : NoWider format) {layout : Number.Layout} {key : String}
    (h : keyOfFloat layout format word = .ok key) :
    ∃ x, format.finite? word = some x ∧ format.Reads key.toList x := by
  unfold keyOfFloat at h
  split at h
  case h_1 x hx =>
    cases h
    rw [String.toList_ofList]
    have hholds := Number.holds_of_finite? hformat.exponentBits_gt hx
    exact ⟨x, hx, Number.reads_shortestText layout hholds⟩
  case h_2 => cases h

end Widening

theorem wellFormed_ofOctets (octets : List UInt8) :
    (Json.array (octets.map fun octet => .number (.int octet.toNat))).WellFormed := by
  refine .array fun item hmem => ?_
  obtain ⟨octet, _, rfl⟩ := List.mem_map.1 hmem
  exact .number trivial

theorem converts_toKey (key : Datum) : Converts (fun _ => True) key.keyFailures key.toKey := by
  unfold keyFailures
  cases key.toKey with
  | ok name => exact .ok trivial
  | error failure => exact .error failure []

mutual

/-- The conversion of a datum stops at the first failure of its parts, and gives a well-formed value
where there are none. -/
theorem converts_toJson (datum : Datum) : Converts Json.WellFormed datum.failures datum.toJson := by
  cases datum with
  | unit => exact .ok .null
  | bool b => exact .ok (.bool b)
  | int n =>
      rw [failures, toJson]
      split
      case isTrue => exact .ok (.number trivial)
      case isFalse => exact .error _ _
  | single word => exact .ok (wellFormed_ofFloat noWider_single word.toNat)
  | double word => exact .ok (wellFormed_ofFloat noWider_double word.toNat)
  | char c => exact .ok (.string _)
  | string s => exact .ok (.string s)
  | bytes octets => exact .ok (wellFormed_ofOctets octets)
  | absent => exact .ok .null
  | present content => exact converts_toJson content
  | wrapped content => exact converts_toJson content
  | sequence items => exact (converts_itemsToJson items).map fun _ => .array
  | map entries => exact (converts_entriesToJson entries).map fun _ => Json.wellFormed_ofPairs
  | record fields => exact (converts_fieldsToJson fields).map fun _ => Json.wellFormed_ofPairs
  | choice name => exact .ok (.string name)
  | variant name content =>
      exact (converts_toJson content).map fun value hvalue =>
        .object (List.pairwise_singleton ..) (List.forall_mem_singleton.2 hvalue)
  | failing text => exact .error _ _

theorem converts_itemsToJson (items : List Datum) :
    Converts (fun values => ∀ value ∈ values, value.WellFormed) (itemFailures items)
      (itemsToJson items) := by
  cases items with
  | nil => exact .ok nofun
  | cons item rest =>
      exact (converts_toJson item).bind fun value hvalue =>
        (converts_itemsToJson rest).map fun values hvalues =>
          List.forall_mem_cons.2 ⟨hvalue, hvalues⟩

theorem converts_entriesToJson (entries : List (Datum × Datum)) :
    Converts (fun members => ∀ member ∈ members, member.2.WellFormed) (entryFailures entries)
      (entriesToJson entries) := by
  cases entries with
  | nil => exact .ok nofun
  | cons entry rest =>
      obtain ⟨key, content⟩ := entry
      rw [entryFailures, entriesToJson, List.append_assoc]
      exact (converts_toKey key).bind fun name _ =>
        (converts_toJson content).bind fun value hvalue =>
          (converts_entriesToJson rest).map fun members hmembers =>
            List.forall_mem_cons.2 ⟨hvalue, hmembers⟩

theorem converts_fieldsToJson (fields : List (String × Datum)) :
    Converts (fun members => ∀ member ∈ members, member.2.WellFormed) (fieldFailures fields)
      (fieldsToJson fields) := by
  cases fields with
  | nil => exact .ok nofun
  | cons field rest =>
      obtain ⟨name, content⟩ := field
      exact (converts_toJson content).bind fun value hvalue =>
        (converts_fieldsToJson rest).map fun members hmembers =>
          List.forall_mem_cons.2 ⟨hvalue, hmembers⟩

end

end Datum

end RowTemplate
