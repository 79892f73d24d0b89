import RowTemplate.Proofs.JsonForm
import RowTemplate.Proofs.Substitution

/-! What reading a datum as a row comes to. A failure of a part is reported before the shape of the
datum counts. Of a datum that is an object the first member without a text is reported, which is the
one with the least key because members are in key order; an object of texts alone is a row that shows
its members. -/

namespace RowTemplate

variable {printer : Json.Printer}

/-! ### Values without a text -/

namespace Json

/-- The values that have no text in a row. -/
inductive Textless : Json → Prop
  | null : Textless .null
  | array (items : List Json) : Textless (.array items)
  | object (members : List (String × Json)) : Textless (.object members)

/-- A text shows a value in a row: a string as it is, a boolean by its name, and a number as the printer
writes it, which is in decimal for an integer and reads as the number for a floating point number. -/
inductive ShownAs (printer : Printer) : Json → String → Prop
  | string (s : String) : ShownAs printer (.string s) s
  | bool (b : Bool) : ShownAs printer (.bool b) (if b then "true" else "false")
  | int {n : ℤ} (h : (printer.number (.int n)).toList = decimalText n) :
      ShownAs printer (.number (.int n)) (printer.number (.int n))
  | float {x : Number.Binary} (h : Number.Format.double.Reads (printer.number (.float x)).toList x) :
      ShownAs printer (.number (.float x)) (printer.number (.float x))

theorem ShownAs.not_textless {value : Json} {text : String} (h : value.ShownAs printer text) :
    ¬ value.Textless := by
  intro htextless
  cases htextless <;> cases h

theorem shownAs_of_rowText? (hprinter : printer.IsFaithful) {value : Json} (hvalue : value.WellFormed)
    {text : String} (h : value.rowText? printer = some text) : value.ShownAs printer text := by
  cases hvalue with
  | null => cases h
  | bool b => cases b <;> cases h <;> exact .bool _
  | @number n hn =>
      cases h
      cases n with
      | int n => exact .int (hprinter.int n)
      | float x => exact .float (hprinter.float x hn)
  | string s =>
      cases h
      exact .string _
  | array => cases h
  | object => cases h

theorem textless_of_rowText? {value : Json} (h : value.rowText? printer = none) :
    value.Textless := by
  cases value with
  | null => exact .null
  | bool b => cases b <;> cases h
  | number n => cases h
  | string s => cases h
  | array items => exact .array items
  | object members => exact .object members

end Json

/-! ### The first member without a text -/

namespace Row

/-- The message about a member whose value has no text. -/
def textlessMessage (printer : Json.Printer) (key : String) (value : Json) : String :=
  s!"Row value `{key}` must be a string, a number or a boolean, got `{printer.value value}`"

theorem textlessMessage_ne (key : String) (value : Json) :
    textlessMessage printer key value ≠ "Creating a Row from a value that is not an object" := by
  intro h
  have hhead := congrArg (fun s => s.toList.head?) h
  simp [textlessMessage, toString] at hhead

/-- An entry of a row shows a member of an object. -/
def Shows (printer : Json.Printer) (member : String × Json) (entry : String × String) : Prop :=
  entry.1 = member.1 ∧ member.2.ShownAs printer entry.2

theorem shows_of_pairOfMember (hprinter : printer.IsFaithful) {member : String × Json}
    (hmember : member.2.WellFormed) {pair : String × String}
    (h : pairOfMember printer member = .ok pair) : Shows printer member pair := by
  rw [pairOfMember] at h
  split at h
  case h_1 text htext =>
    cases h
    exact ⟨rfl, Json.shownAs_of_rowText? hprinter hmember htext⟩
  case h_2 => cases h

theorem textless_of_pairOfMember {member : String × Json} {e : Error}
    (h : pairOfMember printer member = .error e) :
    member.2.Textless ∧ e = .message (textlessMessage printer member.1 member.2) := by
  rw [pairOfMember] at h
  split at h
  case h_1 => cases h
  case h_2 htext =>
    cases h
    exact ⟨Json.textless_of_rowText? htext, rfl⟩

/-- What comes of a value that is read as a row. -/
inductive Reads (printer : Json.Printer) : Json → Except Error Row → Prop
  | notObject {value : Json} (h : ∀ members, value ≠ .object members) :
      Reads printer value (.error (.message "Creating a Row from a value that is not an object"))
  | textless {members : List (String × Json)} {key : String} {value : Json}
      (hmem : (key, value) ∈ members) (hvalue : value.Textless)
      (hleast : ∀ member ∈ members, member.2.Textless → key ≤ member.1) :
      Reads printer (.object members) (.error (.message (textlessMessage printer key value)))
  | row {members : List (String × Json)} {row : Row}
      (hentries : List.Forall₂ (Shows printer) members row.entries) :
      Reads printer (.object members) (.ok row)

theorem not_textless_of_shows {members : List (String × Json)} {entries : List (String × String)}
    (h : List.Forall₂ (Shows printer) members entries) :
    ∀ member ∈ members, ¬ member.2.Textless := by
  induction h with
  | nil => exact nofun
  | cons hshows _ ih => exact List.forall_mem_cons.2 ⟨hshows.2.not_textless, ih⟩

theorem keys_of_shows {members : List (String × Json)} {entries : List (String × String)}
    (h : List.Forall₂ (Shows printer) members entries) :
    entries.map Prod.fst = members.map Prod.fst := by
  induction h with
  | nil => rfl
  | cons hshows _ ih => rw [List.map_cons, List.map_cons, hshows.1, ih]

theorem shows_of_pairs (hprinter : printer.IsFaithful) {members : List (String × Json)}
    (hmembers : ∀ member ∈ members, member.2.WellFormed) {pairs : List (String × String)}
    (h : List.Forall₂ (fun member pair => pairOfMember printer member = .ok pair) members pairs) :
    List.Forall₂ (Shows printer) members pairs := by
  induction h with
  | nil => exact .nil
  | cons hpair _ ih =>
      obtain ⟨hmember, hrest⟩ := List.forall_mem_cons.1 hmembers
      exact .cons (shows_of_pairOfMember hprinter hmember hpair) (ih hrest)

theorem reads_object (hprinter : printer.IsFaithful) {members : List (String × Json)}
    (hkeys : members.Pairwise fun member later => member.1 < later.1)
    (hmembers : ∀ member ∈ members, member.2.WellFormed) :
    Reads printer (.object members) (ofJson printer (.object members)) := by
  cases hpairs : members.mapM (pairOfMember printer) with
  | ok pairs =>
      have hshows : List.Forall₂ (Shows printer) members pairs :=
        shows_of_pairs hprinter hmembers (mapM_eq_ok_iff.1 hpairs)
      have hsorted : pairs.Pairwise fun entry later => entry.1 < later.1 := by
        rw [← List.pairwise_map, keys_of_shows hshows]
        exact List.pairwise_map.2 hkeys
      let row : Row := ⟨pairs, hsorted⟩
      have hrow : ofJson printer (.object members) = .ok row := by
        rw [ofJson, hpairs]
        exact congrArg Except.ok (Table.ofList_of_perm_entries (List.Perm.refl row.entries))
      rw [hrow]
      exact .row hshows
  | error e =>
      obtain ⟨before, ⟨key, value⟩, after, rfl, hbefore, herror⟩ := exists_of_mapM_eq_error hpairs
      obtain ⟨hvalue, rfl⟩ := textless_of_pairOfMember herror
      have hleast : ∀ member ∈ before ++ (key, value) :: after,
          member.2.Textless → key ≤ member.1 := by
        intro member hmem htextless
        rcases List.mem_append.1 hmem with hearlier | hlater
        · obtain ⟨pair, hpair⟩ := hbefore member hearlier
          have hshows := shows_of_pairOfMember hprinter (hmembers member hmem) hpair
          exact absurd htextless hshows.2.not_textless
        · rcases List.mem_cons.1 hlater with rfl | hlater
          · exact String.le_refl key
          · have hafter := (List.pairwise_cons.1 (List.pairwise_append.1 hkeys).2.1).1
            exact Std.le_of_lt (hafter member hlater)
      rw [ofJson, hpairs]
      exact .textless (List.mem_append_right _ List.mem_cons_self) hvalue hleast

theorem reads_ofJson (hprinter : printer.IsFaithful) {value : Json} (h : value.WellFormed) :
    Reads printer value (ofJson printer value) := by
  cases h with
  | object hkeys hmembers => exact reads_object hprinter hkeys hmembers
  | null | bool | number | string | array => exact .notObject nofun

theorem ofDatumBy_of_toJson {datum : Datum} {value : Json} (h : datum.toJson = .ok value) :
    ofDatumBy printer datum = ofJson printer value := by
  rw [ofDatumBy, h]

theorem ofDatumBy_eq_unserializable_iff (hprinter : printer.IsFaithful) {datum : Datum}
    {failure : Datum.Failure} :
    ofDatumBy printer datum = .error (.unserializable failure) ↔ datum.toJson = .error failure := by
  cases hvalue : datum.toJson with
  | error first =>
      rw [ofDatumBy, hvalue, Except.error.injEq, Except.error.injEq, Error.unserializable.injEq]
  | ok value =>
      have hconverts := Datum.converts_toJson datum
      rw [hvalue] at hconverts
      have hreads := reads_ofJson hprinter hconverts.of_ok.2
      constructor
      · intro h
        rw [← ofDatumBy_of_toJson hvalue, h] at hreads
        cases hreads
      · intro h
        cases h

/-- **The first defect.** A datum with parts that fail to convert, wherever they are, fails with the
first of them. A datum without such parts has a JSON form, with the members of its objects in key
order, and it is refused as no object exactly if that form is none. An object with members that have
no text is refused for the one with the least key, whatever its other members are; an object of texts
alone is a row whose entries show its members, one for each, and no other datum is a row. Numbers are
shown as the printer writes them: if it is faithful, integers in decimal, and floating point numbers so
that they can be read back. -/
theorem ofDatumBy_first_defect (hprinter : printer.IsFaithful) (datum : Datum) :
    (∀ failure, ofDatumBy printer datum = .error (.unserializable failure) ↔
        datum.failures.head? = some failure) ∧
      (datum.failures = [] → ∃ value, datum.toJson = .ok value ∧ value.WellFormed ∧
        (ofDatumBy printer datum =
            .error (.message "Creating a Row from a value that is not an object") ↔
          ∀ members, value ≠ .object members) ∧
        ∀ members, value = .object members →
          ((∃ member ∈ members, member.2.Textless) →
            ∃ key entry, (key, entry) ∈ members ∧ entry.Textless ∧
              (∀ member ∈ members, member.2.Textless → key ≤ member.1) ∧
              ofDatumBy printer datum = .error (.message
                s!"Row value `{key}` must be a string, a number or a boolean, got `{printer.value entry}`")) ∧
          ((∀ member ∈ members, ¬ member.2.Textless) →
            ∃ row, ofDatumBy printer datum = .ok row ∧
              List.Forall₂ (Shows printer) members row.entries)) ∧
      ∀ row, ofDatumBy printer datum = .ok row → datum.failures = [] ∧
        ∃ members, datum.toJson = .ok (.object members) ∧
          (∀ member ∈ members, ¬ member.2.Textless) ∧
          List.Forall₂ (Shows printer) members row.entries := by
  have hconverts := Datum.converts_toJson datum
  refine ⟨fun failure => ?_, fun hnone => ?_, fun row hrow => ?_⟩
  · rw [ofDatumBy_eq_unserializable_iff hprinter, hconverts.eq_error_iff]
  · rw [hnone] at hconverts
    obtain ⟨value, hvalue, hwell⟩ := hconverts.exists_ok
    have hreads := reads_ofJson hprinter hwell
    rw [ofDatumBy_of_toJson hvalue]
    refine ⟨value, hvalue, hwell, ?_, ?_⟩
    · generalize ofJson printer value = outcome at hreads
      cases hreads with
      | notObject h => exact iff_of_true rfl h
      | textless =>
          refine iff_of_false (fun h => ?_) (fun h => h _ rfl)
          exact textlessMessage_ne _ _ (Error.message.inj (Except.error.inj h))
      | row => exact iff_of_false nofun (fun h => h _ rfl)
    · rintro members rfl
      generalize ofJson printer (.object members) = outcome at hreads
      cases hreads with
      | notObject h => exact absurd rfl (h members)
      | textless hmem hentry hleast =>
          exact ⟨fun _ => ⟨_, _, hmem, hentry, hleast, rfl⟩, fun h => absurd hentry (h _ hmem)⟩
      | row hentries =>
          have htexts := not_textless_of_shows hentries
          exact ⟨fun ⟨member, hmem, htextless⟩ => absurd htextless (htexts member hmem),
            fun _ => ⟨_, rfl, hentries⟩⟩
  · cases hvalue : datum.toJson with
    | error failure =>
        rw [(ofDatumBy_eq_unserializable_iff hprinter).2 hvalue] at hrow
        cases hrow
    | ok value =>
        rw [hvalue] at hconverts
        have hreads := reads_ofJson hprinter hconverts.of_ok.2
        rw [← ofDatumBy_of_toJson hvalue, hrow] at hreads
        cases hreads with
        | row hentries =>
            exact ⟨hconverts.of_ok.1, _, rfl, not_textless_of_shows hentries, hentries⟩

/-- A failure inside of a list, a list, values of all kinds inside of one without a text, and numbers of
all kinds. -/
theorem ofDatumBy_first_defect_several :
    Json.Printer.compact.IsFaithful ∧
      ofDatum (.sequence [.unit, .failing "halt", .int (2 ^ 64)]) =
        .error (.unserializable (.raised "halt")) ∧
      ofDatum (.sequence [.unit]) =
        .error (.message "Creating a Row from a value that is not an object") ∧
      ofDatum (.map [(.string "b", .unit), (.string "a", .sequence [.unit, .bool true, .int (-7),
          .double 0x3FE0000000000000, .string "\"\n", .record [("k", .sequence [])]])]) =
        .error (.message ("Row value `a` must be a string, a number or a boolean, got " ++
          "`[null,true,-7,0.5,\"\\\"\\n\",\x7b\"k\":[]\x7d]`")) ∧
      ∃ row, ofDatum (.record [("n", .int (-42)), ("b", .bool true), ("a", .string "x"),
          ("d", .double 0x54B249AD2594C37D), ("s", .single 0x3DCCCCCD)]) = .ok row ∧
        row.entries = [("a", "x"), ("b", "true"), ("d", "1e+100"), ("n", "-42"),
          ("s", "0.10000000149011612")] := by
  have hprinter := Json.Printer.isFaithful_compact
  refine ⟨hprinter, ?_, ?_, ?_, ?_⟩
  · exact ((ofDatumBy_first_defect hprinter _).1 _).2 rfl
  · obtain ⟨value, hvalue, _, hobject, _⟩ :=
      (ofDatumBy_first_defect hprinter (.sequence [.unit])).2.1 rfl
    cases hvalue
    refine hobject.2 fun members h => ?_
    cases h
  · let items : List Datum := [.unit, .bool true, .int (-7), .double 0x3FE0000000000000,
      .string "\"\n", .record [("k", .sequence [])]]
    let datum : Datum := .map [(.string "b", .unit), (.string "a", .sequence items)]
    let values : List Json := [.null, .bool true, .number (.int (-7)),
      .number (.float ⟨false, 2 ^ 52, -53⟩), .string "\"\n", .object [("k", .array [])]]
    let members : List (String × Json) := [("a", .array values), ("b", .null)]
    have hnone : datum.failures = [] := rfl
    have hmembers : datum.toJson = .ok (.object members) := rfl
    obtain ⟨value, hvalue, _, _, hcases⟩ := (ofDatumBy_first_defect hprinter datum).2.1 hnone
    rw [hmembers] at hvalue
    cases hvalue
    obtain ⟨key, entry, hmem, _, hleast, hdatum⟩ :=
      (hcases members rfl).1 ⟨("b", .null), by simp [members], .null⟩
    have hkey : key ≤ "a" := hleast ("a", _) List.mem_cons_self (.array _)
    rcases List.mem_cons.1 hmem with heq | hmem
    · cases heq
      refine hdatum.trans (congrArg (Except.error ∘ Error.message) ?_)
      decide +kernel
    · cases List.mem_singleton.1 hmem
      exact absurd hkey (by decide)
  · let datum : Datum := .record [("n", .int (-42)), ("b", .bool true), ("a", .string "x"),
      ("d", .double 0x54B249AD2594C37D), ("s", .single 0x3DCCCCCD)]
    let members : List (String × Json) := [("a", .string "x"), ("b", .bool true),
      ("d", .number (.float ⟨false, 2 ^ 52 + 0x249AD2594C37D, 280⟩)), ("n", .number (.int (-42))),
      ("s", .number (.float ⟨false, 13421773 * 2 ^ 29, -56⟩))]
    have hnone : datum.failures = [] := rfl
    have hmembers : datum.toJson = .ok (.object members) := rfl
    obtain ⟨value, hvalue, _, _, hcases⟩ := (ofDatumBy_first_defect hprinter datum).2.1 hnone
    rw [hmembers] at hvalue
    cases hvalue
    have htexts : ∀ member ∈ members, ¬ member.2.Textless := by
      simp only [members, List.forall_mem_cons]
      exact ⟨nofun, nofun, nofun, nofun, nofun, nofun⟩
    obtain ⟨row, hrow, _⟩ := (hcases members rfl).2 htexts
    have hentries : (ofDatum datum).toOption.map Table.entries =
        some [("a", "x"), ("b", "true"), ("d", "1e+100"), ("n", "-42"),
          ("s", "0.10000000149011612")] := by decide +kernel
    rw [ofDatum, hrow] at hentries
    exact ⟨row, hrow, Option.some.inj hentries⟩

end Row

end RowTemplate
