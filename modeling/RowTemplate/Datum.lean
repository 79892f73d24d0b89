import RowTemplate.Datum.Failure
import RowTemplate.Json

/-! Data that rows are built from, and its JSON form. Conversion goes through a datum in order, a
key before its value, and stops at the first part that has no JSON form. The failures of a datum are
those of all its parts, in the same order. -/

namespace RowTemplate

/-- A piece of data by what it is made of. -/
inductive Datum
  | unit
  | bool (b : Bool)
  | int (n : Int)
  /-- A 32-bit floating point number, by its word. -/
  | single (word : UInt32)
  /-- A 64-bit floating point number, by its word. -/
  | double (word : UInt64)
  | char (c : Char)
  | string (s : String)
  | bytes (octets : List UInt8)
  /-- An optional datum that is not there. -/
  | absent
  /-- An optional datum that is there. -/
  | present (content : Datum)
  /-- A datum in a type of its own, which leaves no trace. -/
  | wrapped (content : Datum)
  | sequence (items : List Datum)
  /-- Keys with their values, in the order in which they are gone through. -/
  | map (entries : List (Datum × Datum))
  /-- Named fields, in the order in which they are gone through. -/
  | record (fields : List (String × Datum))
  /-- One of several alternatives, with nothing but its name. -/
  | choice (name : String)
  /-- One of several alternatives, with its name and content. -/
  | variant (name : String) (content : Datum)
  /-- A datum that fails with a text when it is gone through. -/
  | failing (text : String)

namespace Datum

/-- The integers that have a JSON form: all that fit 64 bits, with or without a sign. -/
def isInRange (n : Int) : Bool := -Nat.pow 2 63 ≤ n && n < Nat.pow 2 64

/-- A floating point number as a JSON value; an infinity or a NaN has none and gives `null`. -/
def ofFloat (format : Number.Format) (word : Nat) : Json :=
  match format.finite? word with
  | some x => .number (.float (Number.Format.double.normalize x))
  | none => .null

/-- As keys, 32-bit numbers from `0.000001` up to, but not including, `1e+13` are written in
full. -/
def singleKeyLayout : Number.Layout := ⟨-6, 12⟩

/-- The key of a floating point number, with the digits that its own format needs. -/
def keyOfFloat (layout : Number.Layout) (format : Number.Format) (word : Nat) :
    Except Failure String :=
  match format.finite? word with
  | some x => .ok (String.ofList (layout.shortestText format x))
  | none => .error .nonFiniteKey

/-- The text of a datum that is the key of a map. -/
def toKey : Datum → Except Failure String
  | bool b => .ok (if b then "true" else "false")
  | int n => .ok (toString n)
  | single word => keyOfFloat singleKeyLayout .single word.toNat
  | double word => keyOfFloat JsonNumber.layout .double word.toNat
  | char c => .ok c.toString
  | string s => .ok s
  | wrapped content => content.toKey
  | choice name => .ok name
  | failing text => .error (.raised text)
  | _ => .error .keyNotText

mutual

/-- The JSON form of a datum. -/
def toJson : Datum → Except Failure Json
  | unit => .ok .null
  | bool b => .ok (.bool b)
  | int n => if isInRange n then .ok (.number (.int n)) else .error .numberOutOfRange
  | single word => .ok (ofFloat .single word.toNat)
  | double word => .ok (ofFloat .double word.toNat)
  | char c => .ok (.string c.toString)
  | string s => .ok (.string s)
  | bytes octets => .ok (.array (octets.map fun octet => .number (.int octet.toNat)))
  | absent => .ok .null
  | present content => content.toJson
  | wrapped content => content.toJson
  | sequence items => .array <$> itemsToJson items
  | map entries => .ofPairs <$> entriesToJson entries
  | record fields => .ofPairs <$> fieldsToJson fields
  | choice name => .ok (.string name)
  | variant name content => do
      let value ← content.toJson
      return .object [(name, value)]
  | failing text => .error (.raised text)

def itemsToJson : List Datum → Except Failure (List Json)
  | [] => .ok []
  | item :: rest => do
      let value ← item.toJson
      return value :: (← itemsToJson rest)

def entriesToJson : List (Datum × Datum) → Except Failure (List (String × Json))
  | [] => .ok []
  | (key, content) :: rest => do
      let name ← key.toKey
      let value ← content.toJson
      return (name, value) :: (← entriesToJson rest)

def fieldsToJson : List (String × Datum) → Except Failure (List (String × Json))
  | [] => .ok []
  | (name, content) :: rest => do
      let value ← content.toJson
      return (name, value) :: (← fieldsToJson rest)

end

/-- Why a datum is no key, if it is none. -/
def keyFailures (key : Datum) : List Failure :=
  match key.toKey with
  | .ok _ => []
  | .error failure => [failure]

mutual

/-- The failures of the parts of a datum, a key before its value. -/
def failures : Datum → List Failure
  | int n => if isInRange n then [] else [.numberOutOfRange]
  | present content => content.failures
  | wrapped content => content.failures
  | sequence items => itemFailures items
  | map entries => entryFailures entries
  | record fields => fieldFailures fields
  | variant _ content => content.failures
  | failing text => [.raised text]
  | _ => []

def itemFailures : List Datum → List Failure
  | [] => []
  | item :: rest => item.failures ++ itemFailures rest

def entryFailures : List (Datum × Datum) → List Failure
  | [] => []
  | (key, content) :: rest => key.keyFailures ++ content.failures ++ entryFailures rest

def fieldFailures : List (String × Datum) → List Failure
  | [] => []
  | (_, content) :: rest => content.failures ++ fieldFailures rest

end

end Datum

end RowTemplate
