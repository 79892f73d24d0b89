import RowTemplate.Number
import RowTemplate.Table

/-! JSON values and their compact text. The members of an object are in key order, each key once. -/

namespace RowTemplate

/-- The number of a JSON value: an integer, or a floating point number of 64 bits. -/
inductive JsonNumber
  | int (n : Int)
  | float (x : Number.Binary)
  deriving DecidableEq

namespace JsonNumber

/-- Numbers from `0.00001` up to, but not including, `1e+16` are written in full. -/
def layout : Number.Layout := ⟨-5, 15⟩

/-- An integer in decimal, or the shortest digits that read back as the number. -/
def text : JsonNumber → String
  | int n => toString n
  | float x => String.ofList (layout.shortestText .double x)

end JsonNumber

/-- A JSON value. -/
inductive Json
  | null
  | bool (b : Bool)
  | number (n : JsonNumber)
  | string (s : String)
  | array (items : List Json)
  | object (members : List (String × Json))

namespace Json

/-- The object with some members; of equal keys the last one wins. -/
def ofPairs (members : List (String × Json)) : Json := object (Table.ofList members).entries

/-- A character inside a string. Quotes, backslashes and control characters are escaped. -/
def escape (c : Char) : List Char :=
  match c with
  | '"' => ['\\', '"']
  | '\\' => ['\\', '\\']
  | '\x08' => ['\\', 'b']
  | '\t' => ['\\', 't']
  | '\n' => ['\\', 'n']
  | '\x0c' => ['\\', 'f']
  | '\r' => ['\\', 'r']
  | _ =>
      if c.toNat < 0x20 then
        ['\\', 'u', '0', '0', Nat.digitChar (c.toNat / 16), Nat.digitChar (c.toNat % 16)]
      else [c]

/-- A string between quotes. -/
def quote (s : String) : List Char := '"' :: s.toList.flatMap escape ++ ['"']

/-- Texts between brackets, with a comma between each two. -/
def bracket (first last : Char) (parts : List (List Char)) : List Char :=
  first :: (parts.intersperse [',']).flatten ++ [last]

mutual

/-- The text of a value without blanks. -/
def chars : Json → List Char
  | null => ['n', 'u', 'l', 'l']
  | bool true => ['t', 'r', 'u', 'e']
  | bool false => ['f', 'a', 'l', 's', 'e']
  | number n => n.text.toList
  | string s => quote s
  | array items => bracket '[' ']' (itemChars items)
  | object members => bracket '\x7b' '\x7d' (memberChars members)

def itemChars : List Json → List (List Char)
  | [] => []
  | item :: rest => item.chars :: itemChars rest

def memberChars : List (String × Json) → List (List Char)
  | [] => []
  | (key, value) :: rest => (quote key ++ ':' :: value.chars) :: memberChars rest

end

/-- The text of a value without blanks. -/
def text (value : Json) : String := String.ofList value.chars

/-- A way to write numbers and values. -/
structure Printer where
  number : JsonNumber → String
  value : Json → String

/-- Numbers and values without blanks. -/
def Printer.compact : Printer := ⟨JsonNumber.text, text⟩

end Json

end RowTemplate
