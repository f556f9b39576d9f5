import PipedCompiler.Text.Decimal
import PipedCompiler.Text.Quoted

/-!
# JSON values

Values and their compact text, in which the fields of an object keep their order.
-/

namespace PipedCompiler.Text

/-- A JSON value. -/
inductive JsonValue where
  | null
  | bool (b : Bool)
  | number (n : Int)
  | string (s : String)
  | array (items : List JsonValue)
  | object (fields : List (String × JsonValue))
  deriving Repr, Inhabited

namespace JsonValue

/-- A control character, by its number. -/
def escapedControl (c : Char) : List Char :=
  ['\\', 'u', '0', '0', Nat.digitChar (c.toNat / 16), Nat.digitChar (c.toNat % 16)]

/-- A character as it stands in a string. -/
def escapedChar (c : Char) : List Char :=
  match c with
  | '"' => ['\\', '"']
  | '\\' => ['\\', '\\']
  | '\x08' => ['\\', 'b']
  | '\x0c' => ['\\', 'f']
  | '\n' => ['\\', 'n']
  | '\r' => ['\\', 'r']
  | '\t' => ['\\', 't']
  | c => if c.toNat < 0x20 then escapedControl c else [c]

/-- A string with its quotes. -/
def stringText (s : String) : List Char :=
  '"' :: s.toList.flatMap escapedChar ++ ['"']

/-- A number. -/
def numberText (n : Int) : List Char :=
  match n with
  | .ofNat n => Decimal.digits n
  | .negSucc n => '-' :: Decimal.digits (n + 1)

mutual

/-- The text of a value. -/
def chars : JsonValue → List Char
  | .null => "null".toList
  | .bool b => (if b then "true" else "false").toList
  | .number n => numberText n
  | .string s => stringText s
  | .array items => '[' :: itemChars items ++ [']']
  | .object fields => '\x7b' :: fieldChars fields ++ ['\x7d']

/-- The text of items, with commas between them. -/
def itemChars : List JsonValue → List Char
  | [] => []
  | [v] => v.chars
  | v :: w :: vs => v.chars ++ ',' :: itemChars (w :: vs)

/-- The text of fields, with commas between them. -/
def fieldChars : List (String × JsonValue) → List Char
  | [] => []
  | [(key, v)] => stringText key ++ ':' :: v.chars
  | (key, v) :: field :: fields => stringText key ++ ':' :: v.chars ++ ',' :: fieldChars (field :: fields)

end

/-- The text of a value as a string. -/
def text (v : JsonValue) : String :=
  String.ofList v.chars

end JsonValue

end PipedCompiler.Text
