import Covenant.Json.Basic
import Covenant.Text.Hex

/-! JSON as text: one item or field a line, two spaces for each level; empty arrays and objects stay
on their line. -/

namespace Covenant.Json

/-- Quotes, backslashes and control characters are escaped, and nothing else. -/
def escape (c : Char) : List Char :=
  match c with
  | '"' => ['\\', '"']
  | '\\' => ['\\', '\\']
  | '\x08' => ['\\', 'b']
  | '\t' => ['\\', 't']
  | '\n' => ['\\', 'n']
  | '\x0c' => ['\\', 'f']
  | '\r' => ['\\', 'r']
  | c => if c.toNat < 0x20 then '\\' :: 'u' :: (Hex.padded 4 c.toNat).toList else [c]

def quoted (text : String) : String :=
  String.ofList ('"' :: text.toList.flatMap escape ++ ['"'])

/-- Starts a new line at a depth. -/
def newline (out : String) (depth : Nat) : String :=
  out ++ "\n" ++ String.ofList (List.replicate (2 * depth) ' ')

mutual

/-- Appends a value to `out`, whose last line is at `depth`. -/
def write (out : String) (depth : Nat) : Json → String
  | null => out ++ "null"
  | bool true => out ++ "true"
  | bool false => out ++ "false"
  | number value => out ++ toString value
  | string value => out ++ quoted value
  | array [] => out ++ "[]"
  | array (item :: items) =>
      writeItems (write (newline (out ++ "[") (depth + 1)) (depth + 1) item) depth items
  | object [] => out ++ "\x7b\x7d"
  | object ((key, value) :: fields) =>
      let out := newline (out ++ "\x7b") (depth + 1) ++ quoted key ++ ": "
      writeFields (write out (depth + 1) value) depth fields
termination_by structural json => json

/-- Appends the items after the first, and closes the array. -/
def writeItems (out : String) (depth : Nat) : List Json → String
  | [] => newline out depth ++ "]"
  | item :: items =>
      writeItems (write (newline (out ++ ",") (depth + 1)) (depth + 1) item) depth items
termination_by structural items => items

/-- Appends the fields after the first, and closes the object. -/
def writeFields (out : String) (depth : Nat) : List (String × Json) → String
  | [] => newline out depth ++ "\x7d"
  | (key, value) :: fields =>
      let out := newline (out ++ ",") (depth + 1) ++ quoted key ++ ": "
      writeFields (write out (depth + 1) value) depth fields
termination_by structural fields => fields

end

def render (json : Json) : String :=
  write "" 0 json

end Covenant.Json
