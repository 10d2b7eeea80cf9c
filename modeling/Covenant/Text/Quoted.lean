import Covenant.Text.Extender
import Covenant.Text.Hex
import Covenant.Text.Printable

/-! Characters and strings as messages and trees show them: between quotes, with whatever could not
be read back written as an escape. -/

namespace Covenant.Text

/-- The short escapes, which need no code point. -/
def shortEscape? (c : Char) : Option Char :=
  match c with
  | '\x00' => some '0'
  | '\t' => some 't'
  | '\r' => some 'r'
  | '\n' => some 'n'
  | '\\' => some '\\'
  | _ => none

/-- One character between quotes of the kind `quote`. The quote itself, and whatever has a short
escape, follows a backslash; what would not show is given by its code point. -/
def escape (quote c : Char) : List Char :=
  match shortEscape? c with
  | some letter => ['\\', letter]
  | none =>
      if c = quote then ['\\', c]
      else if isExtender c || !isPrintable c then
        "\\u\x7b".toList ++ (Hex.ofNat c.toNat).toList ++ ['}']
      else [c]

def quotedChar (c : Char) : String :=
  String.ofList ('\'' :: escape '\'' c ++ ['\''])

def quoted (text : String) : String :=
  String.ofList ('"' :: text.toList.flatMap (escape '"') ++ ['"'])

end Covenant.Text
