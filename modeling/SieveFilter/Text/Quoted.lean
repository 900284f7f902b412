import SieveFilter.Text.Numeral
import SieveFilter.Text.Printable

/-!
# Quoted text

The form in which a message shows a piece of input: between double quotes, with an escape for each
character that would not be seen as itself.
-/

namespace SieveFilter.Text

/-- The escape of one character inside quotes. -/
def quotedChar (c : Char) : List Char :=
  match c with
  | '"' => ['\\', '"']
  | '\\' => ['\\', '\\']
  | '\t' => ['\\', 't']
  | '\n' => ['\\', 'n']
  | '\r' => ['\\', 'r']
  | '\x00' => ['\\', '0']
  | c => if isPrintable c then [c] else ['\\', 'u', '\x7b'] ++ Numeral.hex c.toNat ++ ['\x7d']

/-- The text between double quotes, escaped. -/
def quoted (text : List Char) : List Char :=
  '"' :: text.flatMap quotedChar ++ ['"']

end SieveFilter.Text
