/-
  Reckon — quoted text in messages.

  Messages quote the user's text so that every character of it can be told:
  those that would show nothing, or only together with another one, are
  written by their code points.
-/
import Reckon.Text.GraphemeExtend
import Reckon.Text.Invisible

namespace Reckon.Text

/-- A character by its code point in hexadecimal digits. -/
def codePoint (c : Char) : List Char :=
  ['\\', 'u', '\x7b'] ++ Nat.toDigits 16 c.toNat ++ ['\x7d']

/-- A character as it is written between quotes. -/
def quoteChar (c : Char) : List Char :=
  match c with
  | '\x00' => ['\\', '0']
  | '\t' => ['\\', 't']
  | '\r' => ['\\', 'r']
  | '\n' => ['\\', 'n']
  | '"' => ['\\', '"']
  | '\\' => ['\\', '\\']
  | c => if extendsGrapheme c || isInvisible c then codePoint c else [c]

/-- A text in double quotes. -/
def quote (s : String) : String :=
  String.ofList ('"' :: s.toList.flatMap quoteChar ++ ['"'])

end Reckon.Text
