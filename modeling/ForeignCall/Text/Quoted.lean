import ForeignCall.Text.GraphemeExtend
import ForeignCall.Text.Invisible

/-!
# Quoted text

`quoted` writes a text between double quotes.  Quotes, backslashes and the usual control characters get a
backslash; other characters that do not show by themselves are written by their code point.
-/

namespace ForeignCall

namespace Quoted

/-- The character does not show by itself. -/
def isHidden (c : Char) : Bool := isInvisible c || isGraphemeExtend c

def encodeChar (c : Char) : List Char :=
  match c with
  | '\x00' => ['\\', '0']
  | '\t' => ['\\', 't']
  | '\r' => ['\\', 'r']
  | '\n' => ['\\', 'n']
  | '"' => ['\\', '"']
  | '\\' => ['\\', '\\']
  | c => if isHidden c then ['\\', 'u', '\x7b'] ++ Nat.toDigits 16 c.toNat ++ ['\x7d'] else [c]

end Quoted

def quoted (text : String) : String :=
  String.ofList ('"' :: text.toList.flatMap Quoted.encodeChar ++ ['"'])

end ForeignCall
