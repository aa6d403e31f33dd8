import TriggerLang.Text.Extending
import TriggerLang.Text.Ignorable
import TriggerLang.Text.Printable
/-!
# Texts in quotes

A text in quotes stands on one line and shows every character that it holds.  Quotes, backslashes
and the common controls have short escapes.  Any other character that would not be seen by itself is
written by its code: one that is not printable, one that is drawn on the character before it, and
one that may show nothing.
-/

namespace TriggerLang.Text

/-- The digits of a character code in hexadecimal, without leading zeros. -/
def codeDigits (c : Char) : String :=
  String.ofList (Nat.toDigits 16 c.toNat)

/-- Whether a character is seen by itself. -/
def isSeen (c : Char) : Bool :=
  isPrintable c && !isExtending c && !isIgnorable c

/-- A character inside quotes. -/
def quotedChar (c : Char) : String :=
  match c with
  | '"' => "\\\""
  | '\\' => "\\\\"
  | '\n' => "\\n"
  | '\r' => "\\r"
  | '\t' => "\\t"
  | '\x00' => "\\0"
  | _ => if isSeen c then c.toString else "\\u\x7b" ++ codeDigits c ++ "\x7d"

/-- A text in quotes. -/
def quoted (s : String) : String :=
  "\"" ++ String.join (s.toList.map quotedChar) ++ "\""

end TriggerLang.Text
