import Scss.Text.Invisible

/-!
# Quoted text in messages

Messages show a character or a text between quotes.  A tab, a line break, a NUL, a backslash and
the surrounding quote are written with a backslash, and what has no visible form of its own is
written as its code point, `\u` and hexadecimal digits in braces.

## Main definitions

* `Text.escaped`: one character as it stands between quotes;
* `Text.quoted`, `Text.quotedChar`: text in double quotes, a character in single quotes.
-/

namespace Scss.Text

/-- The code point of `c` in hexadecimal, between braces. -/
def codePoint (c : Char) : List Char :=
  ['\\', 'u', '\x7b'] ++ Nat.toDigits 16 c.toNat ++ ['\x7d']

/-- How `c` is written between quotes of the kind `quote`. -/
def escaped (quote c : Char) : List Char :=
  if c == '\x00' then ['\\', '0']
  else if c == '\t' then ['\\', 't']
  else if c == '\r' then ['\\', 'r']
  else if c == '\n' then ['\\', 'n']
  else if c == '\\' then ['\\', '\\']
  else if c == quote then ['\\', c]
  else if isInvisible c then codePoint c
  else [c]

/-- The text `s` in double quotes. -/
def quoted (s : String) : String :=
  String.ofList ('"' :: s.toList.flatMap (escaped '"') ++ ['"'])

/-- The character `c` in single quotes. -/
def quotedChar (c : Char) : String :=
  String.ofList ('\x27' :: escaped '\x27' c ++ ['\x27'])

end Scss.Text
