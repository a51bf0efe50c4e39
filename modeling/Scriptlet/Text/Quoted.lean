/-!
# Quoted text

Token listings and tree outlines show a text between double quotes, with the
characters that would not survive on one line written as escapes.

## Main definitions

* `Text.escape` — one character as it stands between the quotes
* `Text.quoted` — a whole text in quotes
-/

namespace Scriptlet

namespace Text

/-- Whether `c` is an ASCII control character. -/
def isControl (c : Char) : Bool :=
  c.toNat < 0x20 || c.toNat == 0x7f

/-- **Escaping.**  The quote and the backslash get a backslash in front; line
feed, tab, carriage return and the null character have letters of their own;
every other control character is written as its code in braces. -/
def escape (c : Char) : List Char :=
  if c = '"' then ['\\', '"']
  else if c = '\\' then ['\\', '\\']
  else if c = '\n' then ['\\', 'n']
  else if c = '\t' then ['\\', 't']
  else if c = '\r' then ['\\', 'r']
  else if c.toNat = 0 then ['\\', '0']
  else if isControl c then
    ['\\', 'u', '\x7b'] ++ Nat.toDigits 16 c.toNat ++ ['\x7d']
  else [c]

/-- A text between double quotes, every character escaped as needed. -/
def quoted (s : String) : String :=
  String.ofList ('"' :: s.toList.flatMap escape ++ ['"'])

end Text

end Scriptlet
