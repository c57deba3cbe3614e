import MiddleEnd.Text.Shown

/-!
# Quoted names

A name in a message stands between double quotes. Inside, the quote and the backslash follow a
backslash, four control characters have a letter of their own, any other character that cannot be
shown is written as its code point, `\u{301}`, and the rest stands as it is.
-/

namespace MiddleEnd.Text

/-- A character by its code point: lower-case hexadecimal without leading zeros, in braces. -/
def codePoint (c : Char) : List Char :=
  ['\\', 'u', '\x7b'] ++ Nat.toDigits 16 c.toNat ++ ['\x7d']

/-- What stands for a character inside quotes. -/
def escape (c : Char) : List Char :=
  if c = '\x00' then ['\\', '0']
  else if c = '\t' then ['\\', 't']
  else if c = '\n' then ['\\', 'n']
  else if c = '\r' then ['\\', 'r']
  else if c = '"' then ['\\', '"']
  else if c = '\\' then ['\\', '\\']
  else if isShown c then [c]
  else codePoint c

/-- A name between quotes. -/
def quote (s : String) : String := String.ofList ('"' :: s.toList.flatMap escape ++ ['"'])

end MiddleEnd.Text
