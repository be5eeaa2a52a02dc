import Kode.Text.Unprintable

/-!
# Quoted texts

A text in double quotes, for dumps. A character that could not be read there is
escaped: the quote and the backslash by a backslash, the usual controls by a
letter, and any other without a shape of its own by its code point in
hexadecimal digits.
-/

namespace Kode.Text

/-- The character as it is written inside quotes. -/
def escapeChar (c : Char) : String :=
  if c = '\x00' then "\\0"
  else if c = '\t' then "\\t"
  else if c = '\r' then "\\r"
  else if c = '\n' then "\\n"
  else if c = '"' then "\\\""
  else if c = '\\' then "\\\\"
  else if isUnprintable c then
    "\\u\x7b" ++ String.ofList (Nat.toDigits 16 c.toNat) ++ "\x7d"
  else String.singleton c

/-- The text in double quotes. -/
def quoted (s : String) : String :=
  "\"" ++ String.join (s.toList.map escapeChar) ++ "\""

end Kode.Text
