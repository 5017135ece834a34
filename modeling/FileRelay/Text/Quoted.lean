import FileRelay.Text.Printable

/-!
# Text/Quoted — a text between quotes, every character visible

Messages that name a text they could not read show it **quoted**: between double quotes, with a
backslash before a quote or a backslash, the usual letters for tab, line feed, carriage return and
the null character, and the code point of every other character that would not be seen.
-/

namespace FileRelay.Text

/-- The code point of a character in lower-case hexadecimal between braces. -/
def codePointEscape (c : Char) : List Char :=
  ['\\', 'u', '\x7b'] ++ Nat.toDigits 16 c.toNat ++ ['\x7d']

/-- One character of a quoted text. -/
def quotedChar (c : Char) : List Char :=
  if c == '\x00' then ['\\', '0']
  else if c == '\t' then ['\\', 't']
  else if c == '\r' then ['\\', 'r']
  else if c == '\n' then ['\\', 'n']
  else if c == '\\' then ['\\', '\\']
  else if c == '\x22' then ['\\', '\x22']
  else if isPrintable c then [c]
  else codePointEscape c

/-- **The quoted form of a text.** -/
def quoted (s : String) : String :=
  String.ofList ('\x22' :: (s.toList.flatMap quotedChar ++ ['\x22']))

end FileRelay.Text
