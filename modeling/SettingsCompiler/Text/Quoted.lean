import SettingsCompiler.Text.Printable

/-!
# Text quoted in a diagnostic

`quoted` shows a text on one line between double quotes : quotes, backslashes and the
usual controls as two characters, every other character that cannot be shown as its code
point in hexadecimal, and the rest as it is.
-/

namespace SettingsCompiler.Text

/-- The digits of `n` in base sixteen, in lower case. -/
def hexDigits (n : Nat) : List Char :=
  Nat.toDigits 16 n

/-- A character as it stands between double quotes. -/
def showQuoted (c : Char) : List Char :=
  if c = '\x22' then ['\\', '\x22']
  else if c = '\\' then ['\\', '\\']
  else if c = '\n' then ['\\', 'n']
  else if c = '\t' then ['\\', 't']
  else if c = '\r' then ['\\', 'r']
  else if c = '\x00' then ['\\', '0']
  else if isExtending c || isUnprintable c then
    ['\\', 'u', '\x7b'] ++ hexDigits c.toNat ++ ['\x7d']
  else [c]

/-- The text between double quotes. -/
def quoted (s : String) : String :=
  String.ofList ('\x22' :: s.toList.flatMap showQuoted ++ ['\x22'])

end SettingsCompiler.Text
