import BlockScript.Text.Unprinted

/-!
# Quoted text

How a listing shows a text: between double quotes, with a backslash before a quote or a backslash,
short escapes for the usual control characters, and the code point of every other character that
would not show (`isUnprinted`). A quoted text therefore holds no bare quote and no line break.
-/

namespace BlockScript.Text

/-- The digits of a code point in base sixteen. -/
def hexDigits (n : Nat) : List Char :=
  Nat.toDigits 16 n

/-- What quoted text writes for one character. -/
def quoteChar (c : Char) : List Char :=
  if c = '\x00' then ['\\', '0']
  else if c = '\t' then ['\\', 't']
  else if c = '\r' then ['\\', 'r']
  else if c = '\n' then ['\\', 'n']
  else if c = '\\' then ['\\', '\\']
  else if c = '"' then ['\\', '"']
  else if isUnprinted c then ['\\', 'u', '\x7b'] ++ hexDigits c.toNat ++ ['\x7d']
  else [c]

/-- The text between double quotes. -/
def quotedChars (cs : List Char) : List Char :=
  '"' :: (cs.flatMap quoteChar ++ ['"'])

/-- The text between double quotes. -/
def quoted (s : String) : String :=
  String.ofList (quotedChars s.toList)

end BlockScript.Text
