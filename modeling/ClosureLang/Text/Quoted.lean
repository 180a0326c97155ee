import ClosureLang.Text.Invisible

namespace ClosureLang

/-- The code point of a character in lower-case hexadecimal between braces. -/
def codePointEscape (c : Char) : List Char :=
  '\\' :: 'u' :: '\x7b' :: Nat.toDigits 16 c.toNat ++ ['\x7d']

/-- How one character is written between double quotes. -/
def escapeChar (c : Char) : List Char :=
  if c = '\x00' then ['\\', '0']
  else if c = '\t' then ['\\', 't']
  else if c = '\r' then ['\\', 'r']
  else if c = '\n' then ['\\', 'n']
  else if c = '\\' ∨ c = '"' then ['\\', c]
  else if isInvisible c then codePointEscape c
  else [c]

/-- A string between double quotes, with its characters escaped. -/
def quote (s : String) : String :=
  .ofList ('"' :: s.toList.flatMap escapeChar ++ ['"'])

end ClosureLang
