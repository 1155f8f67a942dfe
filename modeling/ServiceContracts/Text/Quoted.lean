import ServiceContracts.Text.Unprintable

/-!
# Quoted names

A report shows a name in double quotes, with a backslash before quotes and backslashes, letters for the common
controls, and the code point in braces for every other character that cannot be shown as it is.
-/

namespace ServiceContracts.Text

/-- The code point of a character in lower-case hexadecimal, in braces. -/
def escapedCode (c : Char) : String :=
  "\\u\x7b" ++ String.ofList (Nat.toDigits 16 c.toNat) ++ "\x7d"

/-- A character inside quotes. -/
def quotedChar (c : Char) : String :=
  if c = '\x00' then "\\0"
  else if c = '\t' then "\\t"
  else if c = '\r' then "\\r"
  else if c = '\n' then "\\n"
  else if c = '\"' then "\\\""
  else if c = '\\' then "\\\\"
  else if isUnprintable c then escapedCode c
  else c.toString

/-- A text in quotes, on one line and without invisible characters. -/
def quoted (s : String) : String :=
  "\"" ++ s.toList.foldl (fun out c => out ++ quotedChar c) "" ++ "\""

end ServiceContracts.Text
