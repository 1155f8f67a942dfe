import ServiceContracts.Binary64.Text
import ServiceContracts.Json.Basic

/-!
# Writing JSON text

`Json.compact` writes a value without any space, `Json.pretty` with one item or member a line and two spaces of
indentation a level. Both keep the order of members, and escape in strings what JSON requires and nothing else.
-/

namespace ServiceContracts.Json

/-- Two lower-case hexadecimal digits. -/
def twoHexDigits (n : Nat) : String :=
  String.ofList [Nat.digitChar (n / 16 % 16), Nat.digitChar (n % 16)]

/-- A character inside a string literal. -/
def escapeChar (c : Char) : String :=
  if c = '\"' then "\\\""
  else if c = '\\' then "\\\\"
  else if c = '\x08' then "\\b"
  else if c = '\x0c' then "\\f"
  else if c = '\n' then "\\n"
  else if c = '\r' then "\\r"
  else if c = '\t' then "\\t"
  else if c.toNat < 0x20 then "\\u00" ++ twoHexDigits c.toNat
  else c.toString

/-- The literal of a string. -/
def quote (s : String) : String :=
  "\"" ++ s.toList.foldl (fun out c => out ++ escapeChar c) "" ++ "\""

/-- The literal of a number. -/
def Number.text : Number → String
  | .whole n => toString n.val
  | .double x => x.text

/-- What stands between the tokens of a value. -/
structure Spacing where
  /-- In front of an item or a member at a level, and of the end of a container. -/
  gap : Nat → String
  /-- Between a key and its value. -/
  colon : String

/-- No space at all. -/
def Spacing.none : Spacing := ⟨fun _ => "", ":"⟩

/-- Every item and every member on a line of its own, indented by two spaces a level. -/
def Spacing.lines : Spacing :=
  ⟨fun level => "\n" ++ String.ofList (List.replicate (2 * level) ' '), ": "⟩

/-- The parts of a container between its brackets, with gaps in front of them and of the end; an empty one has no
gap. -/
def enclosed (left right before after : String) (parts : List String) : String :=
  match parts with
  | [] => left ++ right
  | _ => left ++ before ++ ("," ++ before).intercalate parts ++ after ++ right

mutual

/-- The value, from a level of nesting on. -/
def printed (f : Spacing) (level : Nat) : Json → String
  | .null => "null"
  | .boolean b => if b then "true" else "false"
  | .number n => n.text
  | .string s => quote s
  | .array items => enclosed "[" "]" (f.gap (level + 1)) (f.gap level) (printedItems f (level + 1) items)
  | .object members =>
    enclosed "\x7b" "\x7d" (f.gap (level + 1)) (f.gap level) (printedMembers f (level + 1) members)

/-- Each item. -/
def printedItems (f : Spacing) (level : Nat) : List Json → List String
  | [] => []
  | item :: rest => printed f level item :: printedItems f level rest

/-- Each member, as key and value. -/
def printedMembers (f : Spacing) (level : Nat) : List (String × Json) → List String
  | [] => []
  | (key, value) :: rest => (quote key ++ f.colon ++ printed f level value) :: printedMembers f level rest

end

/-- The value without any space. -/
def compact (v : Json) : String := printed .none 0 v

/-- The value over several lines. -/
def pretty (v : Json) : String := printed .lines 0 v

end ServiceContracts.Json
