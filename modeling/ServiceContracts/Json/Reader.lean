import ServiceContracts.Json.Literal

/-!
# Reading JSON text

`Json.parse?` reads one value that takes up the whole text. It goes through the text one character at a time,
with the containers that are still open on a stack, so it needs no recursion but that on the text. Arrays and
objects may nest 127 deep. A key that comes twice keeps its first place and takes its last value.
-/

namespace ServiceContracts.Json

namespace Reader

/-- A container that is still open: an array with its items so far, latest first, or an object with its
members so far and the key whose value is read next. -/
inductive Frame where
  | array (items : List Json)
  | object (members : Entries String Json) (key : String)

/-- Where in a string the reader is: between characters, after a backslash, among the digits of an escape with
some left to come, or between the two halves of a surrogate pair. -/
inductive Within where
  | plain
  | escape
  | digits (left code : Nat) (high : Option Nat)
  | pair (high : Nat)
  | pairEscape (high : Nat)

/-- What the reader is in the middle of. Texts and numbers hold their characters latest first. -/
inductive Mode where
  /-- A value has to start. -/
  | value
  /-- A value has to start, or the array ends. -/
  | firstItem
  /-- A key has to start; an object that has just been opened may end instead. -/
  | key (members : Entries String Json) (mayEnd : Bool)
  /-- The colon after a key. -/
  | colon (members : Entries String Json) (key : String)
  /-- An item or a member of the innermost container is complete. -/
  | complete
  /-- The whole value is complete. -/
  | done (v : Json)
  /-- Inside a string, which is a key of an object with these members or else a value. -/
  | text (keyOf : Option (Entries String Json)) (chars : List Char) (within : Within)
  /-- Inside `null`, `true` or `false`, with characters left. -/
  | word (left : List Char) (v : Json)
  | number (chars : List Char)

/-- The state of the reader. -/
structure State where
  frames : List Frame
  mode : Mode

/-- How deep containers may nest. -/
def maxDepth : Nat := 127

/-- White space between tokens. -/
def isGap (c : Char) : Bool := c = ' ' || c = '\t' || c = '\n' || c = '\r'

/-- A character that can belong to a number. -/
def isNumeric (c : Char) : Bool :=
  c.isDigit || c = '-' || c = '+' || c = '.' || c = 'e' || c = 'E'

/-- A value is complete: it is the whole, or it goes into the innermost container. -/
def finish (v : Json) : List Frame → State
  | [] => ⟨[], .done v⟩
  | .array items :: rest => ⟨.array (v :: items) :: rest, .complete⟩
  | .object members key :: rest => ⟨.object (Entries.set members key v) key :: rest, .complete⟩

/-- Starts an array or an object inside the open ones, unless they are too many. -/
def enter (frames : List Frame) (inner : State) : Option State :=
  if frames.length < maxDepth then some inner else none

/-- The first character of a value. -/
def start (frames : List Frame) (c : Char) : Option State :=
  if isGap c then some ⟨frames, .value⟩
  else if c = '[' then enter frames ⟨.array [] :: frames, .firstItem⟩
  else if c = '\x7b' then enter frames ⟨frames, .key [] true⟩
  else if c = '\"' then some ⟨frames, .text none [] .plain⟩
  else if c = 'n' then some ⟨frames, .word ['u', 'l', 'l'] .null⟩
  else if c = 't' then some ⟨frames, .word ['r', 'u', 'e'] (.boolean true)⟩
  else if c = 'f' then some ⟨frames, .word ['a', 'l', 's', 'e'] (.boolean false)⟩
  else if c = '-' || c.isDigit then some ⟨frames, .number [c]⟩
  else none

/-- After an item or a member: a comma, or the end of the container. -/
def next (frames : List Frame) (c : Char) : Option State :=
  if isGap c then some ⟨frames, .complete⟩
  else match frames with
    | .array items :: rest =>
      if c = ',' then some ⟨frames, .value⟩
      else if c = ']' then some (finish (.array items.reverse) rest)
      else none
    | .object members _ :: rest =>
      if c = ',' then some ⟨rest, .key members false⟩
      else if c = '\x7d' then some (finish (.object members) rest)
      else none
    | [] => none

/-- The value of a hexadecimal digit. -/
def hexValue? (c : Char) : Option Nat :=
  if c.isDigit then some (c.toNat - '0'.toNat)
  else if 'a' ≤ c ∧ c ≤ 'f' then some (c.toNat - 'a'.toNat + 10)
  else if 'A' ≤ c ∧ c ≤ 'F' then some (c.toNat - 'A'.toNat + 10)
  else none

/-- The character of a one-letter escape. -/
def escaped? (c : Char) : Option Char :=
  if c = '\"' ∨ c = '\\' ∨ c = '/' then some c
  else if c = 'b' then some '\x08'
  else if c = 'f' then some '\x0c'
  else if c = 'n' then some '\n'
  else if c = 'r' then some '\r'
  else if c = 't' then some '\t'
  else none

/-- A code unit is complete. A high surrogate waits for its low half, a lone low half is refused, and the two
halves together make one character. -/
def unit (chars : List Char) (code : Nat) : Option Nat → Option (List Char × Within)
  | none =>
    if 0xD800 ≤ code ∧ code < 0xDC00 then some (chars, .pair code)
    else if 0xDC00 ≤ code ∧ code < 0xE000 then none
    else some (Char.ofNat code :: chars, .plain)
  | some high =>
    if 0xDC00 ≤ code ∧ code < 0xE000 then
      some (Char.ofNat (0x10000 + (high - 0xD800) * 0x400 + (code - 0xDC00)) :: chars, .plain)
    else none

/-- A character inside a string, other than the quotation mark that ends it. -/
def inText (chars : List Char) (c : Char) : Within → Option (List Char × Within)
  | .plain =>
    if c = '\\' then some (chars, .escape)
    else if c.toNat < 0x20 then none
    else some (c :: chars, .plain)
  | .escape =>
    if c = 'u' then some (chars, .digits 4 0 none)
    else (escaped? c).map fun e => (e :: chars, .plain)
  | .digits left code high => (hexValue? c).bind fun d =>
    if left ≤ 1 then unit chars (16 * code + d) high
    else some (chars, .digits (left - 1) (16 * code + d) high)
  | .pair high => if c = '\\' then some (chars, .pairEscape high) else none
  | .pairEscape high => if c = 'u' then some (chars, .digits 4 0 (some high)) else none

/-- A string is complete: a key waits for its colon. -/
def endText (frames : List Frame) (s : String) : Option (Entries String Json) → State
  | none => finish (.string s) frames
  | some members => ⟨frames, .colon members s⟩

/-- A character after a complete value. -/
def afterValue (state : State) (c : Char) : Option State :=
  match state.mode with
  | .done v => if isGap c then some ⟨[], .done v⟩ else none
  | _ => next state.frames c

/-- One character. -/
def step (state : State) (c : Char) : Option State :=
  match state.mode with
  | .value => start state.frames c
  | .firstItem =>
    match state.frames with
    | .array [] :: rest =>
      if c = ']' then some (finish (.array []) rest)
      else if isGap c then some state
      else start state.frames c
    | _ => none
  | .key members mayEnd =>
    if isGap c then some state
    else if c = '\"' then some ⟨state.frames, .text (some members) [] .plain⟩
    else if mayEnd && c = '\x7d' then some (finish (.object []) state.frames)
    else none
  | .colon members key =>
    if isGap c then some state
    else if c = ':' then some ⟨.object members key :: state.frames, .value⟩
    else none
  | .complete => afterValue state c
  | .done _ => afterValue state c
  | .text keyOf chars within =>
    match within, c with
    | .plain, '\"' => some (endText state.frames (String.ofList chars.reverse) keyOf)
    | _, _ => (inText chars c within).map fun r => ⟨state.frames, .text keyOf r.1 r.2⟩
  | .word left v =>
    match left with
    | [] => none
    | [l] => if c = l then some (finish v state.frames) else none
    | l :: more => if c = l then some ⟨state.frames, .word more v⟩ else none
  | .number chars =>
    if isNumeric c then some ⟨state.frames, .number (c :: chars)⟩
    else (Number.ofLiteral? chars.reverse).bind fun n => afterValue (finish (.number n) state.frames) c

/-- The value, once the text has ended. -/
def result? (state : State) : Option Json :=
  match state.mode, state.frames with
  | .done v, _ => some v
  | .number chars, [] => (Number.ofLiteral? chars.reverse).map .number
  | _, _ => none

end Reader

/-- The value that a text denotes, if it is JSON. -/
def parse? (text : String) : Option Json :=
  (text.toList.foldlM Reader.step ⟨[], .value⟩).bind Reader.result?

end ServiceContracts.Json
