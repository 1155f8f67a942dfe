import ServiceContracts.Definition.Loader

/-!
# Command-line arguments

The arguments are read from left to right: options for all commands, the name of a command, and that command's
options and paths in any order. An option takes its value from behind an equals sign or from the next argument;
one-letter options also take it directly. No option may come twice at one level, and a value that looks like an
option has to be attached.
-/

namespace ServiceContracts.Command

open Definition (Limits)

/-- How results are written. -/
inductive Format where
  | json
  | table
  | pretty
  deriving DecidableEq

/-- The definitions that a command works on. -/
structure Definitions where
  paths : List String
  limits : Limits

/-- Where a payload comes from. -/
inductive PayloadSource where
  | text (json : String)
  | file (path : String)

/-- What to validate, and how. -/
structure Validation where
  service : String
  operation : String
  side : Side
  payload : PayloadSource
  config : Config

/-- What to do. -/
inductive Action where
  | check (definitions : Definitions)
  | list (definitions : Definitions) (service : Option String)
  | validate (definitions : Definitions) (validation : Validation)
  | version

/-- What to do, and the format of the result. -/
structure Invocation where
  format : Format
  action : Action

namespace Arguments

-- Powers are those of the core library here, whichever others are in scope.
attribute [local instance (high)] instPowNat

/-- An option: its names, and the values it takes, if it takes any. -/
structure OptionRule where
  long : String
  short : Option Char
  accepts : Option (String → Bool)

/-- The value of an unsigned 64-bit number in decimal digits. -/
def number? (s : String) : Option Nat :=
  let digits := match s.toList with
    | '+' :: digits => digits
    | digits => digits
  if digits ≠ [] ∧ digits.all Char.isDigit then
    let n := digits.foldl (fun n c => 10 * n + (c.toNat - '0'.toNat)) 0
    if n < 2 ^ (64 : Nat) then some n else none
  else none

/-- The format of a name. -/
def format? : String → Option Format
  | "json" => some .json
  | "table" => some .table
  | "pretty" => some .pretty
  | _ => none

/-- An option without a value. -/
def flag (long : String) : OptionRule := ⟨long, none, none⟩

/-- An option with a value that the test accepts. -/
def valued (long : String) (short : Option Char) (accepts : String → Bool) : OptionRule :=
  ⟨long, short, some accepts⟩

/-- The options of all commands. -/
def commonRules : List OptionRule :=
  [valued "format" none fun v => (format? v).isSome,
    valued "log-format" none fun v => v ∈ ["text", "json"],
    valued "log-level" none fun v => v ∈ ["off", "error", "warn", "info", "debug", "trace"]]

/-- The options of the commands that load definitions. -/
def definitionRules : List OptionRule :=
  [valued "max-documents" none fun v => (number? v).isSome,
    valued "max-document-size" none fun v => (number? v).isSome]

/-- The options of a command, if there is one of the name. -/
def rulesOf? : String → Option (List OptionRule)
  | "check" => some (commonRules ++ definitionRules)
  | "list" => some (commonRules ++ definitionRules ++ [valued "service" none fun _ => true])
  | "validate" =>
    some (commonRules ++ definitionRules ++
      [valued "service" (some 's') fun _ => true, valued "operation" (some 'o') fun _ => true,
        valued "json" none fun _ => true, valued "file" none fun v => v ≠ "",
        flag "output", flag "strict", flag "compact"])
  | "version" => some commonRules
  | _ => none

/-- What has been given so far: options with their values, flags with an empty one, and plain arguments. -/
structure Given where
  options : Entries String String
  plain : List String

namespace Given

/-- Nothing yet. -/
def nothing : Given := ⟨[], []⟩

/-- Adds an option, unless it has been given. -/
def addOption (g : Given) (name value : String) : Option Given :=
  if Entries.has g.options name then none
  else some { g with options := g.options ++ [(name, value)] }

/-- The value of an option. -/
def value? (g : Given) (name : String) : Option String := Entries.get? g.options name

/-- Has the flag been given? -/
def isSet (g : Given) (name : String) : Bool := Entries.has g.options name

end Given

/-- One argument, taken apart. -/
inductive Token where
  /-- Only plain arguments follow. -/
  | separator
  | plain (value : String)
  /-- An option with the value attached to it, if there is one. -/
  | option (rule : OptionRule) (attached : Option String)
  /-- Asks for the version. -/
  | version
  | unknown

/-- Cuts a text at the first equals sign. -/
def cutAtEquals (s : List Char) : String × Option String :=
  let name := String.ofList (s.takeWhile (· ≠ '='))
  match s.dropWhile (· ≠ '=') with
  | _ :: value => (name, some (String.ofList value))
  | [] => (name, none)

/-- The value attached to a one-letter option; an equals sign before it is dropped. -/
def attachedToShort : List Char → Option String
  | [] => none
  | '=' :: value => some (String.ofList value)
  | value => some (String.ofList value)

/-- Takes an argument apart. The version can be asked for before a command only. -/
def tokenOf (rules : List OptionRule) (beforeCommand : Bool) (argument : String) : Token :=
  match argument.toList with
  | ['-', '-'] => .separator
  | '-' :: '-' :: rest =>
    let (name, value) := cutAtEquals rest
    if beforeCommand && name = "version" then if value.isNone then .version else .unknown
    else
      match rules.find? fun r => r.long = name with
      | some rule => .option rule value
      | none => .unknown
  | '-' :: c :: rest =>
    if beforeCommand && c = 'V' then .version
    else
      match rules.find? fun r => r.short = some c with
      | some rule => .option rule (attachedToShort rest)
      | none => .unknown
  | _ => .plain argument

/-- Would the argument be taken for an option? -/
def looksLikeOption (argument : String) : Bool :=
  match argument.toList with
  | '-' :: _ :: _ => true
  | _ => false

/-- How reading the options of one level ends. -/
inductive Scan where
  /-- All arguments are read. -/
  | finished (given : Given)
  /-- A command's name was found, with arguments after it. -/
  | command (given : Given) (name : String) (rest : List String)
  | version
  | failed

/-- Reads the options of one level. Before the command the first plain argument is its name; after it plain
arguments are collected. -/
def scan (rules : List OptionRule) (beforeCommand : Bool) (given : Given) : List String → Scan
  | [] => .finished given
  | argument :: rest =>
    match tokenOf rules beforeCommand argument with
    | .separator =>
      if beforeCommand || rest.any (· = "") then .failed
      else .finished { given with plain := given.plain ++ rest }
    | .plain value =>
      if beforeCommand then .command given value rest
      else if value = "" then .failed
      else scan rules beforeCommand { given with plain := given.plain ++ [value] } rest
    | .option ⟨name, _, none⟩ attached =>
      match attached, given.addOption name "" with
      | none, some given => scan rules beforeCommand given rest
      | _, _ => .failed
    | .option ⟨name, _, some accepts⟩ (some value) =>
      match given.addOption name value with
      | some given => if accepts value then scan rules beforeCommand given rest else .failed
      | none => .failed
    | .option ⟨name, _, some accepts⟩ none =>
      match rest with
      | [] => .failed
      | value :: rest =>
        match given.addOption name value with
        | some given =>
          if accepts value && !looksLikeOption value then scan rules beforeCommand given rest
          else .failed
        | none => .failed
    | .version => .version
    | .unknown => .failed

/-- The definitions given to a command: at least one path. -/
def definitions? (given : Given) : Option Definitions :=
  match given.plain with
  | [] => none
  | paths => some
    { paths
      limits :=
        { documents := ((given.value? "max-documents").bind number?).getD Limits.standard.documents
          bytes := ((given.value? "max-document-size").bind number?).getD Limits.standard.bytes } }

/-- The source of the payload: a text or a file, and not both. -/
def payload? (given : Given) : Option PayloadSource :=
  match given.value? "json", given.value? "file" with
  | some json, none => some (.text json)
  | none, some path => some (.file path)
  | _, _ => none

/-- What to validate. -/
def validation? (given : Given) : Option Validation := do
  let service ← given.value? "service"
  let operation ← given.value? "operation"
  let payload ← payload? given
  return ⟨service, operation, if given.isSet "output" then .output else .input, payload,
    ⟨given.isSet "strict", given.isSet "compact"⟩⟩

/-- What a command of this name does with what was given to it. -/
def action? (name : String) (given : Given) : Option Action :=
  match name with
  | "check" => (definitions? given).map .check
  | "list" => (definitions? given).map fun d => .list d (given.value? "service")
  | "validate" => do return .validate (← definitions? given) (← validation? given)
  | "version" => if given.plain.isEmpty then some .version else none
  | _ => none

/-- What the arguments ask for, unless they are at fault. Without a format results are written as JSON, and a
format after the command's name overrides one before it. -/
def parse? (arguments : List String) : Option Invocation :=
  match scan commonRules true .nothing arguments with
  | .version => some ⟨.json, .version⟩
  | .command outer name rest => do
    let rules ← rulesOf? name
    match scan rules false .nothing rest with
    | .finished given =>
      let action ← action? name given
      let format := ((given.value? "format").or (outer.value? "format")).bind format?
      return ⟨format.getD .json, action⟩
    | _ => none
  | _ => none

end Arguments

end ServiceContracts.Command
