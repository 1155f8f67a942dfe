import ServiceContracts.Proofs.Command.Listing
import ServiceContracts.Proofs.Command.Normalizing
import ServiceContracts.Proofs.Definition.Failures
/-!
# Who is to blame

A command ends in 1 when something is not read (`Action.Unread`), in 64
when it asks for what is not there (`Action.Unknown`), in 60 when the
data is at fault (`Action.Invalid`), and else in 0. Each of these says
what there is at the paths and in the documents, and nothing of how the
command goes about it.

Each leads to its code, and one of them holds or the code is 0
(`Action.ends`). So they exclude each other, and no command ends in 125,
the code for a fault of its own.
-/


namespace ServiceContracts.Command

open Definition

variable {library : JsonSchema.Library} {parser : DocumentParser} {tree : FileTree}
  {d : Definitions} {v : Validation} {r : Registry} {schema : Schema}
  {a : Action} {format : Format}

/-! ## Three kinds of fault -/

/-- The definitions that are loaded for an action. -/
def Action.definitions? : Action → Option Definitions
  | .check d => some d
  | .list d _ => some d
  | .validate d _ => some d
  | .version => none

/-- **Definitions load as a registry**: there is no failure on the way, and
the documents build. -/
structure Definitions.Loads (d : Definitions) (parser : DocumentParser) (tree : FileTree)
    (r : Registry) : Prop where
  met : firstFailure? (d.met parser tree) = none
  build : buildRegistry (d.sources parser tree) = .ok r

/-- The schema that a validation is about. -/
def Validation.Finds (v : Validation) (r : Registry) (schema : Schema) : Prop :=
  ∃ op, r.Offers v.service op ∧ op.wire = v.operation ∧ op.schema? v.side = some schema

/-- **Something is not read**: it is what the load fails at first, or it is
the payload, when all before it has succeeded. -/
inductive Action.Unread (parser : DocumentParser) (tree : FileTree) : Action → Prop
  | definitions {a : Action} {d : Definitions} {fault : ReadFault} (ha : a.definitions? = some d)
      (h : firstFailure? (d.met parser tree) = some (.unread fault)) : Unread parser tree a
  | payload {d : Definitions} {v : Validation} {r : Registry} {schema : Schema} {path : String}
      (hload : d.Loads parser tree r) (hschema : v.Finds r schema)
      (hsource : v.payload = .file path) (h : tree.find path = .error .notFound) : Unread parser tree (.validate d v)

/-- **Something is asked for that is not there**: a service, an operation, or
a schema on one of its sides. -/
inductive Action.Unknown (parser : DocumentParser) (tree : FileTree) : Action → Prop
  | listed {d : Definitions} {r : Registry} {name : String} (hload : d.Loads parser tree r)
      (h : ∀ s ∈ r.services, s.name ≠ name) : Unknown parser tree (.list d (some name))
  | service {d : Definitions} {v : Validation} {r : Registry} (hload : d.Loads parser tree r)
      (h : ∀ s ∈ r.services, s.name ≠ v.service) : Unknown parser tree (.validate d v)
  | operation {d : Definitions} {v : Validation} {r : Registry} {s : Service}
      (hload : d.Loads parser tree r) (hs : s ∈ r.services) (hname : s.name = v.service)
      (h : ∀ op ∈ s.operations, op.wire ≠ v.operation) : Unknown parser tree (.validate d v)
  | side {d : Definitions} {v : Validation} {r : Registry} {op : Operation}
      (hload : d.Loads parser tree r) (hop : r.Offers v.service op) (hwire : op.wire = v.operation)
      (h : op.schema? v.side = none) : Unknown parser tree (.validate d v)

/-- **The data is at fault**: a document that the load fails at first, the
documents together, or the payload, when all before it has succeeded. -/
inductive Action.Invalid (parser : DocumentParser) (tree : FileTree) : Action → Prop
  | document {a : Action} {d : Definitions} {error : LoadError} (ha : a.definitions? = some d)
      (h : firstFailure? (d.met parser tree) = some (.rejected error)) : Invalid parser tree a
  | build {a : Action} {d : Definitions} {error : LoadError} (ha : a.definitions? = some d)
      (hmet : firstFailure? (d.met parser tree) = none)
      (h : buildRegistry (d.sources parser tree) = .error error) : Invalid parser tree a
  | bytes {d : Definitions} {v : Validation} {r : Registry} {schema : Schema} {path : String}
      {content : ByteArray} (hload : d.Loads parser tree r) (hschema : v.Finds r schema)
      (hsource : v.payload = .file path) (hfile : tree.find path = .ok (.file content))
      (h : String.fromUTF8? content = none) : Invalid parser tree (.validate d v)
  | text {d : Definitions} {v : Validation} {r : Registry} {schema : Schema} {text : String}
      (hload : d.Loads parser tree r) (hschema : v.Finds r schema)
      (htext : v.payload.HasText tree text) (h : Json.parse? text = none) : Invalid parser tree (.validate d v)
  | payload {d : Definitions} {v : Validation} {r : Registry} {schema : Schema} {text : String}
      {payload : Json} (hload : d.Loads parser tree r) (hschema : v.Finds r schema)
      (htext : v.payload.HasText tree text) (hparse : Json.parse? text = some payload)
      (h : schema.reports v.config.strict "" payload ≠ []) : Invalid parser tree (.validate d v)

/-! ## The codes of failures -/

/-- What rejects a text is no fault of reading, nor of the registry. -/
theorem loadCode_of_parse {origin text : String} {error : LoadError}
    (h : parser.parse origin text = .error error) : Failure.loadCode error = 60 := by
  unfold DocumentParser.parse at h
  split at h
  · cases h
    rfl
  · unfold DocumentParser.parseValue at h
    split at h
    · split at h
      · split at h <;> cases h
        rfl
      · cases h
        rfl
    · cases h
      rfl

theorem loadCode_of_ofNode {limits : Limits} {path : String} {node : FileNode} {error : LoadError}
    (h : Finding.ofNode parser limits path node = .rejected error) :
    Failure.loadCode error = 60 := by
  unfold Finding.ofNode Finding.ofText at h
  split at h
  · split at h
    · cases h
    · next hparse =>
      cases h
      exact loadCode_of_parse hparse
  · cases h

theorem loadCode_of_met {error : LoadError} (h : .rejected error ∈ d.met parser tree) :
    Failure.loadCode error = 60 := by
  obtain ⟨fault, hunread⟩ | ⟨path, node, hnode⟩ := cases_of_mem_findings h
  · cases hunread
  · exact loadCode_of_ofNode hnode.symm

theorem loadCode_of_build {sources : List Source} {error : LoadError}
    (h : buildRegistry sources = .error error) : Failure.loadCode error = 60 := by
  have hjustified : Justified (declarations sources) (services sources) error :=
    Loader.justified_of_build (l := ⟨Grammar.parser, .standard, sources⟩) h
  cases hjustified with
  | registry hd hrefused =>
    cases hrefused with
    | operation hop hrefused => cases hrefused <;> rfl
    | _ => rfl
  | _ => rfl

/-! ## Each kind has its code -/

/-- A load that fails is what the command fails with. -/
theorem code_of_loadDefinitions {failure : Failure} (ha : a.definitions? = some d)
    (h : loadDefinitions library tree d = .error failure) :
    (execute library tree ⟨format, a⟩).code = failure.code := by
  cases a with
  | check e =>
    obtain rfl := Option.some.inj ha
    simp only [execute, check, h]
    rfl
  | list e service =>
    obtain rfl := Option.some.inj ha
    simp only [execute, list, h]
    rfl
  | validate e v =>
    obtain rfl := Option.some.inj ha
    simp only [execute, validate, h]
    rfl
  | version => cases ha

theorem code_of_validate {failure : Failure} (h : validate library tree d v = .error failure) :
    (execute library tree ⟨format, .validate d v⟩).code = failure.code := by
  simp only [execute, h]
  rfl

/-- What is loaded is the registry, sealed. -/
theorem Definitions.Loads.loaded (hparser : DocumentParser.new library = .ok parser)
    (h : d.Loads parser tree r) :
    loadDefinitions library tree d = .ok ⟨r.sealed, (d.sources parser tree).length⟩ :=
  (loadDefinitions_eq_ok_iff hparser).mpr ⟨h.met, r, h.build, rfl⟩

/-- Sealing changes nothing about look-ups. -/
theorem Definitions.Loads.indexed (hparser : DocumentParser.new library = .ok parser)
    (h : d.Loads parser tree r) : r.sealed.Indexed :=
  (holds_of_loadDefinitions hparser (h.loaded hparser)).indexed

/-- So a validation comes to its payload. -/
theorem Validation.Finds.validate_eq (hparser : DocumentParser.new library = .ok parser)
    (h : v.Finds r schema) (hload : d.Loads parser tree r) :
    schema.Built ∧ ∃ wire, validate library tree d v =
      (readPayload tree v.payload).bind fun payload =>
        (normalize schema v.config payload).map fun result =>
        ⟨v.service, wire, v.side, schema.name, result⟩ := by
  obtain ⟨op, hoffers, hwire, hside⟩ := h
  have hop := (hload.indexed hparser).resolve_eq_ok_iff.mpr ⟨hoffers, hwire⟩
  have hloaded := hload.loaded hparser
  have hbuilt := ((holds_of_loadDefinitions hparser hloaded).schemasBuilt hop).built hside
  exact ⟨hbuilt, op.wire, validate_of_schema hloaded hop hside⟩

/-- A payload that is not read or not JSON ends the validation. -/
theorem Validation.Finds.code_of_readPayload {failure : Failure}
    (hparser : DocumentParser.new library = .ok parser) (h : v.Finds r schema)
    (hload : d.Loads parser tree r) (hpayload : readPayload tree v.payload = .error failure) :
    (execute library tree ⟨format, .validate d v⟩).code = failure.code := by
  obtain ⟨-, wire, hvalidate⟩ := h.validate_eq hparser hload
  refine code_of_validate ?_
  rw [hvalidate, hpayload]
  rfl

/-- And otherwise it has a result. -/
theorem Validation.Finds.code_of_normalize {payload : Json} {result : Except FieldErrors Json}
    (hparser : DocumentParser.new library = .ok parser) (h : v.Finds r schema)
    (hload : d.Loads parser tree r) (hpayload : readPayload tree v.payload = .ok payload)
    (hresult : normalize schema v.config payload = .ok result) :
    (execute library tree ⟨format, .validate d v⟩).code = resultCode result := by
  obtain ⟨-, wire, hvalidate⟩ := h.validate_eq hparser hload
  rw [hpayload, Except.bind, hresult] at hvalidate
  simp only [execute, hvalidate]
  rfl

theorem Action.Unread.code_eq (hparser : DocumentParser.new library = .ok parser)
    (h : a.Unread parser tree) : (execute library tree ⟨format, a⟩).code = 1 := by
  cases h with
  | @definitions _ d fault ha h =>
    have hloaded : loadDefinitions library tree d = .error (.load (.notRead fault)) := by
      rw [loadDefinitions_eq hparser, h]
    exact code_of_loadDefinitions ha hloaded
  | @payload d v r schema path hload hschema hsource h =>
    have hread : tree.readText path = .error .notFound := by rw [FileTree.readText, h]
    have hpayload := hsource ▸ readPayload_of_unread hread
    exact hschema.code_of_readPayload hparser hload hpayload

theorem Action.Unknown.code_eq (hparser : DocumentParser.new library = .ok parser)
    (h : a.Unknown parser tree) : (execute library tree ⟨format, a⟩).code = 64 := by
  cases h with
  | listed hload h =>
    have hnone := (hload.indexed hparser).service?_eq_none_iff.mpr h
    exact execute_list_unknown (hload.loaded hparser) hnone format
  | @service d v r hload h =>
    have hop : r.sealed.resolve v.service v.operation = .error (.unknownService v.service) :=
      (hload.indexed hparser).resolve_eq_error_iff.mpr (.inl ⟨rfl, h⟩)
    exact code_of_validate (validate_of_unresolved (hload.loaded hparser) hop)
  | @operation d v r s hload hs hname h =>
    have hop : r.sealed.resolve v.service v.operation =
        .error (.unknownOperation v.service v.operation) :=
      (hload.indexed hparser).resolve_eq_error_iff.mpr (.inr ⟨rfl, s, hs, hname, h⟩)
    exact code_of_validate (validate_of_unresolved (hload.loaded hparser) hop)
  | side hload hop hwire h =>
    have hop := (hload.indexed hparser).resolve_eq_ok_iff.mpr ⟨hop, hwire⟩
    exact code_of_validate (validate_of_noSchema (hload.loaded hparser) hop h)

theorem Action.Invalid.code_eq (hparser : DocumentParser.new library = .ok parser)
    (h : a.Invalid parser tree) : (execute library tree ⟨format, a⟩).code = 60 := by
  cases h with
  | @document _ d error ha h =>
    have hloaded : loadDefinitions library tree d = .error (.load error) := by
      rw [loadDefinitions_eq hparser, h]
    rw [code_of_loadDefinitions ha hloaded]
    exact loadCode_of_met (List.mem_of_find?_eq_some h)
  | @build _ d error ha hmet h =>
    have hloaded : loadDefinitions library tree d = .error (.load error) := by
      rw [loadDefinitions_eq hparser, hmet]
      simp only [h]
    rw [code_of_loadDefinitions ha hloaded]
    exact loadCode_of_build h
  | @bytes d v r schema path content hload hschema hsource hfile h =>
    have hread : tree.readText path = .error .notUtf8 := by
      rw [FileTree.readText, hfile]
      simp only [h]
    exact hschema.code_of_readPayload hparser hload (hsource ▸ readPayload_of_unread hread)
  | @text d v r schema text hload hschema htext h =>
    have hpayload : readPayload tree v.payload = .error .payloadNotJson := by
      rw [readPayload_of_hasText htext, h]
    exact hschema.code_of_readPayload hparser hload hpayload
  | @payload d v r schema text payload hload hschema htext hparse h =>
    have hpayload : readPayload tree v.payload = .ok payload := by
      rw [readPayload_of_hasText htext, hparse]
    obtain ⟨hbuilt, -⟩ := hschema.validate_eq hparser hload
    obtain ⟨hnil, -⟩ | ⟨-, hrejected⟩ := hbuilt.validate_cases v.config payload
    · exact absurd hnil h
    · exact hschema.code_of_normalize hparser hload hpayload (normalize_of_rejected hrejected)

/-- A payload in a file that can be opened, or that is not there. -/
def Action.PayloadFits (tree : FileTree) : Action → Prop
  | .validate _ v => ∀ path, v.payload = .file path →
    (∃ content, tree.find path = .ok (.file content)) ∨ tree.find path = .error .notFound
  | _ => True

/-- A load succeeds, or ends at what is not read or not valid. -/
theorem Action.loads_or (ha : a.definitions? = some d) (tree : FileTree) :
    (∃ r, d.Loads parser tree r) ∨ a.Unread parser tree ∨ a.Invalid parser tree := by
  cases hfirst : firstFailure? (d.met parser tree) with
  | none =>
    cases hbuild : buildRegistry (d.sources parser tree) with
    | ok r => exact .inl ⟨r, hfirst, hbuild⟩
    | error error => exact .inr (.inr (.build ha hfirst hbuild))
  | some f =>
    have hfails : f.fails = true := List.find?_some hfirst
    cases f with
    | unread fault => exact .inr (.inl (.definitions ha hfirst))
    | rejected error => exact .inr (.inr (.document ha hfirst))
    | document source => cases hfails

/-- With the definitions loaded, a validation finds its schema or asks for
what is not there. -/
theorem Validation.finds_or (hparser : DocumentParser.new library = .ok parser) (v : Validation)
    (hload : d.Loads parser tree r) :
    (∃ schema, v.Finds r schema) ∨ (Action.validate d v).Unknown parser tree := by
  cases hop : r.sealed.resolve v.service v.operation with
  | error error =>
    obtain ⟨-, hservice⟩ | ⟨-, s, hs, hname, hoperation⟩ :=
      (hload.indexed hparser).resolve_eq_error_iff.mp hop
    · exact .inr (.service hload hservice)
    · exact .inr (.operation hload hs hname hoperation)
  | ok op =>
    obtain ⟨hoffers, hwire⟩ := (hload.indexed hparser).resolve_eq_ok_iff.mp hop
    cases hside : op.schema? v.side with
    | none => exact .inr (.side hload hoffers hwire hside)
    | some schema => exact .inl ⟨schema, op, hoffers, hwire, hside⟩

/-- With the schema found, the payload is not read, is at fault, or is
printed. -/
theorem Validation.Finds.ends (hparser : DocumentParser.new library = .ok parser)
    (h : v.Finds r schema) (hload : d.Loads parser tree r)
    (hpayload : (Action.validate d v).PayloadFits tree) (format : Format) :
    (execute library tree ⟨format, .validate d v⟩).code = 0 ∨
      (Action.validate d v).Unread parser tree ∨ (Action.validate d v).Invalid parser tree := by
  obtain ⟨path, error, hsource, hread, -⟩ | ⟨text, htext, hparse, -⟩ |
    ⟨text, payload, htext, hparse, hpayload⟩ := readPayload_cases tree v.payload
  · obtain ⟨content, hfile⟩ | hfile := hpayload path hsource
    · cases hbytes : String.fromUTF8? content with
      | none => exact .inr (.inr (.bytes hload h hsource hfile hbytes))
      | some text =>
        rw [FileTree.readText, hfile] at hread
        simp [hbytes] at hread
    · exact .inr (.inl (.payload hload h hsource hfile))
  · exact .inr (.inr (.text hload h htext hparse))
  · obtain ⟨hbuilt, -⟩ := h.validate_eq hparser hload
    obtain ⟨-, x, hx⟩ | ⟨herrors, -⟩ := hbuilt.validate_cases v.config payload
    · obtain ⟨normal, -, hnormal, -⟩ := normalize_of_validate hbuilt hx
      exact .inl (h.code_of_normalize hparser hload hpayload hnormal)
    · exact .inr (.inr (.payload hload h htext hparse herrors))

/-- With the definitions loaded, a list succeeds or asks for a service that is
not there. -/
theorem Definitions.Loads.list_ends (hparser : DocumentParser.new library = .ok parser)
    (hload : d.Loads parser tree r) (service : Option String)
    (format : Format) :
    (execute library tree ⟨format, .list d service⟩).code = 0 ∨
      (Action.list d service).Unknown parser tree := by
  cases service with
  | none =>
    rw [(execute_list (hload.loaded hparser) format).eq]
    exact .inl rfl
  | some name =>
    cases hfound : r.sealed.service? name with
    | none => exact .inr (.listed hload ((hload.indexed hparser).service?_eq_none_iff.mp hfound))
    | some s =>
      rw [(execute_list_some (hload.loaded hparser) hfound format).eq]
      exact .inl rfl

/-- With the definitions loaded, a command succeeds or there is a fault. -/
theorem Definitions.Loads.ends (hparser : DocumentParser.new library = .ok parser)
    (hload : d.Loads parser tree r) (ha : a.definitions? = some d)
    (hpayload : a.PayloadFits tree) (format : Format) :
    (execute library tree ⟨format, a⟩).code = 0 ∨ a.Unread parser tree ∨ a.Unknown parser tree ∨
      a.Invalid parser tree := by
  cases a with
  | check e =>
    obtain rfl := Option.some.inj ha
    rw [(execute_check (hload.loaded hparser) format).eq]
    exact .inl rfl
  | list e service =>
    obtain rfl := Option.some.inj ha
    obtain hcode | hunknown := hload.list_ends hparser service format
    · exact .inl hcode
    · exact .inr (.inr (.inl hunknown))
  | validate e v =>
    obtain rfl := Option.some.inj ha
    obtain ⟨schema, hschema⟩ | hunknown := v.finds_or hparser hload
    · obtain hcode | hunread | hinvalid := hschema.ends hparser hload hpayload format
      · exact .inl hcode
      · exact .inr (.inl hunread)
      · exact .inr (.inr (.inr hinvalid))
    · exact .inr (.inr (.inl hunknown))
  | version => cases ha

/-- **A command succeeds, or there is a fault.** -/
theorem Action.ends (hparser : DocumentParser.new library = .ok parser)
    (hpayload : a.PayloadFits tree) (format : Format) :
    (execute library tree ⟨format, a⟩).code = 0 ∨ a.Unread parser tree ∨ a.Unknown parser tree ∨
      a.Invalid parser tree := by
  cases hd : a.definitions? with
  | none =>
    cases a with
    | version => exact .inl rfl
    | _ => cases hd
  | some d =>
    obtain ⟨r, hload⟩ | hunread | hinvalid := Action.loads_or hd tree
    · exact hload.ends hparser hd hpayload format
    · exact .inr (.inl hunread)
    · exact .inr (.inr (.inr hinvalid))

/-- **Exit codes say who is to blame**, and it is never the command: 1 for
what is not read, 64 for what is not there, 60 for the data, and 0 where
there is nothing of that. -/
theorem execute_blames (hparser : DocumentParser.new library = .ok parser) (tree : FileTree)
    (i : Invocation) (hpayload : i.action.PayloadFits tree) :
    (execute library tree i).code ≠ 125 ∧
      ((execute library tree i).code = 1 ↔ i.action.Unread parser tree) ∧
      ((execute library tree i).code = 64 ↔ i.action.Unknown parser tree) ∧
      ((execute library tree i).code = 60 ↔ i.action.Invalid parser tree) ∧
      ((execute library tree i).code = 0 ↔
        ¬ i.action.Unread parser tree ∧ ¬ i.action.Unknown parser tree ∧
          ¬ i.action.Invalid parser tree) := by
  obtain ⟨format, a⟩ := i
  have hunread : a.Unread parser tree → (execute library tree ⟨format, a⟩).code = 1 :=
    Action.Unread.code_eq hparser
  have hunknown : a.Unknown parser tree → (execute library tree ⟨format, a⟩).code = 64 :=
    Action.Unknown.code_eq hparser
  have hinvalid : a.Invalid parser tree → (execute library tree ⟨format, a⟩).code = 60 :=
    Action.Invalid.code_eq hparser
  -- the codes differ, so no two faults come together, and none comes with 0
  obtain hcode | h | h | h := Action.ends hparser hpayload format
  · have hnone : ¬ a.Unread parser tree ∧ ¬ a.Unknown parser tree ∧ ¬ a.Invalid parser tree := by
      refine ⟨fun h => ?_, fun h => ?_, fun h => ?_⟩
      · simp [hunread h] at hcode
      · simp [hunknown h] at hcode
      · simp [hinvalid h] at hcode
    simp [hcode, hnone]
  · have hcode := hunread h
    grind
  · have hcode := hunknown h
    grind
  · have hcode := hinvalid h
    grind

namespace Sample

/-- A validation of a file that the tree does not have. -/
def missingValidation : Validation :=
  ⟨"transit", "Stop.Call", .input, .file "stop.json", ⟨true, false⟩⟩

theorem find_missing : callTree.find "stop.json" = .error .notFound := by
  have hnames : FileTree.namesOf "stop.json" = ["stop.json"] := by decide +kernel
  have hsize : ¬ FileTree.pathLimit ≤ "stop.json".utf8ByteSize := by decide +kernel
  have htop : callTree.top.descend? [] =
      some (.directory 4096 [(.ofText "calls", .file callText.toUTF8)]) := rfl
  have hentry : Entries.get? [(FileName.ofText "calls", FileNode.file callText.toUTF8)]
      (.ofText "stop.json") = none := if_neg (by decide)
  rw [FileTree.find, if_neg (by decide), if_neg hsize, hnames, start_callTree,
    FileTree.walk_cons_of_missing htop (by decide) hentry]
  rfl

end Sample

theorem execute_blames_missing :
    (Action.validate Sample.calls Sample.missingValidation).PayloadFits Sample.callTree ∧
      (execute Grammar.library Sample.callTree
        ⟨.json, .validate Sample.calls Sample.missingValidation⟩).code = 1 := by
  have hfits : (Action.validate Sample.calls Sample.missingValidation).PayloadFits
      Sample.callTree := by
    intro path hpath
    obtain rfl := PayloadSource.file.inj hpath
    exact .inr Sample.find_missing
  obtain ⟨loaded, op, hloaded, hop, hinput⟩ := Sample.exists_load_calls
  obtain ⟨hmet, r, hr, rfl⟩ := (loadDefinitions_eq_ok_iff Grammar.new_library).mp hloaded
  have hload : Sample.calls.Loads Grammar.parser Sample.callTree r := ⟨hmet, hr⟩
  obtain ⟨hoffers, hwire⟩ := (hload.indexed Grammar.new_library).resolve_eq_ok_iff.mp hop
  have hblames := execute_blames Grammar.new_library Sample.callTree
    ⟨.json, .validate Sample.calls Sample.missingValidation⟩ hfits
  exact ⟨hfits, hblames.2.1.mpr
    (.payload hload ⟨op, hoffers, hwire, hinput⟩ rfl Sample.find_missing)⟩

end ServiceContracts.Command
