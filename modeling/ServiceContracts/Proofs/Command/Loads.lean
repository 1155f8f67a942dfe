import ServiceContracts.Command.Run
import ServiceContracts.Proofs.Definition.Arrangement
import ServiceContracts.Proofs.Definition.Findings
import ServiceContracts.Proofs.Definition.Grammar
import ServiceContracts.Proofs.Text.Lossy
import Mathlib.Data.List.TakeWhile
/-!
# The definitions of a command

Checking, listing and validating all start with a load, of what there is
at the paths of the command (`loadDefinitions_eq`). When it succeeds, the
services are those of the documents, in order, and they can be looked up
(`Loaded.Holds`). From there a validation finds an operation and a schema
before it looks at the payload.
-/


namespace ServiceContracts

theorem Operation.SchemasBuilt.built {op : Operation} (h : op.SchemasBuilt) {side : Side}
    {schema : Schema} (hschema : op.schema? side = some schema) : schema.Built := by
  cases side with
  | input => exact h.input schema hschema
  | output => exact h.output schema hschema

namespace Command

open Definition

/-- What is met at the paths of a command. -/
def Definitions.met (d : Definitions) (parser : DocumentParser) (tree : FileTree) : List Finding :=
  findings parser tree d.limits d.paths

/-- The documents among it. -/
def Definitions.sources (d : Definitions) (parser : DocumentParser) (tree : FileTree) :
    List Source :=
  documents (d.met parser tree)

/-- **What a load of documents comes to**: the services that they describe,
each to be found under its name. -/
structure Loaded.Holds (loaded : Loaded) (sources : List Source) : Prop where
  documents : loaded.documents = sources.length
  services : List.Forall₂ (ServiceDefinition.Describes (declarations sources)) (services sources)
    loaded.registry.services
  indexed : loaded.registry.Indexed
  isSealed : loaded.registry.isSealed = true

variable {library : JsonSchema.Library} {parser : DocumentParser} {tree : FileTree}
  {d : Definitions} {v : Validation} {loaded : Loaded} {op : Operation}

/-! ## The load -/

/-- Nothing fails on the way to the documents before which nothing fails. -/
theorem takeWhile_of_firstFailure? {met : List Finding} (h : firstFailure? met = none) :
    (met.takeWhile fun f => !f.fails) = met := by
  refine List.takeWhile_eq_self_iff.mpr fun f hf => ?_
  simpa using List.find?_eq_none.mp h f hf

/-- **A load ends at the first failure on the way**, or else when the
documents are built. -/
theorem loadDefinitions_eq (hparser : DocumentParser.new library = .ok parser) (tree : FileTree)
    (d : Definitions) :
    loadDefinitions library tree d = match firstFailure? (d.met parser tree) with
      | some (.unread fault) => .error (.load (.notRead fault))
      | some (.rejected error) => .error (.load error)
      | _ =>
        match buildRegistry (d.sources parser tree) with
        | .error error => .error (.load error)
        | .ok r => .ok ⟨r.sealed, (d.sources parser tree).length⟩ := by
  have hnew : Loader.new library d.limits = .ok ⟨parser, d.limits, []⟩ := by
    rw [Loader.new, hparser]
    rfl
  have hmeet : Loader.addPaths ⟨parser, d.limits, []⟩ tree d.paths =
      Loader.meet ⟨parser, d.limits, []⟩ (d.met parser tree) := Loader.addPaths_eq _ tree d.paths
  rw [loadDefinitions, hnew]
  simp only [hmeet, Loader.meet]
  cases hfirst : firstFailure? (d.met parser tree) with
  | none =>
    rw [takeWhile_of_firstFailure? hfirst]
    rfl
  | some f =>
    -- a document is no failure
    have hfails : f.fails = true := List.find?_some hfirst
    cases f with
    | document source => cases hfails
    | _ => rfl

theorem loadDefinitions_eq_ok_iff (hparser : DocumentParser.new library = .ok parser) :
    loadDefinitions library tree d = .ok loaded ↔ firstFailure? (d.met parser tree) = none ∧
      ∃ r, buildRegistry (d.sources parser tree) = .ok r ∧
        loaded = ⟨r.sealed, (d.sources parser tree).length⟩ := by
  rw [loadDefinitions_eq hparser]
  cases hfirst : firstFailure? (d.met parser tree) with
  | none => cases buildRegistry (d.sources parser tree) <;> simp [eq_comm]
  | some f =>
    have hfails : f.fails = true := List.find?_some hfirst
    cases f with
    | document source => cases hfails
    | _ => simp

/-- **What is loaded is what the documents say.** -/
theorem holds_of_loadDefinitions (hparser : DocumentParser.new library = .ok parser)
    (h : loadDefinitions library tree d = .ok loaded) : loaded.Holds (d.sources parser tree) := by
  obtain ⟨-, r, hr, rfl⟩ := (loadDefinitions_eq_ok_iff hparser).mp h
  obtain ⟨hservices, hindexed, -⟩ := describes_of_buildRegistry hr
  exact ⟨rfl, hservices, ⟨hindexed.byName, hindexed.names, hindexed.services⟩, rfl⟩

/-- An operation that is found has schemas that have been built. -/
theorem Loaded.Holds.schemasBuilt {sources : List Source} (h : loaded.Holds sources)
    {service wire : String} (hop : loaded.registry.resolve service wire = .ok op) :
    op.SchemasBuilt := by
  obtain ⟨⟨s, hs, -, hmem⟩, -⟩ := h.indexed.resolve_eq_ok_iff.mp hop
  obtain ⟨sd, -, hsd⟩ := exists_of_forall₂_right h.services hs
  obtain ⟨od, -, hod⟩ := exists_of_forall₂_right hsd.operations hmem
  exact hod.schemasBuilt

/-! ## From the load to the payload -/

theorem validate_of_unresolved {error : ResolveError}
    (hloaded : loadDefinitions library tree d = .ok loaded)
    (hop : loaded.registry.resolve v.service v.operation = .error error) :
    validate library tree d v = .error (.unresolved error) := by
  simp only [validate, hloaded, bind, Except.bind, hop]
  rfl

theorem validate_of_noSchema (hloaded : loadDefinitions library tree d = .ok loaded)
    (hop : loaded.registry.resolve v.service v.operation = .ok op)
    (hschema : op.schema? v.side = none) :
    validate library tree d v = .error (.noSchema v.service op.wire v.side) := by
  simp only [validate, hloaded, bind, Except.bind, hop, hschema]
  rfl

theorem validate_of_schema {schema : Schema} (hloaded : loadDefinitions library tree d = .ok loaded)
    (hop : loaded.registry.resolve v.service v.operation = .ok op)
    (hschema : op.schema? v.side = some schema) :
    validate library tree d v = (readPayload tree v.payload).bind fun payload =>
      (normalize schema v.config payload).map fun result =>
        ⟨v.service, op.wire, v.side, schema.name, result⟩ := by
  simp only [validate, hloaded, bind, Except.bind, hop, hschema]
  rfl

/-- The text that a payload is to be read from. -/
def PayloadSource.HasText (tree : FileTree) : PayloadSource → String → Prop
  | .text json, s => s = json
  | .file path, s => tree.readText path = .ok s

theorem readPayload_of_unread {path : String} {error : FileError}
    (h : tree.readText path = .error error) :
    readPayload tree (.file path) = .error (.unreadPayload path error) := by
  simp only [readPayload, h]
  rfl

theorem readPayload_of_hasText {source : PayloadSource} {text : String}
    (h : source.HasText tree text) : readPayload tree source =
      match Json.parse? text with
      | some payload => .ok payload
      | none => .error .payloadNotJson := by
  cases source with
  | text json =>
    obtain rfl : text = json := h
    rfl
  | file path =>
    have hread : tree.readText path = .ok text := h
    simp only [readPayload, hread]
    rfl

/-- **How reading a payload ends**: with the file, if it is not read, or with
what its text denotes. -/
theorem readPayload_cases (tree : FileTree) (source : PayloadSource) :
    (∃ path error, source = .file path ∧ tree.readText path = .error error ∧
      readPayload tree source = .error (.unreadPayload path error)) ∨
    (∃ text, source.HasText tree text ∧ Json.parse? text = none ∧
      readPayload tree source = .error .payloadNotJson) ∨
    ∃ text payload, source.HasText tree text ∧ Json.parse? text = some payload ∧
      readPayload tree source = .ok payload := by
  have hcases : (∃ path error, source = .file path ∧ tree.readText path = .error error) ∨
      ∃ text, source.HasText tree text := by
    cases source with
    | text json => exact .inr ⟨json, rfl⟩
    | file path =>
      cases hread : tree.readText path with
      | error error => exact .inl ⟨path, error, rfl, hread⟩
      | ok text => exact .inr ⟨text, hread⟩
  obtain ⟨path, error, rfl, hread⟩ | ⟨text, h⟩ := hcases
  · exact .inl ⟨path, error, rfl, hread, readPayload_of_unread hread⟩
  · refine .inr ?_
    rw [readPayload_of_hasText h]
    cases hparse : Json.parse? text with
    | none => exact .inl ⟨text, h, hparse, rfl⟩
    | some payload => exact .inr ⟨text, payload, h, hparse, rfl⟩

namespace Sample

/-- A file with a type of stops, and a service with an operation that takes
one. -/
def callText : String :=
  "\x7b\"$schema\":\"http://api.nexus/draft-01/schema#\",\"types\":\x7b\"Stop\":\x7b\"properties\":\x7b\"express\":\x7b\"type\":\"boolean\",\"default\":false\x7d\x7d\x7d\x7d,\"services\":[\x7b\"identifier\":\"transit\",\"operations\":[\x7b\"identifier\":\"call\",\"name\":\"Stop.Call\",\"input\":\"Stop\"\x7d]\x7d]\x7d"

/-- What its text denotes. -/
def callJson : Json := .object
  [("$schema", .string dialect),
    ("types", .object [("Stop", .object [("properties", .object [("express", .object
      [("type", .string "boolean"), ("default", .boolean false)])])])]),
    ("services", .array [.object [("identifier", .string "transit"),
      ("operations", .array [.object [("identifier", .string "call"), ("name", .string "Stop.Call"),
        ("input", .string "Stop")]])]])]

/-- Does the stop serve express lines? Not unless it says so. -/
def express : Property := ⟨some (.one "boolean"), none, none, "", some (.boolean false), false⟩

/-- Its document. -/
def callDocument : Document :=
  ⟨[("Stop", ⟨"", [("express", express)], []⟩)],
    [⟨"transit", none, "", [⟨"call", some "Stop.Call", "", some "Stop", none⟩]⟩]⟩

/-- The schema of stops. -/
def callSchema : Schema := ⟨"Stop", "", [⟨"express", .scalar .boolean, some (.boolean false), ""⟩]⟩

/-- A tree with the file. -/
def callTree : FileTree :=
  ⟨.directory 4096 [(.ofText "calls", .file callText.toUTF8)], []⟩

/-- The file, as the definitions of a command. -/
def calls : Definitions := ⟨["calls"], .standard⟩

set_option maxRecDepth 10000 in
theorem parse_callText (origin : String) :
    Grammar.parser.parse origin callText = .ok callDocument := by
  have hparse : Json.parse? callText = some callJson := by
    rw [Json.parse?, callText, String.toList_ofList]
    rfl
  rw [DocumentParser.parse, hparse]
  rfl

theorem start_callTree (path : String) : callTree.start path = [] := by
  rw [FileTree.start]
  exact ite_self []

theorem find_calls : callTree.find "calls" = .ok (.file callText.toUTF8) := by
  have hnames : FileTree.namesOf "calls" = ["calls"] := by decide +kernel
  have hdirectory : FileTree.asksDirectory "calls" = false := by decide +kernel
  have hentry : Entries.get? [(FileName.ofText "calls", FileNode.file callText.toUTF8)]
      (.ofText "calls") = some (.file callText.toUTF8) := if_pos rfl
  have htop : callTree.top.descend? [] =
      some (.directory 4096 [(.ofText "calls", .file callText.toUTF8)]) := rfl
  have hfile : callTree.top.descend? [.ofText "calls"] = some (.file callText.toUTF8) := by
    simpa [FileNode.descend?, FileNode.child?, callTree] using hentry
  have hwalk : callTree.walk FileTree.maxLinks [] ["calls"] = .ok (.file callText.toUTF8) :=
    (FileTree.walk_cons_of_entry htop (by decide) hentry nofun).trans (FileTree.walk_nil hfile)
  have hsize : ¬ FileTree.pathLimit ≤ "calls".utf8ByteSize := by decide +kernel
  rw [FileTree.find, if_neg (by decide), if_neg hsize, hnames, start_callTree, hwalk]
  simp [hdirectory]

theorem met_calls : calls.met Grammar.parser callTree = [.document ⟨"calls", callDocument⟩] := by
  have hsize : callText.toUTF8.size ≤ Limits.standard.bytes := by
    rw [callText, String.toUTF8_eq_toByteArray, String.toByteArray_ofList]
    decide +kernel
  rw [Definitions.met, calls, findings, List.flatMap_singleton,
    findingsAt_of_file find_calls hsize (Text.fromUTF8?_toUTF8 callText), Finding.ofText,
    parse_callText]

theorem expand_stop :
    expand (declarations (calls.sources Grammar.parser callTree)) "Stop" = some callSchema := by
  have htype : ∀ refer, express.plainType refer = some (.scalar .boolean) := by
    intro refer
    rw [Property.plainType_eq]
    rfl
  have hschema : ∀ refer, TypeDefinition.plainSchema refer "Stop" ⟨"", [("express", express)], []⟩ =
      some callSchema := by
    intro refer
    simp only [TypeDefinition.plainSchema, List.mapM_cons, List.mapM_nil, htype]
    rfl
  rw [Definitions.sources, met_calls]
  exact hschema _

/-- The file loads, and its operation takes stops. -/
theorem exists_load_calls : ∃ loaded op,
    loadDefinitions Grammar.library callTree calls = .ok loaded ∧
    loaded.registry.resolve "transit" "Stop.Call" = .ok op ∧ op.input = some callSchema := by
  have hsources : calls.sources Grammar.parser callTree = [⟨"calls", callDocument⟩] := by
    rw [Definitions.sources, met_calls]
    rfl
  have hstop := expand_stop
  rw [hsources] at hstop
  have hbuild : ∃ r, buildRegistry [⟨"calls", callDocument⟩] = .ok r := by
    refine exists_buildRegistry_iff.mpr ⟨by decide, fun name hname => ?_, fun s hs => ?_, by decide⟩
    · obtain rfl := List.mem_singleton.mp hname
      exact ⟨callSchema, Expands.of_expandTo hstop⟩
    · obtain rfl := List.mem_singleton.mp hs
      refine ⟨by decide, by decide, fun op hop => ?_, by decide, by decide⟩
      obtain rfl := List.mem_singleton.mp hop
      refine ⟨by decide, by decide, ?_, nofun⟩
      rintro _ ⟨⟩
      exact ⟨"Stop", by decide, by decide +kernel⟩
  obtain ⟨r, hr⟩ := hbuild
  have hloaded : loadDefinitions Grammar.library callTree calls = .ok ⟨r.sealed, 1⟩ := by
    refine (loadDefinitions_eq_ok_iff Grammar.new_library).mpr ⟨?_, r, hsources ▸ hr, hsources ▸ rfl⟩
    rw [met_calls]
    rfl
  have hholds := holds_of_loadDefinitions Grammar.new_library hloaded
  rw [hsources] at hholds
  obtain ⟨s, hs, hdescribes⟩ := exists_of_forall₂_left hholds.services (List.mem_singleton.mpr rfl)
  obtain ⟨op, hop, hoperation⟩ :=
    exists_of_forall₂_left hdescribes.operations (List.mem_singleton.mpr rfl)
  refine ⟨_, op, hloaded, ?_, ?_⟩
  · exact hholds.indexed.resolve_eq_ok_iff.mpr ⟨⟨s, hs, hdescribes.name, hop⟩, hoperation.wire⟩
  · have hname : typeName? "Stop" = some "Stop" := by decide +kernel
    have hinput := hoperation.input
    cases hfound : op.input with
    | none =>
      rw [hfound] at hinput
      cases hinput
    | some schema =>
      rw [hfound] at hinput
      obtain ⟨name, hreference, hschema⟩ : ∃ name, typeName? "Stop" = some name ∧
          expand (declarations [⟨"calls", callDocument⟩]) name = some schema := by
        cases hinput with
        | some h => exact h
      obtain rfl := Option.some.inj (hname.symm.trans hreference)
      exact hschema.symm.trans hstop

end Sample

end Command

end ServiceContracts
