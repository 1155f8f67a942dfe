import ServiceContracts.Definition.Files
/-!
# What there is to be met in adding paths

A loader adds paths one after the other, and a directory as the files in
it. `findings` lists beforehand what it will meet on the way, each file
by itself: something that is not read, a text that is no document, or a
document. Of a directory that is refused as a whole only the refusal is
met. Adding the paths then adds the documents on this list up to the
first failure, and ends with that (`Loader.addPaths_eq`).
-/


namespace ServiceContracts

/-! ## Walks -/

namespace FileTree

variable {tree : FileTree} {links size : Nat} {place : List FileName} {name : String}
  {rest : List String} {entries : List (FileName × FileNode)} {node : FileNode}

/-- A walk without names ends where it is. -/
theorem walk_nil (h : tree.top.descend? place = some node) : tree.walk links place [] = .ok node := by
  unfold walk
  rw [h]

/-- It goes on with an entry under the next name, if that is no link. -/
theorem walk_cons_of_entry (h : tree.top.descend? place = some (.directory size entries))
    (hname : name ≠ "..") (hentry : Entries.get? entries (.ofText name) = some node)
    (hlink : ∀ target, node ≠ .link target) :
    tree.walk links place (name :: rest) = tree.walk links (place ++ [.ofText name]) rest := by
  rw [walk.eq_def]
  simp only [h, if_neg hname, hentry]

/-- And ends where there is none. -/
theorem walk_cons_of_missing (h : tree.top.descend? place = some (.directory size entries))
    (hname : name ≠ "..") (hentry : Entries.get? entries (.ofText name) = none) :
    tree.walk links place (name :: rest) = .error (missing (.ofText name)) := by
  rw [walk.eq_def]
  simp only [h, if_neg hname, hentry]

end FileTree

namespace Definition

/-- What is met in adding paths. -/
inductive Finding where
  | unread (fault : ReadFault)
  /-- A text is read that is no document. -/
  | rejected (error : LoadError)
  | document (source : Source)

namespace Finding

/-- Does it end the load? -/
def fails : Finding → Bool
  | .document _ => false
  | _ => true

/-- The document, if it is one. -/
def source? : Finding → Option Source
  | .document source => some source
  | _ => none

/-- What a text is. -/
def ofText (parser : DocumentParser) (origin text : String) : Finding :=
  match parser.parse origin text with
  | .ok d => .document ⟨origin, d⟩
  | .error error => .rejected error

/-- What an opened file is. -/
def ofNode (parser : DocumentParser) (limits : Limits) (path : String) (node : FileNode) : Finding :=
  match textWithin limits.bytes path node with
  | .ok text => .ofText parser path text
  | .error fault => .unread fault

end Finding

/-- What an entry of a directory refuses it for: a path that is too long, or
being a link, under the name of a definition file. -/
def refusalOf? (directory : String) (e : FileName × FileNode) : Option ReadFault :=
  if isDefinitionName e.1.text then
    if FileTree.pathLimit ≤ FileTree.entryPathSize directory e.1 then some (.entry .nameTooLong)
    else if e.2 matches .link _ then some (.symlink e.1.text) else none
  else none

/-- The first refusal among the entries, as they are listed. -/
def refusal? (directory : String) (entries : List (FileName × FileNode)) : Option ReadFault :=
  entries.findSome? (refusalOf? directory)

/-- The regular files under names of definition files, in the order of the
texts of their names. -/
def definitionFiles (entries : List (FileName × FileNode)) : List (FileName × FileNode) :=
  (entries.filter fun e => isDefinitionName e.1.text && e.2 matches .file _).mergeSort nameLe

section Findings

variable (parser : DocumentParser) (tree : FileTree) (limits : Limits)

/-- What is met in a directory: a refusal, or else more files than the limit,
or else the files. -/
def findingsIn (path : String) (entries : List (FileName × FileNode)) : List Finding :=
  match refusal? path entries with
  | some fault => [.unread fault]
  | none =>
    if limits.documents < (definitionFiles entries).length then
      [.unread (.tooMany limits.documents (definitionFiles entries).length)]
    else
      (definitionFiles entries).map fun e =>
        .ofNode parser limits (FileTree.entryPath path e.1.text) e.2

/-- What is met at a path: what there is in a directory, or one file. -/
def findingsAt (path : String) : List Finding :=
  match tree.find path with
  | .ok (.directory _ entries) => findingsIn parser limits path entries
  | .ok node => [.ofNode parser limits path node]
  | .error error => [.unread (.notOpened path error)]

/-- What is met at paths, one after the other. -/
def findings (paths : List String) : List Finding := paths.flatMap (findingsAt parser tree limits)

end Findings

/-- The first that ends a load. -/
def firstFailure? (met : List Finding) : Option Finding := met.find? Finding.fails

/-- The documents that are met. -/
def documents (met : List Finding) : List Source := met.filterMap Finding.source?

/-- A loader after what it meets: with the documents added up to the first
failure. -/
def Loader.meet (l : Loader) (met : List Finding) : Loader × Except LoadError Unit :=
  ({ l with sources := l.sources ++ documents (met.takeWhile fun f => !f.fails) },
    match firstFailure? met with
    | some (.unread fault) => .error (.notRead fault)
    | some (.rejected error) => .error error
    | _ => .ok ())

variable {l l' : Loader} {tree : FileTree} {path : String} {met more : List Finding}

/-! ## The files of a directory -/

/-- The texts of their names are in order from one file to any later one. -/
theorem pairwise_definitionFiles (entries : List (FileName × FileNode)) :
    (definitionFiles entries).Pairwise fun e e' => e.1.text ≤ e'.1.text := by
  have hsorted : (definitionFiles entries).Pairwise fun e e' => nameLe e e' = true := by
    refine List.pairwise_mergeSort (fun a b c hab hbc => ?_) (fun a b => ?_) _
    · simp only [nameLe, decide_eq_true_eq] at hab hbc ⊢
      exact String.le_trans hab hbc
    · simp only [nameLe, Bool.or_eq_true, decide_eq_true_eq]
      exact String.le_total a.1.text b.1.text
  exact hsorted.imp fun h => of_decide_eq_true h

/-- Looking for the files of a directory gives the first refusal instead. -/
theorem candidates_eq (directory : String) (entries : List (FileName × FileNode)) :
    candidates directory entries = match refusal? directory entries with
      | some fault => .error fault
      | none =>
        .ok (entries.filter fun e => isDefinitionName e.1.text && e.2 matches .file _) := by
  induction entries with
  | nil => rfl
  | cons e rest ih =>
    obtain ⟨name, node⟩ := e
    have hrest : rest.findSome? (refusalOf? directory) = refusal? directory rest := rfl
    rw [refusal?, List.findSome?_cons, hrest, refusalOf?]
    by_cases hname : isDefinitionName name.text = true
    · by_cases hlong : FileTree.pathLimit ≤ FileTree.entryPathSize directory name
      · cases node <;> simp [candidates, hname, hlong]
      · cases node with
        | link target => simp [candidates, hname, hlong]
        | file content =>
          cases hrefusal : refusal? directory rest <;>
            simp [candidates, hname, hlong, ih, hrefusal, Except.map]
        | _ =>
          cases hrefusal : refusal? directory rest <;>
            simp [candidates, hname, hlong, ih, hrefusal]
    · cases hrefusal : refusal? directory rest <;> cases node <;>
        simp [candidates, hname, ih, hrefusal]

theorem selectFiles_eq (limit : Nat) (directory : String) (entries : List (FileName × FileNode)) :
    selectFiles limit directory entries = match refusal? directory entries with
      | some fault => .error fault
      | none =>
        if limit < (definitionFiles entries).length then
          .error (.tooMany limit (definitionFiles entries).length)
        else .ok (definitionFiles entries) := by
  rw [selectFiles, candidates_eq]
  cases refusal? directory entries with
  | some fault => rfl
  | none => simp [definitionFiles, List.length_mergeSort]

variable {parser : DocumentParser} {limits : Limits}

/-- A regular file within the limit is met as its text, if it is one. -/
theorem findingsAt_of_file {content : ByteArray} {text : String}
    (hfile : tree.find path = .ok (.file content)) (hsize : content.size ≤ limits.bytes)
    (htext : String.fromUTF8? content = some text) :
    findingsAt parser tree limits path = [.ofText parser path text] := by
  have hwithin : textWithin limits.bytes path (.file content) = .ok text := by
    rw [textWithin, if_neg (Nat.not_lt.mpr hsize), htext]
  rw [findingsAt, hfile]
  simp only [Finding.ofNode, hwithin]

/-- What is met is a refusal to read, or some opened file. -/
theorem cases_of_mem_findings {paths : List String} {f : Finding}
    (h : f ∈ findings parser tree limits paths) :
    (∃ fault, f = .unread fault) ∨ ∃ path node, f = .ofNode parser limits path node := by
  obtain ⟨path, -, h⟩ := List.mem_flatMap.mp h
  unfold findingsAt findingsIn at h
  split at h
  · split at h
    · exact .inl ⟨_, List.mem_singleton.mp h⟩
    · split at h
      · exact .inl ⟨_, List.mem_singleton.mp h⟩
      · obtain ⟨e, -, rfl⟩ := List.mem_map.mp h
        exact .inr ⟨_, e.2, rfl⟩
  · exact .inr ⟨path, _, List.mem_singleton.mp h⟩
  · exact .inl ⟨_, List.mem_singleton.mp h⟩

/-! ## What a loader makes of its findings -/

theorem Loader.meet_nil : l.meet [] = (l, .ok ()) := by
  simp [meet, firstFailure?, documents]

theorem Loader.meet_unread {fault : ReadFault} :
    l.meet (.unread fault :: met) = (l, .error (.notRead fault)) := by
  have hfirst : firstFailure? (.unread fault :: met) = some (.unread fault) := rfl
  simp [meet, hfirst, documents, Finding.fails]

theorem Loader.meet_rejected {error : LoadError} :
    l.meet (.rejected error :: met) = (l, .error error) := by
  have hfirst : firstFailure? (.rejected error :: met) = some (.rejected error) := rfl
  simp [meet, hfirst, documents, Finding.fails]

theorem Loader.meet_document {source : Source} :
    l.meet (.document source :: met) =
      Loader.meet { l with sources := l.sources ++ [source] } met := by
  have hfirst : firstFailure? (.document source :: met) = firstFailure? met := rfl
  have hdocuments : documents ((Finding.document source :: met).takeWhile fun f => !f.fails) =
      source :: documents (met.takeWhile fun f => !f.fails) := rfl
  rw [meet, meet, hfirst, hdocuments, List.append_assoc, List.singleton_append]

/-- What is met comes after what was met before, if that was no failure. -/
theorem Loader.meet_append : l.meet (met ++ more) =
    match l.meet met with
    | (l', .ok ()) => l'.meet more
    | (l', .error error) => (l', .error error) := by
  induction met generalizing l with
  | nil =>
    rw [meet_nil]
    rfl
  | cons f rest ih =>
    rw [List.cons_append]
    cases f with
    | unread fault => rw [meet_unread, meet_unread]
    | rejected error => rw [meet_rejected, meet_rejected]
    | document source => rw [meet_document, meet_document, ih]

/-- Neither the parser nor the limits change on the way. -/
theorem Loader.parser_meet : (l.meet met).1.parser = l.parser := rfl

theorem Loader.meet_limits : (l.meet met).1.limits = l.limits := rfl

/-- **One file.** -/
theorem Loader.addNode_eq (path : String) (node : FileNode) :
    l.addNode path node = l.meet [.ofNode l.parser l.limits path node] := by
  rw [addNode, Finding.ofNode]
  cases textWithin l.limits.bytes path node with
  | error fault => exact meet_unread.symm
  | ok text =>
    simp only [addText, Finding.ofText]
    cases l.parser.parse path text with
    | error error => exact meet_rejected.symm
    | ok d => rw [meet_document, meet_nil, push]

/-- **Files of a directory**, one after the other. -/
theorem Loader.addFiles_eq (directory : String) (files : List (FileName × FileNode)) :
    l.addFiles directory files = l.meet (files.map fun e =>
      .ofNode l.parser l.limits (FileTree.entryPath directory e.1.text) e.2) := by
  induction files generalizing l with
  | nil => exact meet_nil.symm
  | cons e rest ih =>
    obtain ⟨name, node⟩ := e
    rw [addFiles, List.map_cons, ← List.singleton_append, meet_append, addNode_eq]
    obtain ⟨next, hnext⟩ : ∃ next, next = l.meet
        [Finding.ofNode l.parser l.limits (FileTree.entryPath directory name.text) node] := ⟨_, rfl⟩
    have hparser : next.1.parser = l.parser := hnext ▸ parser_meet
    have hlimits : next.1.limits = l.limits := hnext ▸ meet_limits
    rw [← hnext]
    obtain ⟨l', result⟩ := next
    cases result with
    | error error => rfl
    | ok u => rw [← hparser, ← hlimits]; exact ih

/-- **One path.** -/
theorem Loader.addPath_eq (l : Loader) (tree : FileTree) (path : String) :
    ((l.addPath tree path).1, (l.addPath tree path).2.map fun _ => ()) =
      l.meet (findingsAt l.parser tree l.limits path) := by
  rw [addPath, findingsAt, FileTree.isDirectory, addDirectory, FileTree.list, addFile]
  cases tree.find path with
  | error error => exact meet_unread.symm
  | ok node =>
    cases node with
    | directory size entries =>
      simp only [if_true, selectFiles_eq, findingsIn]
      cases refusal? path entries with
      | some fault => exact meet_unread.symm
      | none =>
        by_cases hlimit : l.limits.documents < (definitionFiles entries).length
        · simp only [if_pos hlimit]
          exact meet_unread.symm
        · simp only [if_neg hlimit]
          rw [← addFiles_eq]
          obtain ⟨l', result⟩ := l.addFiles path (definitionFiles entries)
          cases result <;> rfl
    | _ =>
      simp only [Bool.false_eq_true, if_false, ← addNode_eq]
      obtain ⟨l', result⟩ := l.addNode path _
      cases result <;> rfl

/-- **All paths**: the load meets what there is, in order, and ends at the
first failure. -/
theorem Loader.addPaths_eq (l : Loader) (tree : FileTree) (paths : List String) :
    l.addPaths tree paths = l.meet (findings l.parser tree l.limits paths) := by
  induction paths generalizing l with
  | nil => exact meet_nil.symm
  | cons path rest ih =>
    have hpath := addPath_eq l tree path
    have hparser : (l.addPath tree path).1.parser = l.parser :=
      (congrArg (fun p => p.1.parser) hpath).trans parser_meet
    have hlimits : (l.addPath tree path).1.limits = l.limits :=
      (congrArg (fun p => p.1.limits) hpath).trans meet_limits
    rw [addPaths, findings, List.flatMap_cons, meet_append, ← hpath]
    generalize l.addPath tree path = p at hparser hlimits ⊢
    obtain ⟨l', result⟩ := p
    cases result with
    | error error => rfl
    | ok count =>
      rw [← hparser, ← hlimits]
      exact ih l'

end Definition

end ServiceContracts
