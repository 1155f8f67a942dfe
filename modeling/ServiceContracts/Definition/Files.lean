import ServiceContracts.Definition.Loader

/-!
# Definitions in files

A loader reads single files, and directories for the files in them whose names end in `.services.json`. In a
directory everything is looked at before anything is read: a link among those names, or more files than the
limit, refuses it as a whole. The files are then read in the order of the texts of their names, and an error
leaves those before it loaded.
-/

namespace ServiceContracts.Definition

/-- The end of a definition file's name. -/
def fileSuffix : List Char := ".services.json".toList

/-- Does the name end as that of a definition file, in upper or lower case? -/
def isDefinitionName (name : String) : Bool := fileSuffix.isSuffixOf (name.toList.map Char.toLower)

/-- The text of an opened document within a limit of bytes. -/
def textWithin (limit : Nat) (path : String) : FileNode → Except ReadFault String
  | .file content =>
    if limit < content.size then .error (.tooLarge content.size path)
    else
      match String.fromUTF8? content with
      | some text => .ok text
      | none => .error (.notRead path .notUtf8)
  | .zeros => .error (.grew path)
  | .directory size _ =>
    if limit < size then .error (.tooLarge size path) else .error (.notRead path .isDirectory)
  | .link _ => .error (.notOpened path .notFound)

/-- The definition files among the entries of a directory, unless one of them cannot be looked at or is a
link. -/
def candidates (directory : String) :
    List (FileName × FileNode) → Except ReadFault (List (FileName × FileNode))
  | [] => .ok []
  | (name, node) :: rest =>
    if isDefinitionName name.text then
      if FileTree.pathLimit ≤ FileTree.entryPathSize directory name then .error (.entry .nameTooLong)
      else
        match node with
        | .link _ => .error (.symlink name.text)
        | .file content => (candidates directory rest).map ((name, .file content) :: ·)
        | _ => candidates directory rest
    else candidates directory rest

/-- The order in which files are read: that of the texts of their names. -/
def nameLe (a b : FileName × FileNode) : Bool := decide (a.1.text ≤ b.1.text)

/-- The definition files of a directory in the order in which they are read. -/
def selectFiles (limit : Nat) (directory : String) (entries : List (FileName × FileNode)) :
    Except ReadFault (List (FileName × FileNode)) :=
  match candidates directory entries with
  | .error fault => .error fault
  | .ok files =>
    if limit < files.length then .error (.tooMany limit files.length)
    else .ok (files.mergeSort nameLe)

namespace Loader

/-- Adds the document in an opened file. -/
def addNode (l : Loader) (path : String) (node : FileNode) : Loader × Except LoadError Unit :=
  match textWithin l.limits.bytes path node with
  | .ok text => l.addText path text
  | .error fault => (l, .error (.notRead fault))

/-- Adds the document in a file, whatever the file's name. -/
def addFile (l : Loader) (tree : FileTree) (path : String) : Loader × Except LoadError Unit :=
  match tree.find path with
  | .ok node => l.addNode path node
  | .error error => (l, .error (.notRead (.notOpened path error)))

/-- Adds files of a directory one after the other, up to the first error. -/
def addFiles (l : Loader) (directory : String) :
    List (FileName × FileNode) → Loader × Except LoadError Unit
  | [] => (l, .ok ())
  | (name, node) :: rest =>
    match l.addNode (FileTree.entryPath directory name.text) node with
    | (l, .ok ()) => addFiles l directory rest
    | (l, .error error) => (l, .error error)

/-- Adds the definition files of a directory, and says how many they were. -/
def addDirectory (l : Loader) (tree : FileTree) (path : String) : Loader × Except LoadError Nat :=
  match tree.list path with
  | .error error => (l, .error (.notRead (.directory path error)))
  | .ok entries =>
    match selectFiles l.limits.documents path entries with
    | .error fault => (l, .error (.notRead fault))
    | .ok files =>
      let (l, outcome) := l.addFiles path files
      (l, outcome.map fun _ => files.length)

/-- Adds a directory or a file, and says how many documents that were. -/
def addPath (l : Loader) (tree : FileTree) (path : String) : Loader × Except LoadError Nat :=
  if tree.isDirectory path then l.addDirectory tree path
  else
    let (l, outcome) := l.addFile tree path
    (l, outcome.map fun _ => 1)

/-- Adds paths one after the other, up to the first error. -/
def addPaths (l : Loader) (tree : FileTree) : List String → Loader × Except LoadError Unit
  | [] => (l, .ok ())
  | path :: rest =>
    match l.addPath tree path with
    | (l, .ok _) => addPaths l tree rest
    | (l, .error error) => (l, .error error)

end Loader

/-- The registry of the definitions at some paths. -/
def loadPaths (library : JsonSchema.Library) (tree : FileTree) (limits : Limits) (paths : List String) :
    Except LoadError Registry := do
  let l ← Loader.new library limits
  let (l, outcome) := l.addPaths tree paths
  outcome
  l.build

end ServiceContracts.Definition
