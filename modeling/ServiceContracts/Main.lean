import ServiceContracts.Command.Run
import ServiceContracts.Definition.Grammar

/-!
# The command line

Reads the files and directories that the arguments name, runs the command on them and passes on what it leaves
behind. Of a directory the contents of definition files are read, and of everything else what kind it is.
-/

namespace ServiceContracts.Main

open Command Definition

/-- The files that a command reads. -/
def filesOf : Action → List String
  | .check d => d.paths
  | .list d _ => d.paths
  | .validate d v =>
    match v.payload with
    | .text _ => d.paths
    | .file path => d.paths ++ [path]
  | .version => []

/-- An entry of a directory, if it is there to be read. -/
def readEntry (entry : IO.FS.DirEntry) : IO (Option (FileName × FileNode)) := do
  let named (node : FileNode) := some (FileName.ofText entry.fileName, node)
  try
    let data ← entry.path.symlinkMetadata
    match data.type with
    | .symlink => return named (.link "")
    | .dir => return named (.directory data.byteSize.toNat [])
    | .file =>
      if isDefinitionName entry.fileName then return named (.file (← IO.FS.readBinFile entry.path))
      else return named (.file ByteArray.empty)
    | .other => return none
  catch _ => return none

/-- What is at a path: a directory with its entries, or a file. -/
def readNode (path : String) : IO FileNode := do
  let place := (← IO.currentDir) / path
  let data ← place.metadata
  match data.type with
  | .dir => return .directory data.byteSize.toNat ((← (← place.readDir).toList.filterMapM readEntry))
  | _ => return .file (← IO.FS.readBinFile place)

/-- The size of directories that are not read. -/
def directorySize : Nat := 4096

/-- The tree of what can be read. A directory comes before what is read below it, which else it would hide. -/
def readFiles (paths : List String) : IO FileTree := do
  let working := (FileTree.namesOf (← IO.currentDir).toString).map FileName.ofText
  let depth := fun path => (FileTree.namesOf path).length
  let sorted := paths.mergeSort fun a b => depth a ≤ depth b
  sorted.foldlM (fun (tree : FileTree) path => do
    try return tree.put directorySize path (← readNode path)
    catch _ => return tree) ⟨.directory directorySize [], working⟩

end ServiceContracts.Main

open ServiceContracts in
/-- Runs the command that the arguments make. -/
def main (arguments : List String) : IO UInt32 := do
  let paths := match Command.Arguments.parse? arguments with
    | some invocation => Main.filesOf invocation.action
    | none => []
  let tree ← Main.readFiles paths
  let outcome := Command.run Definition.Grammar.library tree arguments
  IO.print outcome.stdout
  IO.eprint outcome.stderr
  return UInt32.ofNat outcome.code
