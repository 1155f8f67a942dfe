import ServiceContracts.Entries
import ServiceContracts.Text.Bytes

/-!
# File trees

What the library reads from is a value: a tree of directories, files and symbolic links. Names of files are
bytes, and have a text that may replace some of them. A path is a text; it is followed one name at a time from
the working directory, or from the top if it starts with a slash. A link stands for the path it holds, and after
forty links the walk is given up. Directories list their entries in a fixed order, which need not be that of
their names.
-/

namespace ServiceContracts

/-- Why a file cannot be read. -/
inductive FileError where
  | notFound
  | notDirectory
  | isDirectory
  | nameTooLong
  | tooManyLinks
  | notUtf8
  deriving DecidableEq

/-- The error in words. -/
def FileError.message : FileError → String
  | .notFound => "No such file or directory (os error 2)"
  | .notDirectory => "Not a directory (os error 20)"
  | .isDirectory => "Is a directory (os error 21)"
  | .nameTooLong => "File name too long (os error 36)"
  | .tooManyLinks => "Too many levels of symbolic links (os error 40)"
  | .notUtf8 => "stream did not contain valid UTF-8"

/-- The name of a file. -/
structure FileName where
  bytes : List UInt8
  deriving DecidableEq

namespace FileName

/-- The name that is a text. -/
def ofText (s : String) : FileName := ⟨Text.bytes s⟩

/-- The name as a text, with replacements for what is not UTF-8. -/
def text (name : FileName) : String := Text.lossy name.bytes

/-- How many bytes a name can have. -/
def maxSize : Nat := 255

end FileName

/-- An entry of a file tree. -/
inductive FileNode where
  | file (content : ByteArray)
  /-- A device that gives zero bytes without end. -/
  | zeros
  /-- The size is what the directory is said to have, should one open it as a file. -/
  | directory (size : Nat) (entries : List (FileName × FileNode))
  | link (target : String)

/-- A file tree, and the names from its top to the working directory. -/
structure FileTree where
  top : FileNode
  working : List FileName

namespace FileNode

/-- The entry of a directory under a name. -/
def child? : FileNode → FileName → Option FileNode
  | .directory _ entries, name => Entries.get? entries name
  | _, _ => none

/-- The entry that a chain of names leads to, links not followed. -/
def descend? (node : FileNode) (names : List FileName) : Option FileNode :=
  names.foldlM child? node

/-- Puts a node at the end of a chain of names, with new directories on the way where there are none. An empty
directory leaves one that is there already as it is. -/
def place (size : Nat) (node : FileNode) : FileNode → List FileName → FileNode
  | old, [] =>
    match node, old with
    | .directory _ [], .directory _ _ => old
    | _, _ => node
  | .directory size' entries, name :: rest =>
    let inner := (Entries.get? entries name).getD (.directory size [])
    .directory size' (Entries.set entries name (place size node inner rest))
  | _, name :: rest => .directory size [(name, place size node (.directory size []) rest)]

end FileNode

namespace FileTree

/-- The names of a path, in order. Repeated slashes and single points count for nothing. -/
def namesOf (path : String) : List String :=
  (path.splitToList (· = '/')).filter fun name => name ≠ "" ∧ name ≠ "."

/-- Does the path start at the top? -/
def isAbsolute (path : String) : Bool := path.startsWith "/"

/-- Does the path ask for a directory, by ending in a slash or a point? -/
def asksDirectory (path : String) : Bool :=
  match (path.splitToList (· = '/')).getLast? with
  | some last => last = "" || last = "."
  | none => false

/-- How many bytes are too many for a path. -/
def pathLimit : Nat := 4096

/-- Where a walk along a path starts: the names from the top. -/
def start (tree : FileTree) (path : String) : List FileName :=
  if isAbsolute path then [] else tree.working

/-- How many links a walk follows. -/
def maxLinks : Nat := 40

/-- Why a name leads nowhere. -/
def missing (name : FileName) : FileError :=
  if FileName.maxSize < name.bytes.length then .nameTooLong else .notFound

/-- Follows names from a place, itself given by the names that lead to it, with so many links still allowed. -/
def walk (tree : FileTree) (links : Nat) (place : List FileName) (names : List String) :
    Except FileError FileNode :=
  match tree.top.descend? place, names with
  | none, _ => .error .notFound
  | some node, [] => .ok node
  | some (.directory _ entries), name :: rest =>
    if name = ".." then walk tree links place.dropLast rest
    else
      let name := FileName.ofText name
      match Entries.get? entries name with
      | none => .error (missing name)
      | some (.link target) =>
        match links with
        | 0 => .error .tooManyLinks
        | links + 1 =>
          if target = "" then .error .notFound
          else
            let place := if isAbsolute target then [] else place
            walk tree links place (namesOf target ++ rest)
      | some _ => walk tree links (place ++ [name]) rest
  | some _, _ :: _ => .error .notDirectory
termination_by (links, names.length)

/-- The node that a path leads to. -/
def find (tree : FileTree) (path : String) : Except FileError FileNode :=
  if path = "" then .error .notFound
  else if pathLimit ≤ path.utf8ByteSize then .error .nameTooLong
  else
    match walk tree maxLinks (tree.start path) (namesOf path) with
    | .ok (.directory size entries) => .ok (.directory size entries)
    | .ok node => if asksDirectory path then .error .notDirectory else .ok node
    | .error e => .error e

/-- Does the path lead to a directory? -/
def isDirectory (tree : FileTree) (path : String) : Bool :=
  match tree.find path with
  | .ok (.directory _ _) => true
  | _ => false

/-- The entries of a directory. -/
def list (tree : FileTree) (path : String) : Except FileError (List (FileName × FileNode)) :=
  match tree.find path with
  | .ok (.directory _ entries) => .ok entries
  | .ok _ => .error .notDirectory
  | .error e => .error e

/-- The text of a file. -/
def readText (tree : FileTree) (path : String) : Except FileError String :=
  match tree.find path with
  | .ok (.file content) =>
    match String.fromUTF8? content with
    | some text => .ok text
    | none => .error .notUtf8
  | .ok (.directory _ _) => .error .isDirectory
  | .ok _ => .error .notFound
  | .error e => .error e

/-- The path of an entry of a directory, as a text. -/
def entryPath (directory name : String) : String :=
  if directory = "" || directory.endsWith "/" then directory ++ name else directory ++ "/" ++ name

/-- How many bytes it has. -/
def entryPathSize (directory : String) (name : FileName) : Nat :=
  (entryPath directory "").utf8ByteSize + name.bytes.length

/-- Puts a node where a path leads by its names alone, with new directories of a size on the way. -/
def put (tree : FileTree) (size : Nat) (path : String) (node : FileNode) : FileTree :=
  let empty := FileNode.directory size []
  let (top, place) := (namesOf path).foldl (fun (top, place) name =>
    let top := FileNode.place size empty top place
    (top, if name = ".." then place.dropLast else place ++ [FileName.ofText name]))
    (tree.top, tree.start path)
  { tree with top := FileNode.place size node top place }

end FileTree

end ServiceContracts
