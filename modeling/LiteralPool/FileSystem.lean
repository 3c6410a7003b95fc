import LiteralPool.Path

/-!
# File systems

A file system is a tree of directories and files, without links, in which a program runs at some
place. A path leads to a *location*, the names of the directories on the way from the root and of
the file itself: each piece is taken at a directory, `..` leads to the directory above, and the
root is above itself. So there is one location for each file, and two paths name the same file if
and only if they lead to the same location.
-/

namespace LiteralPool

/-- The names on the way from the root to a file or a directory. -/
abbrev Location := List String

/-- A file with its contents, or a directory with what it holds. -/
inductive Node
  | file (contents : ByteArray)
  | directory (entries : List (String × Node))

namespace Node

/-- A directory with nothing in it. -/
def emptyDirectory : Node := directory []

/-- What a directory holds under a name. -/
def child? (name : String) : Node → Option Node
  | file _ => none
  | directory entries => entries.lookup name

/-- What stands at a location. -/
def get? (node : Node) : Location → Option Node
  | [] => some node
  | name :: location => (node.child? name).bind fun child => child.get? location

/-- Replaces what stands under a name, or adds it at the end. -/
def setEntry (name : String) (new : Node) : List (String × Node) → List (String × Node)
  | [] => [(name, new)]
  | (other, node) :: entries =>
    if other = name then (name, new) :: entries else (other, node) :: setEntry name new entries

/-- Puts a node at a location, and makes the directories on the way that are missing. Nothing can
be put below a file. -/
def put (node : Node) (new : Node) : Location → Node
  | [] => new
  | name :: location =>
    match node with
    | file contents => file contents
    | directory entries =>
      let child := (entries.lookup name).getD emptyDirectory
      directory (setEntry name (child.put new location) entries)

mutual

/-- The files in and below a node that stands at `location`, each with its location. -/
def files (location : Location) : Node → List (Location × ByteArray)
  | file contents => [(location, contents)]
  | directory entries => entryFiles location entries

/-- The files in and below the entries of a directory that stands at `location`. -/
def entryFiles (location : Location) : List (String × Node) → List (Location × ByteArray)
  | [] => []
  | (name, node) :: entries => node.files (location ++ [name]) ++ entryFiles location entries

end

end Node

/-- A tree of files, and the location of the directory in which a program runs. -/
structure FileSystem where
  root : Node
  current : Location

namespace FileSystem

/-- A file system with nothing but the directory in which a program runs. -/
def ofCurrent (current : Location) : FileSystem :=
  ⟨Node.emptyDirectory.put Node.emptyDirectory current, current⟩

/-- Where one piece of a path leads from a location. -/
def follow? (fs : FileSystem) (location : Location) (piece : String) : Option Location :=
  match fs.root.get? location with
  | some (.directory entries) =>
    if Path.isIdle piece then some location
    else if piece = ".." then some location.dropLast
    else if (entries.lookup piece).isSome then some (location ++ [piece])
    else none
  | _ => none

/-- Where a path begins. -/
def origin (fs : FileSystem) (p : Path) : Location := if p.isAbsolute then [] else fs.current

/-- Where a path leads, if there is something. -/
def locate? (fs : FileSystem) (p : Path) : Option Location :=
  if p.isNameable then p.pieces.foldlM fs.follow? (fs.origin p) else none

/-- Do two paths lead to the same place? -/
def sameFile (fs : FileSystem) (p q : Path) : Bool :=
  match fs.locate? p, fs.locate? q with
  | some a, some b => a == b
  | _, _ => false

/-- The contents of the file at a location. -/
def fileAt? (fs : FileSystem) (location : Location) : Option ByteArray :=
  match fs.root.get? location with
  | some (.file contents) => some contents
  | _ => none

/-- The contents of the file that a path leads to. -/
def bytes? (fs : FileSystem) (p : Path) : Option ByteArray := (fs.locate? p).bind fs.fileAt?

/-- The text of the file that a path leads to, if its bytes are UTF-8. -/
def read? (fs : FileSystem) (p : Path) : Option String := (fs.bytes? p).bind String.fromUTF8?

/-- The location at which a path would create a file, or find one to replace: a proper name in a
directory, at which no directory stands. -/
def target? (fs : FileSystem) (p : Path) : Option Location :=
  if p.isNameable then
    p.pieces.getLast?.bind fun name =>
      if Path.isIdle name || name == ".." then none
      else (p.pieces.dropLast.foldlM fs.follow? (fs.origin p)).bind fun location =>
        match fs.root.get? location with
        | some (.directory entries) =>
          match entries.lookup name with
          | some (.directory _) => none
          | _ => some (location ++ [name])
        | _ => none
  else none

/-- Creates or replaces the file that a path names. -/
def create? (fs : FileSystem) (p : Path) (contents : ByteArray) : Option FileSystem :=
  (fs.target? p).map fun location => { fs with root := fs.root.put (.file contents) location }

end FileSystem

end LiteralPool
