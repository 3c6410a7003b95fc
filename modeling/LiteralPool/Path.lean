import LiteralPool.Text.Utf8

/-!
# Paths

A path is a text in which slashes separate *pieces*. Its *components* say which way it goes: empty
pieces and pieces `.` go nowhere and are left out, but for a `.` in front of everything, and an
empty piece in front of everything is the root. Two paths that are spelled differently can have
the same components.

The name of a file may have an extension, from its last point on, unless that is its first
character. `Path.withExtension` replaces it.
-/

namespace LiteralPool

/-- The text of a path. -/
structure Path where
  text : String
deriving DecidableEq

/-- One step of the way that a path goes. -/
inductive Component
  | root
  | current
  | parent
  | normal (name : String)
deriving DecidableEq

namespace Path

/-- Puts a character in front of pieces: a slash begins a new piece. -/
def extendPieces (c : Char) (pieces : List (List Char)) : List (List Char) :=
  if c = '/' then [] :: pieces else pieces.modifyHead (c :: ·)

/-- The runs of characters between the slashes of a path, of which there is at least one. -/
def pieces (p : Path) : List String :=
  (p.text.toList.foldr extendPieces [[]]).map String.ofList

/-- The path of some pieces. -/
def ofPieces (pieces : List String) : Path := ⟨"/".intercalate pieces⟩

/-- Does the path begin at the root? -/
def isAbsolute (p : Path) : Bool := p.text.toList.head? == some '/'

/-- Can the path name anything at all? It cannot if its text is empty or holds a NUL. -/
def isNameable (p : Path) : Bool := p.text != "" && !p.text.toList.contains '\x00'

/-- Does a piece go nowhere, unless it is the first? -/
def isIdle (piece : String) : Bool := piece == "" || piece == "."

/-- The component of a piece that is not the first. -/
def component? (piece : String) : Option Component :=
  if isIdle piece then none
  else if piece = ".." then some .parent
  else some (.normal piece)

/-- The component of the first piece. -/
def firstComponent? (p : Path) (piece : String) : Option Component :=
  if p.isAbsolute then some .root
  else if piece = "." then some .current
  else component? piece

/-- The way that a path goes. -/
def components (p : Path) : List Component :=
  match p.pieces with
  | [] => []
  | piece :: pieces => (p.firstComponent? piece).toList ++ pieces.filterMap component?

/-- The pieces of a path without those at its end that go nowhere. -/
def trimmed (p : Path) : List String := (p.pieces.reverse.dropWhile isIdle).reverse

/-- The name at the end of a path, if it ends in one. -/
def name? (p : Path) : Option String :=
  p.trimmed.getLast?.filter (· ≠ "..")

/-- A name in two parts: what stands in front of the last point, and the extension behind it. A
point in front of everything begins no extension. -/
def splitExtension (name : String) : String × Option String :=
  let extension := name.toList.reverse.takeWhile (· != '.')
  match name.toList.reverse.dropWhile (· != '.') with
  | [] => (name, none)
  | [_] => (name, none)
  | _ :: stem => (String.ofList stem.reverse, some (String.ofList extension.reverse))

/-- The extension of the name at the end of a path. -/
def extension? (p : Path) : Option String := p.name?.bind fun name => (splitExtension name).2

/-- Gives the name at the end of a path another extension. A path that ends in no name stays as it
is. -/
def setExtension (p : Path) (extension : String) : Path :=
  match p.name? with
  | none => p
  | some name => ofPieces (p.trimmed.dropLast ++ [(splitExtension name).1 ++ "." ++ extension])

/-- Drops characters from the front as long as they fit into so many bytes. -/
def dropBytes : Nat → List Char → List Char
  | _, [] => []
  | bytes, c :: cs => if c.utf8Size ≤ bytes then dropBytes (bytes - c.utf8Size) cs else c :: cs

/-- Drops characters from the end as long as they fit into so many bytes. -/
def cut (p : Path) (bytes : Nat) : Path :=
  ⟨String.ofList (dropBytes bytes p.text.toList.reverse).reverse⟩

/-- Replaces the extension at the end of a path. As many bytes as the old extension has are taken
off the end of the text, even where slashes follow the name; what is left gets the new one. -/
def withExtension (p : Path) (extension : String) : Path :=
  match p.extension? with
  | none => p.setExtension extension
  | some old => (p.cut (Text.utf8Length old.toList)).setExtension extension

end Path

end LiteralPool
