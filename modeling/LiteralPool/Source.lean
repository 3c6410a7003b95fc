import LiteralPool.Text.Utf8

/-!
# Sources and positions in them

A source is the text of a literal file, with the file's name when it has one. Places in it are
byte offsets; for the reader of a message an offset becomes a line and a column, both counted from
zero, the column in characters.

`Source.excerpt?` finds the line that holds an offset. A line ends in front of a line feed, and a
text that ends in one has no further line behind it. An offset just behind the last character of
a line belongs to that line; an offset inside a character, or beyond the last line, has no excerpt.
-/

namespace LiteralPool

/-- The text of a literal file, and the file's name if it has one. -/
structure Source where
  file : Option String
  text : String
deriving DecidableEq

/-- A run of bytes in a source. -/
structure Span where
  offset : Nat
  length : Nat
deriving DecidableEq

/-- The offset at which a span ends. -/
def Span.stop (s : Span) : Nat := s.offset + s.length

/-- A line, and a column in characters, both counted from zero. -/
structure Position where
  line : Nat
  col : Nat
deriving DecidableEq

/-- A line of a source, and a position in it. -/
structure Excerpt where
  position : Position
  text : String
deriving DecidableEq

namespace Text

/-- The characters in front of the first line feed. -/
def firstLine (cs : List Char) : List Char := cs.takeWhile (· != '\n')

/-- What follows the first line feed. -/
def laterLines (cs : List Char) : List Char := (cs.dropWhile (· != '\n')).drop 1

theorem length_laterLines_lt {cs : List Char} (h : cs ≠ []) :
    (laterLines cs).length < cs.length := by
  have hd := (List.dropWhile_suffix (· != '\n') (l := cs)).length_le
  have hp := List.length_pos_iff.mpr h
  rw [laterLines, List.length_drop]
  omega

/-- The number of characters in the first `bytes` bytes, besides the `count` counted already, if
these bytes end between two characters. -/
def columnFrom (count : Nat) : Nat → List Char → Option Nat
  | 0, _ => some count
  | _ + 1, [] => none
  | bytes + 1, c :: cs =>
    if c.utf8Size ≤ bytes + 1 then columnFrom (count + 1) (bytes + 1 - c.utf8Size) cs else none

/-- The number of characters in the first `bytes` bytes, if these end between two characters. -/
def column? (bytes : Nat) (cs : List Char) : Option Nat := columnFrom 0 bytes cs

/-- The excerpt at byte `offset` of a text that begins with line number `line`. -/
def excerptFrom (line offset : Nat) (cs : List Char) : Option Excerpt :=
  if h : cs = [] then none
  else
    let here := firstLine cs
    let size := utf8Length here
    if offset ≤ size then
      (column? offset here).map fun col => ⟨⟨line, col⟩, String.ofList here⟩
    else excerptFrom (line + 1) (offset - (size + 1)) (laterLines cs)
termination_by cs.length
decreasing_by exact length_laterLines_lt h

end Text

/-- The line that holds byte `offset` of the source, and the position of the offset in it. -/
def Source.excerpt? (s : Source) (offset : Nat) : Option Excerpt :=
  Text.excerptFrom 0 offset s.text.toList

end LiteralPool
