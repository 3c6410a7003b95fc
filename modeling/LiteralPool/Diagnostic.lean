import LiteralPool.Cause
import LiteralPool.Source

/-!
# Diagnostics

A diagnostic says what is wrong, where, and what was being read at the time:

```text
unexpected 'x'
expected digit after '-'
 --> lits.txt:1:2
  |
1 | -x
  |  ^
  = while integer
```

It is built from a cause by naming a place (`locate`) and by adding notes (`note`). The last place
named counts, and it says everything there is to know about the place; the notes keep their order.

Drawing can fail: the caret cannot be set further right than `maxColumn` columns.
-/

namespace LiteralPool

/-- What is wrong, the place if it is known, and what was being read. -/
structure Diagnostic where
  cause : Cause
  file : Option String
  excerpt : Option Excerpt
  notes : List String
deriving DecidableEq

/-- Why a diagnostic cannot be drawn. -/
inductive DrawingError
  /-- The caret would stand beyond the last column. -/
  | columnOutOfRange
deriving DecidableEq

/-- What the failure to draw a diagnostic is called. -/
def DrawingError.message : DrawingError → String
  | columnOutOfRange => "Formatting argument out of range"

namespace Diagnostic

/-- A diagnostic without a place and without notes. -/
def ofCause (cause : Cause) : Diagnostic := ⟨cause, none, none, []⟩

/-- Names the place: byte `offset` of a source. -/
def locate (d : Diagnostic) (source : Source) (offset : Nat) : Diagnostic :=
  { d with file := source.file, excerpt := source.excerpt? offset }

/-- Adds what was being read. -/
def note (d : Diagnostic) (text : String) : Diagnostic := { d with notes := d.notes ++ [text] }

/-- Where the diagnostic points, if that is known. -/
def position? (d : Diagnostic) : Option Position := d.excerpt.map Excerpt.position

/-- The last column, counted from one, at which a caret can be drawn. -/
def maxColumn : Nat := 65535

/-- A line of `n` blanks. -/
def blanks (n : Nat) : String := String.ofList (List.replicate n ' ')

/-- The left margin of the lines around an excerpt: as wide as the excerpt's line number. -/
def gutter (line : Nat) : String := blanks (line + 1).repr.length

/-- The excerpt under the name of its place, with a caret under the column. -/
def drawExcerpt (file : String) (excerpt : Excerpt) : String :=
  let line := (excerpt.position.line + 1).repr
  let margin := gutter excerpt.position.line
  "\n" ++ margin ++ "--> " ++ file ++ ":" ++ line ++ ":" ++ (excerpt.position.col + 1).repr ++
    "\n" ++ margin ++ " |" ++
    "\n" ++ line ++ " | " ++ excerpt.text ++
    "\n" ++ margin ++ " | " ++ blanks excerpt.position.col ++ "^"

/-- The notes, one a line, behind a margin. -/
def drawNotes (margin : String) (notes : List String) : String :=
  String.join (notes.map fun note => "\n" ++ margin ++ " = while " ++ note)

/-- The whole text of a diagnostic. -/
def draw (d : Diagnostic) : Except DrawingError String :=
  match d.excerpt, d.file with
  | some excerpt, file =>
    if excerpt.position.col + 1 ≤ maxColumn then
      .ok (d.cause.message ++ drawExcerpt (file.getD "<input>") excerpt ++
        drawNotes (gutter excerpt.position.line) d.notes)
    else .error .columnOutOfRange
  | none, some file => .ok (d.cause.message ++ "\n --> " ++ file ++ drawNotes " " d.notes)
  | none, none => .ok (d.cause.message ++ drawNotes "" d.notes)

end Diagnostic

end LiteralPool
