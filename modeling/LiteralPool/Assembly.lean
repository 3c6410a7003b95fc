import LiteralPool.Pool
import LiteralPool.Text.Quoted

/-!
# Assembly text

An assembly text is a sequence of lines. A line is a directive, which begins with a tab and a
point, a label, which ends in a colon, or a comment, which begins with a number sign.

The operand of a string directive is escaped, so no string reaches beyond its line: a line feed in
it is written as an escape. A comment is written as it is.
-/

namespace LiteralPool

/-- A line of assembly text. -/
inductive Line
  /-- What follows belongs to the data section. -/
  | data
  /-- What follows begins at a multiple of `2 ^ exponent` bytes. -/
  | align (exponent : UInt8)
  | word (value : Int32)
  /-- The bytes of a string and a NUL behind them. -/
  | string (s : String)
  | label (l : Label)
  | comment (text : String)
deriving DecidableEq

/-- The text of a line, without the line feed at its end. -/
def Line.text : Line → String
  | data => "\t.data"
  | align exponent => "\t.align " ++ exponent.toNat.repr
  | word value => "\t.word " ++ value.toInt.repr
  | string s => "\t.string \"" ++ Text.quoteBody s ++ "\""
  | label l => l.name ++ ":"
  | comment text => "# " ++ text

/-- A sequence of lines. -/
structure Assembly where
  lines : List Line
deriving DecidableEq

namespace Assembly

/-- No lines. -/
def empty : Assembly := ⟨[]⟩

/-- One line. -/
def singleton (line : Line) : Assembly := ⟨[line]⟩

/-- The given lines in their order. -/
def ofList (lines : List Line) : Assembly := ⟨lines⟩

/-- The number of lines. -/
def size (a : Assembly) : Nat := a.lines.length

/-- Are there no lines? -/
def isEmpty (a : Assembly) : Bool := a.lines.isEmpty

/-- Adds a line at the end. -/
def push (a : Assembly) (line : Line) : Assembly := ⟨a.lines ++ [line]⟩

/-- Adds a line in front. -/
def cons (line : Line) (a : Assembly) : Assembly := ⟨line :: a.lines⟩

/-- Adds lines at the end. -/
def append (a : Assembly) (lines : List Line) : Assembly := ⟨a.lines ++ lines⟩

/-- The lines in the opposite order. -/
def reverse (a : Assembly) : Assembly := ⟨a.lines.reverse⟩

/-- The lines, each ended by a line feed. -/
def text (a : Assembly) : String := String.join (a.lines.map fun line => line.text ++ "\n")

end Assembly

end LiteralPool
