import LiteralPool.DataSection
import LiteralPool.Listing
import LiteralPool.Path
import LiteralPool.TokenStream

/-!
# What can be reported of a run

While a source is read, literals are pooled and the data section is made, *events* happen: a token
was read, a label was given away, a value had its label already. Nobody needs to listen to them.

The events of a part of a run follow from what the part works on. A source reports every token that
is read from it, also one that runs into the next character and is refused for that.
-/

namespace LiteralPool

open Text

/-- What can be reported of a run. -/
inductive Event
  /-- A token was read; what stands behind it was not looked at yet. -/
  | token (t : Token)
  /-- So many literals were read from a file. -/
  | literals (count : Nat) (file : Path)
  /-- A label was given away. -/
  | label (l : Label)
  /-- An integer or a string was entered. -/
  | entered (c : Constant)
  /-- An integer or a string had its label already. -/
  | reused (c : Constant)
  /-- So many labels are given away. -/
  | labels (count : Nat)
  /-- So many constants are to be stored. -/
  | constants (count : Nat)
  /-- A constant is stored. -/
  | constant (c : Constant)
deriving DecidableEq

/-! ## Reading -/

namespace Cursor

/-- The token that a step reads, whether a delimiter is behind it or not. -/
def token? (c : Cursor) : Option Token :=
  let start := c.skipTrivia
  let scan := Scan.literal start.rest
  match scan.answer with
  | .ok (some literal) =>
    some ⟨literal, ⟨start.offset, utf8Length scan.taken⟩, String.ofList scan.taken⟩
  | _ => none

/-- The tokens that are read from `c` on, behind those that `before` holds in reverse. -/
def tokensFrom (before : List Token) (c : Cursor) : List Token :=
  match _ : c.step.answer with
  | .ok (some token) => tokensFrom (token :: before) c.step.next
  | _ => (c.token?.toList ++ before).reverse
termination_by c.rest.length
decreasing_by exact length_rest_lt_of_token ‹_›

end Cursor

/-- What a source reports while its literals are read. -/
def Source.events (s : Source) : List Event := (s.start.tokensFrom []).map .token

/-! ## Pooling -/

namespace Pool

/-- What is reported if a value is requested. The Booleans have their labels from the beginning. -/
def requestEvents (p : Pool) : Value → List Event
  | .bool _ => []
  | v =>
    match p.label? v with
    | some l => [.reused ⟨l, v⟩]
    | none => [.label ⟨p.free⟩, .entered ⟨⟨p.free⟩, v⟩]

/-- What is reported if the label of a literal is requested. -/
def literalEvents (p : Pool) : Literal → List Event
  | .value v => p.requestEvents v
  | .nothing => []

/-- What is reported while the data section of a pool is made. -/
def dataEvents (p : Pool) : List Event :=
  .constants p.constants.length :: p.constants.map .constant

end Pool

end LiteralPool
