import LiteralPool.Pool

/-!
# Listings

A listing has one line for each literal, with the label under which its value is stored, or `none`
for the literal that has no value. Making it requests the labels, in order.

`Pool.list` makes the whole listing. `Pool.listInto` writes it to a sink that has room for so many
bytes: it stops at the line that does not fit, of which the sink keeps as much as it has room for.
By then the literal of that line has been requested, and those behind it have not.
-/

namespace LiteralPool

/-- The line of a literal in a listing. -/
def Literal.listed (literal : Literal) (label : Option Label) : String :=
  literal.display ++ " -> " ++ label.elim "none" Label.name ++ "\n"

/-- Lines of a listing, and the pool after their literals were requested. -/
structure Listing where
  text : String
  pool : Pool

/-- Requests the label of one more literal, and adds its line. -/
def Listing.add (listing : Listing) (literal : Literal) : Listing :=
  let (label, pool) := listing.pool.requestLiteral literal
  ⟨listing.text ++ literal.listed label, pool⟩

/-- The whole listing of some literals. -/
def Pool.list (p : Pool) (literals : List Literal) : Listing :=
  literals.foldl Listing.add ⟨"", p⟩

/-- A store for bytes with limited room. -/
structure Sink where
  written : ByteArray
  room : Nat

/-- Why a text was not written. -/
inductive WriteError
  /-- There was no room for all of it. -/
  | full
deriving DecidableEq

/-- What the failure to write is called. -/
def WriteError.message : WriteError → String
  | full => "failed to write whole buffer"

namespace Sink

/-- A sink with nothing in it. -/
def ofRoom (room : Nat) : Sink := ⟨ByteArray.empty, room⟩

/-- Keeps the bytes of a text, or as many of them as there is room for. -/
def write (s : Sink) (text : String) : Sink × Except WriteError Unit :=
  let bytes := text.toUTF8
  if bytes.size ≤ s.room then (⟨s.written ++ bytes, s.room - bytes.size⟩, .ok ())
  else (⟨s.written ++ bytes.extract 0 s.room, 0⟩, .error .full)

end Sink

/-- What has become of a sink and a pool after a listing was written. -/
structure ListingInto where
  sink : Sink
  pool : Pool
  outcome : Except WriteError Unit

/-- Writes the listing of some literals to a sink, up to the line that does not fit. -/
def Pool.listInto (p : Pool) (sink : Sink) : List Literal → ListingInto
  | [] => ⟨sink, p, .ok ()⟩
  | literal :: literals =>
    let (label, p) := p.requestLiteral literal
    match sink.write (literal.listed label) with
    | (sink, .ok ()) => p.listInto sink literals
    | (sink, .error e) => ⟨sink, p, .error e⟩

end LiteralPool
