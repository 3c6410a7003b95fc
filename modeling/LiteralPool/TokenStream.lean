import LiteralPool.Cursor
import LiteralPool.Diagnostic

/-!
# Reading a whole source

A token stream yields the tokens of a source up to the first fault or the end, and nothing after
that (`next`). `TokenStream.drain` takes all that it still has to yield; `Source.literals` is what
a source says, or the diagnostic of what is wrong with it.
-/

namespace LiteralPool

/-- The tokens from a place on, unless the stream is finished. -/
structure TokenStream where
  cursor : Cursor
  finished : Bool
deriving DecidableEq

/-- What a stream yielded: tokens, then perhaps a fault; and what has become of the stream. -/
structure Reading where
  tokens : List Token
  fault : Option Fault
  stream : TokenStream
deriving DecidableEq

namespace TokenStream

/-- The next token or fault, if there is one. -/
def next (s : TokenStream) : Option (Except Fault Token) × TokenStream :=
  if s.finished then (none, s)
  else
    let step := s.cursor.step
    match step.answer with
    | .ok (some token) => (some (.ok token), ⟨step.next, false⟩)
    | .ok none => (none, ⟨step.next, true⟩)
    | .error fault => (some (.error fault), ⟨step.next, true⟩)

/-- What a stream yields from `c` on, behind the tokens that `before` holds in reverse. -/
def drainFrom (before : List Token) (c : Cursor) : Reading :=
  match _ : c.step.answer with
  | .ok (some token) => drainFrom (token :: before) c.step.next
  | .ok none => ⟨before.reverse, none, ⟨c.step.next, true⟩⟩
  | .error fault => ⟨before.reverse, some fault, ⟨c.step.next, true⟩⟩
termination_by c.rest.length
decreasing_by exact Cursor.length_rest_lt_of_token ‹_›

/-- All that a stream still has to yield. -/
def drain (s : TokenStream) : Reading :=
  if s.finished then ⟨[], none, s⟩ else drainFrom [] s.cursor

end TokenStream

namespace Source

/-- The front of a source. -/
def start (s : Source) : Cursor := ⟨0, s.text.toList⟩

/-- The tokens of a source, up to the first fault. -/
def read (s : Source) : Reading := (⟨s.start, false⟩ : TokenStream).drain

/-- The diagnostic of a fault found in this source. -/
def diagnose (s : Source) (fault : Fault) : Diagnostic :=
  fault.notes.foldl Diagnostic.note ((Diagnostic.ofCause fault.cause).locate s fault.offset)

/-- The literals of a source, or what is wrong with it. -/
def literals (s : Source) : Except Diagnostic (List Literal) :=
  let reading := s.read
  match reading.fault with
  | some fault => .error (s.diagnose fault)
  | none => .ok (reading.tokens.map Token.literal)

end Source

end LiteralPool
