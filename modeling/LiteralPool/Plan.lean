import LiteralPool.CommandLine.Options
import LiteralPool.DataSection
import LiteralPool.Event
import LiteralPool.OutputPath

/-!
# What a run is to do

A run is planned before anything is written: from the options, the text of the input, and whether
the output path leads to the input, follows all that is to be printed and reported, and then either
a failure or the file that is to be created, with its contents (`Options.plan`). Of several failures
the first counts, in the order: the input cannot be read, the output would replace it, it is
malformed.

The listing is printed line by line, and each line behind the events of its request.
-/

namespace LiteralPool

/-- Why a run stopped. -/
inductive Failure
  | unreadable (file : Path)
  | refused (e : OutputIsInput)
  | malformed (d : Diagnostic)
  | uncreatable (file : Path)
deriving DecidableEq

/-- What a failure is called. A diagnostic may be too wide to be drawn. -/
def Failure.message : Failure → Except DrawingError String
  | unreadable file => .ok ("could not read " ++ file.text)
  | refused e => .ok e.message
  | malformed d => d.draw
  | uncreatable file => .ok ("could not create " ++ file.text)

/-- What a run brings out: a text to be printed, or an event to be reported. -/
inductive Output
  | text (text : String)
  | event (e : Event)
deriving DecidableEq

/-- A file that is to be created. -/
structure NewFile where
  path : Path
  contents : String
deriving DecidableEq

/-- What a run brings out, and then why it stops or which file it creates. -/
structure Plan where
  outputs : List Output
  result : Except Failure NewFile

/-- What was brought out so far for literals, the last first, and the pool by then. -/
structure Pooling where
  backwards : List Output
  pool : Pool

/-- Requests the label of one more literal, and prints its line if `labels`. -/
def Pooling.add (labels : Bool) (s : Pooling) (literal : Literal) : Pooling :=
  let events := (s.pool.literalEvents literal).map Output.event
  let (label, pool) := s.pool.requestLiteral literal
  let line := if labels then [Output.text (literal.listed label)] else []
  ⟨line ++ (events.reverse ++ s.backwards), pool⟩

/-- The assembly text of a pool behind a comment. -/
def Pool.assembly (p : Pool) (comment : String) : Assembly := p.dataSection.cons (.comment comment)

namespace Options

/-- Where the output goes, if nothing speaks against it. -/
def outputPath (o : Options) : Path := o.output.getD o.file.defaultOutput

/-- Pools the literals of the input, one after the other. -/
def pooling (o : Options) (literals : List Literal) : Pooling :=
  literals.foldl (Pooling.add o.labels) ⟨[], Pool.empty⟩

/-- The plan for the literals of the input, behind the events of reading them. -/
def planLiterals (o : Options) (output : Path) (events : List Event) (literals : List Literal) :
    Plan :=
  let pooling := o.pooling literals
  let pool := pooling.pool
  { outputs := events.map .event ++ [.event (.literals literals.length o.file)] ++
      pooling.backwards.reverse ++ [.event (.labels pool.allocated)] ++
      pool.dataEvents.map .event
    result := .ok ⟨output, (pool.assembly ("constants of " ++ o.file.text)).text⟩ }

/-- The plan for an input with this text, or with none that can be read. -/
def plan (o : Options) (text : Option String) (sameFile : Bool) : Plan :=
  match text with
  | none => ⟨[], .error (.unreadable o.file)⟩
  | some text =>
    match o.file.checkOutput o.outputPath sameFile with
    | .error e => ⟨[], .error (.refused e)⟩
    | .ok output =>
      let source : Source := ⟨some o.file.text, text⟩
      match source.literals with
      | .error d => ⟨source.events.map .event, .error (.malformed d)⟩
      | .ok literals => o.planLiterals output source.events literals

end Options

end LiteralPool
