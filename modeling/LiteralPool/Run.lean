import LiteralPool.Plan

/-!
# A run of the command

A run reads the input, makes its plan, and carries it out: it prints and reports what the plan
brings out, and creates the output file. If the plan ends in a failure no file is touched; only the
creation of the file can fail after the listing was printed.

A run acts through a `Host`. `World` is the host that a file system is in an `Environment`: its runs
are functions, and statements about runs are statements about these.

The environment may ask for the events of a run, with a filter for a subscriber. Which text the
subscriber makes of an event is up to the subscriber: it stands on the standard output, between the
texts of the run itself, and the world keeps apart which is which.
-/

namespace LiteralPool

/-- What a run can do. -/
structure Host (m : Type → Type) where
  /-- The filter for the events, if they are asked for. -/
  filter : m (Option String)
  /-- Lets a subscriber have the events that pass the filter. -/
  subscribe : (filter : String) → m Unit
  /-- Hands an event to the subscriber, if there is one. -/
  notify : Event → m Unit
  /-- The text of a file, if it can be read. -/
  read : Path → m (Option String)
  /-- Do both paths lead to one existing file or directory? -/
  sameFile : Path → Path → m Bool
  /-- Writes to the standard output. -/
  print : String → m Unit
  /-- Writes to the standard error. -/
  complain : String → m Unit
  /-- Creates or replaces a file, and says whether that could be done. -/
  create : Path → String → m Bool

/-- How a run ended. -/
inductive Ending
  | exit (code : UInt8)
  /-- The message of a failure could not be drawn. -/
  | crash (e : DrawingError)
deriving DecidableEq

namespace Host

variable {m : Type → Type} [Monad m]

/-- Lets a subscriber have the events, if they are asked for. -/
def listen (host : Host m) : m Unit := do
  match ← host.filter with
  | some filter => host.subscribe filter
  | none => return ()

/-- Prints a text, or reports an event. -/
def bringOut (host : Host m) : Output → m Unit
  | .text text => host.print text
  | .event e => host.notify e

/-- Does what a plan says. -/
def carryOut (host : Host m) (plan : Plan) : m (Except Failure Unit) := do
  plan.outputs.forM host.bringOut
  match plan.result with
  | .error failure => return .error failure
  | .ok file =>
    if ← host.create file.path file.contents then return .ok ()
    else return .error (.uncreatable file.path)

/-- Does what the options ask for. -/
def perform (host : Host m) (o : Options) : m (Except Failure Unit) := do
  host.listen
  let text ← host.read o.file
  let sameFile ← host.sameFile o.file o.outputPath
  host.carryOut (o.plan text sameFile)

/-- Reports how the options were carried out. -/
def report (host : Host m) : Except Failure Unit → m Ending
  | .ok () => return .exit 0
  | .error failure =>
    match failure.message with
    | .ok message => do
      host.complain (message ++ "\n")
      return .exit 1
    | .error e => return .crash e

/-- Reports why there are no options to be carried out. -/
def reportInterruption (host : Host m) : Interruption → m Ending
  | .help => do
    host.print (Usage.help ++ "\n")
    return .exit 0
  | .version => do
    host.print (Usage.version ++ "\n")
    return .exit 0
  | .misuse e => do
    host.complain (e.message ++ "\n")
    return .exit 1

/-- Runs the command with its arguments. -/
def run (host : Host m) (arguments : List String) : m Ending :=
  match Options.ofArguments arguments with
  | .ok o => do host.report (← host.perform o)
  | .error i => host.reportInterruption i

end Host

/-- What a subscriber to the events of a run writes. -/
structure Subscriber where
  /-- What it complains about in a filter. -/
  complaint : (filter : String) → String
  /-- What it prints for an event behind so many texts that were printed. The texts count, as the
  subscriber may look at a clock. -/
  text : (filter : String) → (behind : Nat) → Event → String

/-- What there is besides files and arguments when a command is run. As the subscriber may look at a
clock, a later run may well have another environment. -/
structure Environment where
  /-- The filter for the events, if they are asked for. -/
  filter : Option String
  subscriber : Subscriber

namespace Environment

/-- The environment in which no events are asked for. -/
def plain : Environment := ⟨none, ⟨fun _ => "", fun _ _ _ => ""⟩⟩

/-- Is nothing printed for any event? So it is if no events are asked for, or if the filter lets
none of them pass. -/
def Silent (e : Environment) : Prop :=
  ∀ filter ∈ e.filter, ∀ behind event, e.subscriber.text filter behind event = ""

/-- What is complained about in the filter, if there is one. -/
def complaints (e : Environment) : String := e.filter.elim "" e.subscriber.complaint

end Environment

/-- A text that was printed. -/
structure Chunk where
  text : String
  /-- Was it printed for an event? -/
  reported : Bool
deriving DecidableEq

/-- A file system, what was written to the standard streams, and the filter of the subscriber to
the events, if there is one. -/
structure World where
  files : FileSystem
  /-- The texts that were printed, the last first. -/
  chunks : List Chunk
  complaints : String
  filter : Option String

namespace World

/-- A file system with nothing written to the standard streams. -/
def ofFiles (files : FileSystem) : World := ⟨files, [], "", none⟩

/-- All that was printed. -/
def printed (w : World) : String := String.join (w.chunks.reverse.map Chunk.text)

/-- What was printed, but for events. -/
def own (w : World) : String :=
  String.join ((w.chunks.reverse.filter fun chunk => !chunk.reported).map Chunk.text)

/-- Prints a text of the run itself. -/
def print (w : World) (text : String) : World := { w with chunks := ⟨text, false⟩ :: w.chunks }

/-- Prints what the subscriber makes of an event, if there is a subscriber. -/
def notify (e : Environment) (w : World) (event : Event) : World :=
  match w.filter with
  | some filter =>
    { w with chunks := ⟨e.subscriber.text filter w.chunks.length event, true⟩ :: w.chunks }
  | none => w

/-- Writes to the standard error. -/
def complain (w : World) (text : String) : World := { w with complaints := w.complaints ++ text }

/-- Lets the subscriber have the events that pass the filter. -/
def subscribe (e : Environment) (w : World) (filter : String) : World :=
  { w.complain (e.subscriber.complaint filter) with filter := some filter }

/-- Creates or replaces a file, if that is possible. -/
def create (w : World) (p : Path) (text : String) : Bool × World :=
  match w.files.create? p text.toUTF8 with
  | some files => (true, { w with files })
  | none => (false, w)

/-- A file system in an environment as a host. -/
def host (e : Environment) : Host (StateM World) where
  filter w := (e.filter, w)
  subscribe filter w := ((), w.subscribe e filter)
  notify event w := ((), w.notify e event)
  read p w := (w.files.read? p, w)
  sameFile p q w := (w.files.sameFile p q, w)
  print text w := ((), w.print text)
  complain text w := ((), w.complain text)
  create p text w := w.create p text

/-- Runs the command in a file system. -/
def run (files : FileSystem) (arguments : List String) (e : Environment := .plain) :
    Ending × World :=
  ((host e).run arguments).run (ofFiles files)

end World

end LiteralPool
