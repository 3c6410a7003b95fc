import LiteralPool.CommandLine.Usage
import LiteralPool.Path

/-!
# Options

A command line names an input file, and may name an output file and ask for the listing. Options
have a short and a long form; short ones without a value can be run together; a value follows its
option as the next argument, behind an equals sign, or, for a short option, at once. Behind the
argument `--` there are no options.

Arguments are taken one by one into a `Draft`. Help, the version and an argument that cannot be
placed end the reading at once; what is missing or repeated is found at the end (`Draft.finish`).
-/

namespace LiteralPool

/-- What a run is to do. -/
structure Options where
  file : Path
  output : Option Path
  /-- Is the listing to be printed? -/
  labels : Bool
deriving DecidableEq

/-- Why a command line leads to no run. -/
inductive Interruption
  | help
  | version
  | misuse (e : UsageError)
deriving DecidableEq

/-- What was read of a command line so far. -/
structure Draft where
  file : Option String
  /-- The last value of the option for the output file. -/
  output : Option String
  labelsCount : Nat
  outputCount : Nat
  /-- Does the option for the output file wait for its value? -/
  awaitsOutput : Bool
  /-- Are there no more options? -/
  onlyFiles : Bool
deriving DecidableEq

namespace Draft

/-- Nothing was read. -/
def empty : Draft := ⟨none, none, 0, 0, false, false⟩

/-- Refuses a command line. -/
def misuse (d : Draft) (problem : UsageProblem) : Interruption :=
  .misuse ⟨problem, 0 < d.labelsCount, 0 < d.outputCount⟩

/-- The option for the listing. -/
def addLabels (d : Draft) : Draft :=
  { d with labelsCount := d.labelsCount + 1, awaitsOutput := false }

/-- The option for the output file, with its value behind an equals sign or at once, or with none
so far. -/
def addOutput (d : Draft) : Option (List Char) → Draft
  | some value =>
    { d with
      output := some (String.ofList (value.dropWhile (· == '='))),
      outputCount := d.outputCount + 1, awaitsOutput := false }
  | none => { d with outputCount := d.outputCount + 1, awaitsOutput := true }

/-- The value that the option for the output file has waited for. -/
def setOutput (d : Draft) (value : String) : Draft :=
  { d with output := some value, awaitsOutput := false }

/-- An argument that is no option. -/
def addFile (d : Draft) (argument : String) : Except Interruption Draft :=
  match d.file with
  | none => .ok { d with file := some argument }
  | some _ => .error (d.misuse (.unexpected argument))

/-- The characters of an argument behind a single dash. -/
def addShort (d : Draft) : List Char → Except Interruption Draft
  | [] => .ok d
  | c :: cs =>
    if c = 'l' then d.addLabels.addShort cs
    else if c = 'o' then .ok (d.addOutput (if cs = [] then none else some cs))
    else if c = 'h' then .error .help
    else if c = 'V' then .error .version
    else .error (d.misuse (.unexpected (String.ofList ['-', c])))

/-- The characters of an argument behind two dashes or more. -/
def addLong (d : Draft) (cs : List Char) : Except Interruption Draft :=
  let name := String.ofList (cs.takeWhile (· != '='))
  let value := match cs.dropWhile (· != '=') with
    | [] => none
    | _ :: value => some value
  if name = "labels" then .ok d.addLabels
  else if name = "output" then .ok (d.addOutput value)
  else if name = "help" then .error .help
  else if name = "version" then .error .version
  else .error (d.misuse (.unexpected ("--" ++ name)))

/-- Takes the next argument. -/
def add (d : Draft) (argument : String) : Except Interruption Draft :=
  if d.onlyFiles then d.addFile argument
  else match argument.toList with
    | ['-', '-'] => .ok { d with onlyFiles := true }
    | '-' :: '-' :: cs => d.addLong (cs.dropWhile (· == '-'))
    | '-' :: c :: cs => d.addShort (c :: cs)
    | _ => if d.awaitsOutput then .ok (d.setOutput argument) else d.addFile argument

/-- The options, once all arguments are taken. -/
def finish (d : Draft) : Except Interruption Options :=
  match d.file with
  | none => .error (d.misuse .missingFile)
  | some file =>
    if 0 < d.outputCount ∧ d.output = none then .error (d.misuse .missingOutput)
    else if 1 < d.labelsCount then .error (d.misuse .repeatedLabels)
    else if 1 < d.outputCount then .error (d.misuse .repeatedOutput)
    else .ok ⟨⟨file⟩, d.output.map Path.mk, 0 < d.labelsCount⟩

end Draft

/-- The options of a command line. -/
def Options.ofArguments (arguments : List String) : Except Interruption Options :=
  arguments.foldlM Draft.add Draft.empty >>= Draft.finish

end LiteralPool
