/-!
# What the command says about its own use

The texts that describe the command line, and those that say what is wrong with one.
-/

namespace LiteralPool

/-- What is wrong with a command line. -/
inductive UsageProblem
  /-- There is no input file. -/
  | missingFile
  /-- An argument that nothing was expected for. -/
  | unexpected (argument : String)
  /-- The option for the output file stands at the end, or in front of another option. -/
  | missingOutput
  | repeatedLabels
  | repeatedOutput
deriving DecidableEq

/-- What is wrong with a command line, and which options it has up to there. -/
structure UsageError where
  problem : UsageProblem
  labels : Bool
  output : Bool
deriving DecidableEq

/-- What a problem with the command line is called. -/
def UsageProblem.message : UsageProblem → String
  | missingFile => "The following required arguments were not provided:\n    <file>"
  | unexpected argument =>
    "Found argument '" ++ argument ++ "' which wasn't expected, or isn't valid in this context"
  | missingOutput =>
    "The argument '--output <output>' requires a value but none was supplied"
  | repeatedLabels =>
    "The argument '--labels' was provided more than once, but cannot be used multiple times"
  | repeatedOutput =>
    "The argument '--output <output>' was provided more than once, " ++
      "but cannot be used multiple times"

namespace Usage

/-- The name and the version of the command. -/
def version : String := "constpool 0.1.0"

/-- The form of a command line. -/
def general : String := "constpool [FLAGS] [OPTIONS] <file>"

/-- The form of a command line with the options it has already. -/
def specific (labels output : Bool) : String :=
  if labels || output then
    "constpool <file>" ++ (if labels then " --labels" else "") ++
      (if output then " --output <output>" else "")
  else general

/-- The whole help text. -/
def help : String :=
  version ++ "\n\nUSAGE:\n    " ++ general ++ "\n\nFLAGS:\n" ++
  "    -h, --help       Prints help information\n" ++
  "    -l, --labels     Print the label each literal was assigned\n" ++
  "    -V, --version    Prints version information\n" ++
  "\nOPTIONS:\n" ++
  "    -o, --output <output>    " ++
  "The (optional) output file, defaults to the input with an `.s` extension\n" ++
  "\nARGS:\n" ++
  "    <file>    The literal file to pool"

end Usage

/-- The whole message about a command line. -/
def UsageError.message (e : UsageError) : String :=
  "error: " ++ e.problem.message ++ "\n\nUSAGE:\n    " ++ Usage.specific e.labels e.output ++
    "\n\nFor more information try --help"

end LiteralPool
