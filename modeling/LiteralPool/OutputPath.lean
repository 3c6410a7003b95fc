import LiteralPool.FileSystem

/-!
# Where the output goes

The output goes where it was asked to go, or else next to the input, to a file of the same name
with the extension `s`. It never goes to the input itself: a path that goes the same way as the
input's, or that leads to the same file, is refused.
-/

namespace LiteralPool

/-- The output would replace the input. -/
structure OutputIsInput where
  input : Path
deriving DecidableEq

/-- What the refusal is called. -/
def OutputIsInput.message (e : OutputIsInput) : String :=
  "refusing to overwrite the input file " ++ e.input.text ++ ", pass a different `--output`"

namespace Path

/-- Where the output goes if nothing else is asked for. -/
def defaultOutput (input : Path) : Path := input.withExtension "s"

/-- Lets an output path pass unless it goes the way of the input's, or is known to lead to the same
file. -/
def checkOutput (input output : Path) (sameFile : Bool) : Except OutputIsInput Path :=
  if output.components = input.components ∨ sameFile then .error ⟨input⟩ else .ok output

end Path

/-- Where the output for an input goes, which may be asked for. -/
def FileSystem.outputPath (fs : FileSystem) (input : Path) (requested : Option Path) :
    Except OutputIsInput Path :=
  let output := requested.getD input.defaultOutput
  input.checkOutput output (fs.sameFile input output)

end LiteralPool
