import LiteralPool.Main
import LiteralPool.Proofs.Storage
import LiteralPool.Proofs.Numbering
import LiteralPool.Proofs.LineByLine
import LiteralPool.Proofs.Spelling
import LiteralPool.Proofs.Runs
import LiteralPool.Proofs.Emission
import LiteralPool.Proofs.Settling
import LiteralPool.Proofs.Spans
import LiteralPool.Proofs.Growth
import LiteralPool.Proofs.Reruns
import LiteralPool.Proofs.Sinks
import LiteralPool.Proofs.Display
import LiteralPool.Proofs.Readback
import LiteralPool.Proofs.Excerpts
import LiteralPool.Proofs.Drawing
import LiteralPool.Proofs.Integers
import LiteralPool.Proofs.Newcomers
import LiteralPool.Proofs.OutputPaths
import LiteralPool.Proofs.DefaultOutput
import LiteralPool.Proofs.Details
import LiteralPool.Proofs.Bodies
