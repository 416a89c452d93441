import SlangScript.Main
import SlangScript.Proofs.Grammar.Program
import SlangScript.Proofs.Run.Cap
import SlangScript.Proofs.Grammar.Shape
import SlangScript.Proofs.Run.Soundness
import SlangScript.Proofs.Token.Spelling
import SlangScript.Proofs.Grammar.Printed
import SlangScript.Proofs.RoundTrip
import SlangScript.Proofs.Run.Law
import SlangScript.Proofs.Run.Truncation
import SlangScript.Proofs.Grammar.Law
import SlangScript.Proofs.Grammar.Progress
import SlangScript.Proofs.Grammar.Horizon
import SlangScript.Proofs.Grammar.Stray
import SlangScript.Proofs.Grammar.Overdeep
import SlangScript.Proofs.Grammar.Retold
import SlangScript.Proofs.Joined
import SlangScript.Proofs.Grammar.SourceOrder
import SlangScript.Proofs.Run.Assigned
import SlangScript.Proofs.Bare
import SlangScript.Proofs.Token.Lines
import SlangScript.Proofs.Token.Span
import SlangScript.Proofs.Number.Plain
import SlangScript.Proofs.Run.Meaning
import SlangScript.Proofs.Run.Depth
import SlangScript.Proofs.Run.Frame
import SlangScript.Proofs.CommandLine.Prompt
import SlangScript.Proofs.CommandLine.Debug
import SlangScript.Proofs.Run.Pruned
import SlangScript.Proofs.Run.Names
import SlangScript.Proofs.Grammar.Relocated
import SlangScript.Proofs.Token.Place
import SlangScript.Proofs.Grammar.Reports
import SlangScript.Proofs.Reported
import SlangScript.Proofs.Token.Offset
import SlangScript.Proofs.Respaced
import SlangScript.Proofs.Token.Literal
import SlangScript.Proofs.Number.Agreement
import SlangScript.Proofs.Flat
import SlangScript.Proofs.Number.Written
import SlangScript.Proofs.Text.Quoted
import SlangScript.Proofs.Token.Written
import SlangScript.Proofs.Node.Written
import SlangScript.Proofs.Outline
import SlangScript.Proofs.Node.Outline
import SlangScript.Proofs.Dumps
import SlangScript.Proofs.Nesting
