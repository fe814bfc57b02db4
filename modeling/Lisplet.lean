import Lisplet.CommandLine
import Lisplet.Environment
import Lisplet.Eval
import Lisplet.Main
import Lisplet.Number
import Lisplet.Proofs.Balance
import Lisplet.Proofs.Binary64
import Lisplet.Proofs.Blame
import Lisplet.Proofs.Caller
import Lisplet.Proofs.Contexts
import Lisplet.Proofs.Definition
import Lisplet.Proofs.Display
import Lisplet.Proofs.Equality
import Lisplet.Proofs.File
import Lisplet.Proofs.Frame
import Lisplet.Proofs.Irrelevant
import Lisplet.Proofs.Later
import Lisplet.Proofs.Lexeme
import Lisplet.Proofs.Limit
import Lisplet.Proofs.Lines
import Lisplet.Proofs.Loop
import Lisplet.Proofs.Magnitude
import Lisplet.Proofs.NumberText
import Lisplet.Proofs.Parts
import Lisplet.Proofs.Reachable
import Lisplet.Proofs.Reading
import Lisplet.Proofs.Reserved
import Lisplet.Proofs.Resolution
import Lisplet.Proofs.Returned
import Lisplet.Proofs.RoundTrip
import Lisplet.Proofs.Rounding
import Lisplet.Proofs.Row
import Lisplet.Proofs.Run
import Lisplet.Proofs.Session
import Lisplet.Proofs.Source
import Lisplet.Proofs.Stream
import Lisplet.Proofs.WellFormed
import Lisplet.Session
import Lisplet.Token.Stream
import Lisplet.Tree.Script
import Lisplet.Value.Equality
