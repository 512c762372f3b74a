import Munch.Main
import Munch.Proofs.Caret
import Munch.Proofs.Cover
import Munch.Proofs.Dumping
import Munch.Proofs.Escaping
import Munch.Proofs.Failure
import Munch.Proofs.Folders
import Munch.Proofs.Grammar
import Munch.Proofs.Halting
import Munch.Proofs.LastWrite
import Munch.Proofs.LineEndings
import Munch.Proofs.Locations
import Munch.Proofs.MaximalMunch
import Munch.Proofs.Messages
import Munch.Proofs.Numbering
import Munch.Proofs.Printing
import Munch.Proofs.Progress
import Munch.Proofs.Repetition
import Munch.Proofs.Replacing
import Munch.Proofs.Reserving
import Munch.Proofs.Restart
import Munch.Proofs.RoundTrip
import Munch.Proofs.Rows
import Munch.Proofs.Simulation
import Munch.Proofs.SourceLines
import Munch.Proofs.Warnings
import Munch.Proofs.Words
import Munch.Scanner.Operation
import Munch.Table.Step
