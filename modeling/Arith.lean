import Arith.Double.Power
import Arith.Double.Read
import Arith.Main
import Arith.Source
import Arith.Proofs.Building
import Arith.Proofs.Reading
import Arith.Proofs.Derivation
import Arith.Proofs.Verdict
import Arith.Proofs.Acceptance
import Arith.Proofs.Earliest
import Arith.Proofs.Spelling
import Arith.Proofs.Layouts
import Arith.Proofs.Calls
import Arith.Proofs.Evaluation
import Arith.Proofs.Likeness
import Arith.Proofs.Decimals
import Arith.Proofs.Composing
import Arith.Proofs.Commands
import Arith.Proofs.Traversal
import Arith.Proofs.Scanning
import Arith.Proofs.Offences
import Arith.Proofs.Blame
import Arith.Proofs.Lines
import Arith.Proofs.Requests
import Arith.Proofs.Leaves
import Arith.Proofs.Nearest
import Arith.Proofs.Numerals
import Arith.Proofs.Outlines
import Arith.Proofs.Quoting
import Arith.Proofs.Points
import Arith.Proofs.Messages
import Arith.Proofs.Validation
import Arith.Proofs.Loading
import Arith.Proofs.Layers
import Arith.Proofs.Writing
import Arith.Proofs.Integers
import Arith.Proofs.Guarded
