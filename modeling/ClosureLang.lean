import ClosureLang.CommandLine
import ClosureLang.Main
import ClosureLang.Proofs.Complaints.SourceOrder
import ClosureLang.Proofs.Descent.EndOfInput
import ClosureLang.Proofs.Evaluation.Agreement
import ClosureLang.Proofs.Frames.Encapsulation
import ClosureLang.Proofs.Frames.Names
import ClosureLang.Proofs.Frames.Restoration
import ClosureLang.Proofs.Frames.Variables
import ClosureLang.Proofs.Grammar.Completeness
import ClosureLang.Proofs.Grammar.Composition
import ClosureLang.Proofs.Grammar.Soundness
import ClosureLang.Proofs.Likeness.ZeroSigns
import ClosureLang.Proofs.Loops.Meaning
import ClosureLang.Proofs.Numbers.Display
import ClosureLang.Proofs.Prefixes.FirstMistake
import ClosureLang.Proofs.Printing.Appending
import ClosureLang.Proofs.Printing.Reports
import ClosureLang.Proofs.Recovery.Isolation
import ClosureLang.Proofs.Recovery.MissingSemicolon
import ClosureLang.Proofs.Relabelling.Sources
import ClosureLang.Proofs.Scanning.Lines
import ClosureLang.Proofs.Scanning.RoundTrip
import ClosureLang.Proofs.Scopes.Declarations
import ClosureLang.Proofs.Scopes.Depth
