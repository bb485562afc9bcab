import Asm16.Main
import Asm16.Proofs.Assembly.Reading
import Asm16.Proofs.Assembly.Outline
import Asm16.Proofs.Assembly.Translation
import Asm16.Proofs.Assembly.Diagnosis
import Asm16.Proofs.Assembly.Layout
import Asm16.Proofs.Assembly.Culprit
import Asm16.Proofs.Assembly.Commas
import Asm16.Proofs.Assembly.Concatenation
import Asm16.Proofs.Assembly.Variants
import Asm16.Proofs.Assembly.RenamedProgram
import Asm16.Proofs.Assembly.Extension
import Asm16.Proofs.Engine.Origin
import Asm16.Proofs.Engine.Ending
import Asm16.Proofs.Engine.Replay
import Asm16.Proofs.Engine.Budget
import Asm16.Proofs.Engine.Resumption
import Asm16.Proofs.Engine.Independence
import Asm16.Proofs.Engine.Safety
import Asm16.Proofs.Engine.Table
import Asm16.Proofs.Engine.Faults
import Asm16.Proofs.Engine.Stores
import Asm16.Proofs.Engine.Forward
import Asm16.Proofs.Engine.Countdown
import Asm16.Proofs.Program.Encoding
import Asm16.Proofs.Program.Loading
import Asm16.Proofs.Program.Grammar
import Asm16.Proofs.CommandLine.CompileRun
import Asm16.Proofs.CommandLine.Rejection
import Asm16.Proofs.CommandLine.Override
import Asm16.Proofs.CommandLine.Initialisation
import Asm16.Proofs.Machine.Accesses
import Asm16.Proofs.Terminal.Minimal
import Asm16.Proofs.Engine.PlainRuns
