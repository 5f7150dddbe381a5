import Datapack.Grammar.Printer
import Datapack.Main
import Datapack.Naming.Pool
import Datapack.Semantics.Machine
import Datapack.Semantics.Meaning
import Datapack.Semantics.Entities
import Datapack.Proofs.Naming.Numbering
import Datapack.Proofs.Naming.Ordering
import Datapack.Proofs.Naming.Tables
import Datapack.Proofs.Naming.Sharing
import Datapack.Proofs.Session.Reach
import Datapack.Proofs.Session.Steps
import Datapack.Proofs.Session.Ownership
import Datapack.Proofs.Lowering.Declaration
import Datapack.Proofs.Language.Mentions
import Datapack.Proofs.Semantics.Agreement
import Datapack.Proofs.Lowering.RegisterUse
import Datapack.Proofs.Lowering.Preservation
import Datapack.Proofs.Lowering.DirectComparison
import Datapack.Proofs.Grammar.Derivation
import Datapack.Proofs.Grammar.Reading
import Datapack.Proofs.Grammar.Acceptance
import Datapack.Proofs.Semantics.Edits
import Datapack.Proofs.Lowering.SingleCommand
import Datapack.Proofs.Semantics.PerEntity
import Datapack.Proofs.Language.Binding
import Datapack.Proofs.Token.Cutting
import Datapack.Proofs.Token.Lines
import Datapack.Proofs.Token.Patterns
import Datapack.Proofs.Token.TextUnits
import Datapack.Proofs.Token.Signs
import Datapack.Proofs.Token.LongestMatch
import Datapack.Proofs.Token.Writing
import Datapack.Proofs.Token.Layout
import Datapack.Proofs.Grammar.Concatenation
import Datapack.Proofs.Grammar.RoundTrip
import Datapack.Proofs.Lowering.WellFormed
import Datapack.Proofs.Session.Labels
import Datapack.Proofs.Lowering.Mirror
import Datapack.Proofs.Session.History
import Datapack.Proofs.Language.Renaming
import Datapack.Proofs.Lowering.Simulation
import Datapack.Proofs.Session.Renamed
import Datapack.Proofs.Session.LineByLine
import Datapack.Proofs.Lowering.Binding
import Datapack.Proofs.Lowering.EntityByEntity
import Datapack.Proofs.Files.Trees
import Datapack.Proofs.Files.Sources
import Datapack.Proofs.Files.Runs
import Datapack.Proofs.Files.Outcomes
import Datapack.Proofs.Target.Parts
import Datapack.Proofs.Lowering.Vocabulary
import Datapack.Proofs.Lowering.EntryNames
import Datapack.Proofs.Grammar.Texts
import Datapack.Proofs.Target.OutputLines
import Datapack.Proofs.Lowering.Guards
import Datapack.Proofs.Lowering.Calculation
import Datapack.Proofs.Lowering.RegisterNeed
import Datapack.Proofs.Session.Rollback
import Datapack.Proofs.Grammar.Failing
import Datapack.Proofs.Grammar.Stopping
import Datapack.Proofs.Grammar.ViablePrefix
import Datapack.Proofs.Grammar.Layout
import Datapack.Proofs.Diagnostic.Places
import Datapack.Proofs.Grammar.Numbers
import Datapack.Proofs.Token.WholeNumbers
import Datapack.Proofs.Lowering.SingleEdits
