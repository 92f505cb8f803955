import CombLexer.Bytes
import CombLexer.Crosscheck
import CombLexer.Json.Skip
import CombLexer.Json.Token
import CombLexer.Main
import CombLexer.Note
import CombLexer.Random
import CombLexer.Sample.Automaton
import CombLexer.Sample.Generator
import CombLexer.Sample.Kind
import CombLexer.Scan.Buffer
import CombLexer.Scan.Config
import CombLexer.Scan.Error
import CombLexer.Scan.Scanner
import CombLexer.Scan.Walk
import CombLexer.Source.Basic
import CombLexer.Source.Chunks
import CombLexer.Source.Feed
import CombLexer.Source.Reader
import CombLexer.Table.Basic
import CombLexer.Table.Binary
import CombLexer.Table.Builder
import CombLexer.Table.Cell
import CombLexer.Table.Chain
import CombLexer.Table.Comb
import CombLexer.Table.Error
import CombLexer.Table.Json
import CombLexer.Table.Notes
import CombLexer.Table.Row
import CombLexer.Table.Signed
import CombLexer.Text.Blank
import CombLexer.Text.Decimal
import CombLexer.Text.Hidden
import CombLexer.Text.Quoted
import CombLexer.Text.Utf8
import CombLexer.Tool.Command
import CombLexer.Tool.Crosscheck
import CombLexer.Tool.Disk
import CombLexer.Tool.Emit
import CombLexer.Tool.Host
import CombLexer.Tool.Machine
import CombLexer.Tool.Path
import CombLexer.Tool.Scan
import CombLexer.Proofs.Scan.Positions
import CombLexer.Proofs.Scan.WalkOutcome
import CombLexer.Proofs.Scan.Session
import CombLexer.Proofs.Scan.Search
import CombLexer.Proofs.Scan.Reading
import CombLexer.Proofs.Scan.Chunking
import CombLexer.Proofs.Scan.Coverage
import CombLexer.Proofs.Scan.Conservation
import CombLexer.Proofs.Table.Chains
import CombLexer.Proofs.Table.Validity
import CombLexer.Proofs.Table.Resolving
import CombLexer.Proofs.Table.Building
import CombLexer.Proofs.Table.Declaring
import CombLexer.Proofs.Table.SignedMeaning
import CombLexer.Proofs.Sample.Declarations
import CombLexer.Proofs.Sample.Grammar
import CombLexer.Proofs.Sample.Lexing
import CombLexer.Proofs.Sample.Generated
import CombLexer.Proofs.Table.BinaryForm
import CombLexer.Proofs.Json.Spelling
import CombLexer.Proofs.Table.TextForm
import CombLexer.Proofs.Table.Bounds
import CombLexer.Proofs.Scan.Safety
import CombLexer.Proofs.Scan.Shift
import CombLexer.Proofs.Scan.Memoryless
import CombLexer.Proofs.Source.RunningOut
import CombLexer.Proofs.Scan.Returning
import CombLexer.Proofs.Scan.Exhaustion
import CombLexer.Proofs.Scan.EndOfInput
import CombLexer.Proofs.Scan.Awaiting
import CombLexer.Proofs.Scan.Progress
import CombLexer.Proofs.Scan.Interruption
import CombLexer.Proofs.Scan.Continuation
import CombLexer.Proofs.Table.Violations
import CombLexer.Proofs.Scan.Retrying
import CombLexer.Proofs.Scan.Recovering
import CombLexer.Proofs.Table.Complaints
import CombLexer.Proofs.Table.Mending
import CombLexer.Proofs.Table.FirstFit
import CombLexer.Proofs.Table.Verdict
import CombLexer.Proofs.Table.SignedRefusals
import CombLexer.Proofs.Scan.Skipping
import CombLexer.Proofs.Scan.Succession
import CombLexer.Proofs.Crosscheck
import CombLexer.Proofs.Table.Marking
import CombLexer.Proofs.Source.Refilling
