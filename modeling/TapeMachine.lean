import TapeMachine.Alphabet
import TapeMachine.Arguments
import TapeMachine.Batch
import TapeMachine.Batch.Campaign
import TapeMachine.Batch.Checkpoint
import TapeMachine.Batch.Draft
import TapeMachine.Binary64
import TapeMachine.Clock
import TapeMachine.CommandLine
import TapeMachine.Configuration
import TapeMachine.Console
import TapeMachine.Desk
import TapeMachine.Evaluation
import TapeMachine.FileTree
import TapeMachine.FileTree.Path
import TapeMachine.Inspector
import TapeMachine.Journal
import TapeMachine.Json.Basic
import TapeMachine.Json.Reader
import TapeMachine.Json.Writer
import TapeMachine.Machine
import TapeMachine.Main
import TapeMachine.Program
import TapeMachine.Program.Reach
import TapeMachine.Program.Validity
import TapeMachine.Proofs.Batches
import TapeMachine.Proofs.Detours
import TapeMachine.Proofs.Folders
import TapeMachine.Proofs.Halting
import TapeMachine.Proofs.Lines
import TapeMachine.Proofs.LockStep
import TapeMachine.Proofs.Paths
import TapeMachine.Proofs.Pieces
import TapeMachine.Proofs.Reach
import TapeMachine.Proofs.Records
import TapeMachine.Proofs.Reordering
import TapeMachine.Proofs.Resume
import TapeMachine.Proofs.Roundtrip.Dump
import TapeMachine.Proofs.Roundtrip.Fields
import TapeMachine.Proofs.Roundtrip.Program
import TapeMachine.Proofs.Roundtrip.Rule
import TapeMachine.Proofs.Roundtrip.Source
import TapeMachine.Proofs.Safety
import TapeMachine.Proofs.Validity
import TapeMachine.Result
import TapeMachine.Rule
import TapeMachine.Rule.Parser
import TapeMachine.Run
import TapeMachine.Sample
import TapeMachine.SemanticError
import TapeMachine.Settings
import TapeMachine.Settings.Load
import TapeMachine.Shell
import TapeMachine.Shell.Session
import TapeMachine.State
import TapeMachine.Step
import TapeMachine.Table
import TapeMachine.Tape
import TapeMachine.Text.Blank
import TapeMachine.Text.Digit
import TapeMachine.Text.Grouped
import TapeMachine.Text.Hex
import TapeMachine.Text.Integer
import TapeMachine.Text.Newline
import TapeMachine.Text.Printable
import TapeMachine.Text.Quoted
import TapeMachine.Text.Words
import TapeMachine.Proofs.Endings
import TapeMachine.Proofs.Budgets
import TapeMachine.Proofs.SpareTape
import TapeMachine.Proofs.Grammar
import TapeMachine.Proofs.Calls
import TapeMachine.Proofs.History
import TapeMachine.Proofs.Dispatch
import TapeMachine.Proofs.Traces
import TapeMachine.Proofs.Sessions
import TapeMachine.Proofs.Framing
import TapeMachine.Proofs.Interference
import TapeMachine.Proofs.Preorder
import TapeMachine.Proofs.Success
import TapeMachine.Proofs.Slices
import TapeMachine.Proofs.Parity
import TapeMachine.Proofs.Snapshots
import TapeMachine.Proofs.Spacing
import TapeMachine.Proofs.Finality
import TapeMachine.Proofs.Culprits
import TapeMachine.Proofs.Wildcards
import TapeMachine.Proofs.Intact
import TapeMachine.Proofs.Recoding
import TapeMachine.Proofs.Renaming
import TapeMachine.Proofs.Reversal
import TapeMachine.Proofs.Descriptions
import TapeMachine.Proofs.Inspection
import TapeMachine.Proofs.InPlace
import TapeMachine.Proofs.Outcomes
import TapeMachine.Proofs.Quoting
import TapeMachine.Proofs.Verdicts
import TapeMachine.Proofs.LogNames
import TapeMachine.Proofs.Rendering
import TapeMachine.Proofs.Inputs
import TapeMachine.Proofs.Arrays
import TapeMachine.Proofs.Overlays
import TapeMachine.Proofs.FirstOccurrence
import TapeMachine.Proofs.Progress
import TapeMachine.Proofs.Marks
