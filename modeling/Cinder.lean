import Cinder.Analysis
import Cinder.Bindings
import Cinder.Command.Line
import Cinder.Command.Run
import Cinder.Diagnostic
import Cinder.Editor.Document
import Cinder.Editor.Range
import Cinder.Editor.Session
import Cinder.Fault
import Cinder.FileSystem
import Cinder.Json
import Cinder.Json.Parse
import Cinder.Main
import Cinder.Number.Decimal
import Cinder.Number.Read
import Cinder.Number.Shortest
import Cinder.Options
import Cinder.Position
import Cinder.Problem
import Cinder.Program
import Cinder.Program.Format
import Cinder.Program.Idents
import Cinder.Program.Layout
import Cinder.Program.Level
import Cinder.Program.Parse
import Cinder.Program.Source
import Cinder.Resolution
import Cinder.Scopes
import Cinder.Symbol
import Cinder.Table
import Cinder.Text
import Cinder.Text.Blank
import Cinder.Text.Utf8
import Cinder.Token
import Cinder.Token.Scan
import Cinder.Token.Segment
import Cinder.Ty
import Cinder.Typing
import Cinder.Proofs.Grammar
import Cinder.Proofs.Reading
import Cinder.Proofs.Reading.Sound
import Cinder.Proofs.Reading.Complete
import Cinder.Proofs.Grammar.Derivation
import Cinder.Proofs.Acceptance
import Cinder.Proofs.Lexeme
import Cinder.Proofs.Lexeme.Strings
import Cinder.Proofs.Shape
import Cinder.Proofs.Spelling
import Cinder.Proofs.Spelling.Layout
import Cinder.Proofs.Leaves
import Cinder.Proofs.RoundTrip
import Cinder.Proofs.Grammar.Documented
import Cinder.Proofs.Scoping
import Cinder.Proofs.Scoping.Steps
import Cinder.Proofs.Scoping.Expressions
import Cinder.Proofs.Scoping.Walk
import Cinder.Proofs.Scoping.Lexical
import Cinder.Proofs.Rules
import Cinder.Proofs.Rules.Expressions
import Cinder.Proofs.Rules.Declarations
import Cinder.Proofs.Rules.Programs
import Cinder.Proofs.Cascade
import Cinder.Proofs.Faultless
import Cinder.Proofs.Places
import Cinder.Proofs.Reports
import Cinder.Proofs.Reports.Programs
import Cinder.Proofs.Reports.Types
import Cinder.Proofs.Relabelling
import Cinder.Proofs.Relabelling.Scoping
import Cinder.Proofs.Relabelling.Typing
import Cinder.Proofs.Reformatting
import Cinder.Proofs.Lines
import Cinder.Proofs.Partition
import Cinder.Proofs.Grammar.Beginning
import Cinder.Proofs.Reading.Online
import Cinder.Proofs.Ranges
import Cinder.Proofs.Cursor
import Cinder.Proofs.FirstError
import Cinder.Proofs.Canonical
import Cinder.Proofs.InPlace
import Cinder.Proofs.DryRun
import Cinder.Proofs.Sessions
import Cinder.Proofs.Renaming
import Cinder.Proofs.NormalForm
import Cinder.Proofs.Growth
import Cinder.Proofs.Growth.Walk
import Cinder.Proofs.Reuse
import Cinder.Proofs.Nominal
import Cinder.Proofs.Nominal.Programs
import Cinder.Proofs.LineByLine
import Cinder.Proofs.Visits
import Cinder.Proofs.Chains
import Cinder.Proofs.FileScope
import Cinder.Proofs.Nesting
import Cinder.Proofs.Signatures
import Cinder.Proofs.StringLiterals
import Cinder.Proofs.Continuation
import Cinder.Proofs.SourceOrder
import Cinder.Proofs.Outline
import Cinder.Proofs.FieldSpaces
import Cinder.Proofs.DroppedStrings
import Cinder.Proofs.ScopeStack
import Cinder.Proofs.ArgumentGroups
import Cinder.Proofs.Tape
import Cinder.Proofs.Tape.Following
import Cinder.Proofs.Tape.Room
import Cinder.Proofs.Tape.Rounds
import Cinder.Proofs.Tape.Bounds
import Cinder.Proofs.Tape.Source
import Cinder.Proofs.Rescanning
import Cinder.Proofs.Sameness
