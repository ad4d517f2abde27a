import Renaming.Backup.Manifest
import Renaming.Backup.Restore
import Renaming.Backup.Session
import Renaming.Calendar
import Renaming.CommandLine.Answer
import Renaming.CommandLine.Arguments
import Renaming.CommandLine.Command
import Renaming.Decimal.Shortest
import Renaming.Digest
import Renaming.Failure
import Renaming.Fate
import Renaming.Files.Basic
import Renaming.Files.Operations
import Renaming.Json.Basic
import Renaming.Json.Fault
import Renaming.Json.Mismatch
import Renaming.Json.Printer
import Renaming.Json.Reader
import Renaming.Json.Scan
import Renaming.Json.Shape
import Renaming.Machine.Basic
import Renaming.Machine.Command
import Renaming.Machine.Script
import Renaming.Machine.Shell
import Renaming.Machine.Tree
import Renaming.Main
import Renaming.Outcome
import Renaming.Path
import Renaming.Proofs.Source.Token
import Renaming.Source.Segment
import Renaming.Report
import Renaming.Rule.Basic
import Renaming.Rule.Conflict
import Renaming.Rule.Document
import Renaming.Rule.Protected
import Renaming.Rule.Set
import Renaming.Rule.Style
import Renaming.Run
import Renaming.Source.Fragment
import Renaming.Source.Letter
import Renaming.Source.Lexeme
import Renaming.Source.Piece
import Renaming.Source.Site
import Renaming.Text.Blank
import Renaming.Text.Letter
import Renaming.Text.LetterCase
import Renaming.Text.Printable
import Renaming.Text.Span
import Renaming.Text.Words
import Renaming.Verification
import Renaming.Walk.Collect
import Renaming.Walk.Glob
import Renaming.Walk.Selection
import Renaming.Yaml.Cursor
import Renaming.Yaml.Node
import Renaming.Yaml.Problem
import Renaming.Yaml.Scalar
import Renaming.Yaml.Scan
import Renaming.Yaml.Token
import Renaming.Yaml.Value
import Renaming.Proofs.Source.Occurrence
import Renaming.Proofs.Rename.Splice
import Renaming.Proofs.Source.Alike
import Renaming.Proofs.Source.Redraw
import Renaming.Proofs.Rename.Renamed
import Renaming.Proofs.Source.Behind
import Renaming.Proofs.Rename.Pieces
import Renaming.Proofs.Source.Match
import Renaming.Proofs.Rename.Inverse
import Renaming.Proofs.Rename.Again
import Renaming.Proofs.Rename.Skipped
import Renaming.Proofs.Rename.Twice
import Renaming.Proofs.Rename.Order
import Renaming.Proofs.Rename.Turns
import Renaming.Proofs.Rename.Guarded
import Renaming.Proofs.Source.Bytes
import Renaming.Proofs.Source.Segment
import Renaming.Proofs.Rename.Delimited
import Renaming.Proofs.Rename.Leading
import Renaming.Proofs.Rename.Unstable
import Renaming.Proofs.Source.Strings
import Renaming.Proofs.Rename.Intact
import Renaming.Proofs.Rename.Broken
import Renaming.Proofs.Source.Ahead
import Renaming.Proofs.Source.Settle
import Renaming.Proofs.Source.Faded
import Renaming.Proofs.Source.Texts
import Renaming.Proofs.Source.Frames
import Renaming.Proofs.Path
import Renaming.Proofs.Machine.Tree
import Renaming.Proofs.Machine.Follow
import Renaming.Proofs.Machine.Requests
import Renaming.Proofs.Machine.Along
import Renaming.Proofs.Files.Operations
import Renaming.Proofs.Walk.Below
import Renaming.Proofs.Walk.Labels
import Renaming.Proofs.Walk.Collect
import Renaming.Proofs.Walk.Complete
import Renaming.Proofs.Backup.Fresh
import Renaming.Proofs.Backup.Kept
import Renaming.Proofs.Backup.Session
import Renaming.Proofs.Json.Text
import Renaming.Proofs.Backup.Manifest
import Renaming.Proofs.Backup.Restore
import Renaming.Proofs.Backup.Load
import Renaming.Proofs.Calendar.Date
import Renaming.Proofs.Calendar.Name
import Renaming.Proofs.Backup.Locate
import Renaming.Proofs.Run.Files
import Renaming.Proofs.Run.Course
import Renaming.Proofs.Report.Tally
import Renaming.Proofs.Run.Effect
import Renaming.Proofs.Run.Safety
import Renaming.Proofs.Run.Preview
import Renaming.Proofs.Run.Undo
import Renaming.Proofs.Run.Idle
import Renaming.Proofs.Run.Account
import Renaming.Proofs.Run.History
import Renaming.Proofs.CommandLine.Apply
import Renaming.Proofs.Source.Uncomment
import Renaming.Proofs.Source.Beside
import Renaming.Proofs.Rename.Comments
import Renaming.Proofs.Source.Form
import Renaming.Proofs.Source.Content
import Renaming.Proofs.Source.Nesting
import Renaming.Proofs.Source.Causal
import Renaming.Proofs.Rule.Grounds
import Renaming.Proofs.Rule.Fit
import Renaming.Proofs.Report.Entries
import Renaming.Proofs.Json.Scan
import Renaming.Proofs.Json.Grammar
import Renaming.Proofs.Json.Render
import Renaming.Proofs.Json.Nesting
import Renaming.Proofs.Rule.Document
import Renaming.Proofs.Rule.Listing
import Renaming.Proofs.Text.Words
import Renaming.Proofs.Walk.Apart
import Renaming.Proofs.Backup.Account
import Renaming.Proofs.CommandLine.Check
import Renaming.Checked.Access
import Renaming.Checked.Segment
import Renaming.Checked.Context
import Renaming.Checked.Rename
import Renaming.Proofs.Checked.Marks
import Renaming.Proofs.Checked.Bracket
import Renaming.Proofs.Checked.Tag
import Renaming.Proofs.Source.Wide
import Renaming.Proofs.Checked.Segment
import Renaming.Proofs.Checked.Place
import Renaming.Proofs.Checked.Choice
import Renaming.Proofs.Checked.Words
import Renaming.Proofs.Checked.Rename
import Renaming.Proofs.Rule.Overlap
