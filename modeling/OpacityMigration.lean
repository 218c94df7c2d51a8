import OpacityMigration.Call.Basic
import OpacityMigration.Call.Occurrence
import OpacityMigration.Call.Rewrite
import OpacityMigration.CommandLine.Envelope
import OpacityMigration.CommandLine.Help
import OpacityMigration.CommandLine.Parser
import OpacityMigration.CommandLine.Request
import OpacityMigration.CommandLine.Run
import OpacityMigration.Config.Basic
import OpacityMigration.Config.Decoder
import OpacityMigration.Config.Extension
import OpacityMigration.Config.Resolve
import OpacityMigration.Decimal.Binary64
import OpacityMigration.Decimal.Shortest
import OpacityMigration.Failure
import OpacityMigration.FileSystem.Arrange
import OpacityMigration.FileSystem.Basic
import OpacityMigration.FileSystem.Fault
import OpacityMigration.FileSystem.Node
import OpacityMigration.FileSystem.Path
import OpacityMigration.Json.Basic
import OpacityMigration.Json.Container
import OpacityMigration.Json.Fault
import OpacityMigration.Json.Lexeme
import OpacityMigration.Json.Numeral
import OpacityMigration.Json.Printer
import OpacityMigration.Json.Reader
import OpacityMigration.Json.Skip
import OpacityMigration.Main
import OpacityMigration.Migration.Basic
import OpacityMigration.Migration.Edit
import OpacityMigration.Migration.Scan
import OpacityMigration.Migration.Walk
import OpacityMigration.Report
import OpacityMigration.Text.Blank
import OpacityMigration.Text.Place
import OpacityMigration.Text.Quoted
import OpacityMigration.Text.Terminal
import OpacityMigration.Text.Utf8
import OpacityMigration.Text.Visibility
import OpacityMigration.Proofs.Occurrences
import OpacityMigration.Proofs.Segments
import OpacityMigration.Proofs.FileMigration
import OpacityMigration.Proofs.Passes
import OpacityMigration.Proofs.PrefixLaw
import OpacityMigration.Proofs.SecondPass
import OpacityMigration.Proofs.Lookups
import OpacityMigration.Proofs.PathOrder
import OpacityMigration.Proofs.WalkContent
import OpacityMigration.Proofs.PassedOver
import OpacityMigration.Proofs.Previews
import OpacityMigration.Proofs.Answers
import OpacityMigration.Proofs.FileCounts
import OpacityMigration.Proofs.DataOption
import OpacityMigration.Proofs.TextAndData
import OpacityMigration.Proofs.CheckGate
import OpacityMigration.Proofs.WhenWritten
import OpacityMigration.Proofs.CallSites
import OpacityMigration.Proofs.CallCounts
import OpacityMigration.Proofs.PassLimit
import OpacityMigration.Proofs.ConfigForms
import OpacityMigration.Proofs.ExtensionLists
import OpacityMigration.Proofs.JsonDocuments
import OpacityMigration.Proofs.ConfigDocuments
import OpacityMigration.Proofs.Precedence
import OpacityMigration.Proofs.WalkFailures
import OpacityMigration.Proofs.Spellings
import OpacityMigration.Proofs.Lines
import OpacityMigration.Proofs.ReferencePlaces
import OpacityMigration.Proofs.ScanLines
import OpacityMigration.Proofs.SkippedValues
import OpacityMigration.Proofs.ObjectNames
import OpacityMigration.Proofs.KeyFields
import OpacityMigration.Proofs.DecodersAgree
import OpacityMigration.Proofs.RewrittenPlaces
import OpacityMigration.Proofs.JsonNumerals
import OpacityMigration.Proofs.JsonRoundTrip
import OpacityMigration.Proofs.Loads
import OpacityMigration.Proofs.Envelopes
