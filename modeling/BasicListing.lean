import BasicListing.Alignment
import BasicListing.Command.Arguments
import BasicListing.Command.Folder
import BasicListing.Command.Report
import BasicListing.Command.Run
import BasicListing.HexDump
import BasicListing.Image
import BasicListing.Image.Store
import BasicListing.Json.Basic
import BasicListing.Json.Numeral
import BasicListing.Json.Reader
import BasicListing.Keyword
import BasicListing.Line
import BasicListing.Listing.Gutter
import BasicListing.Listing.Layout
import BasicListing.Listing.Rows
import BasicListing.Listing.Wrap
import BasicListing.Loop
import BasicListing.Machine.Disassembly
import BasicListing.Machine.Operation
import BasicListing.Main
import BasicListing.Printer
import BasicListing.Program
import BasicListing.Settings
import BasicListing.Statement
import BasicListing.Text.Basic
import BasicListing.Text.Blank
import BasicListing.Text.Control
import BasicListing.Text.Numeral
import BasicListing.Text.Utf8
import BasicListing.Token
import BasicListing.Proofs.Decoding
import BasicListing.Proofs.RoundTrip
import BasicListing.Proofs.Pass
import BasicListing.Proofs.Printable
import BasicListing.Proofs.Wrapping
import BasicListing.Proofs.Writing
import BasicListing.Proofs.Content
import BasicListing.Proofs.LineUp
import BasicListing.Proofs.Leading
import BasicListing.Proofs.Placing
import BasicListing.Proofs.RowsByLine
import BasicListing.Proofs.Positions
import BasicListing.Proofs.Nesting
import BasicListing.Proofs.HiddenCode
import BasicListing.Proofs.Bounds
import BasicListing.Proofs.Truncation
import BasicListing.Proofs.TrailingBytes
import BasicListing.Proofs.Hexadecimal
import BasicListing.Proofs.Dump
import BasicListing.Proofs.Reassembly
import BasicListing.Proofs.TextColumns
import BasicListing.Proofs.CodeLayout
import BasicListing.Proofs.CodeBytes
import BasicListing.Proofs.BranchMarks
import BasicListing.Proofs.LexicalRule
import BasicListing.Proofs.BranchTargets
import BasicListing.Proofs.WrappedRows
import BasicListing.Proofs.AlignmentSpaces
import BasicListing.Proofs.Indentation
import BasicListing.Proofs.LoopClosing
import BasicListing.Proofs.AssignmentColumns
import BasicListing.Proofs.LinearSweep
import BasicListing.Proofs.LineEnds
import BasicListing.Proofs.WithinMemory
import BasicListing.Proofs.JsonRange
import BasicListing.Proofs.SettingsByField
import BasicListing.Proofs.CleanText
