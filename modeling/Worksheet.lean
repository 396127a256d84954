import Worksheet.Number.Display
import Worksheet.Number.Numeral
import Worksheet.Text.Blank
import Worksheet.Text.Lines
import Worksheet.Text.Quoted
import Worksheet.Name.FileOrder
import Worksheet.Name.Policy
import Worksheet.Formula.Evaluation
import Worksheet.Dependencies.UpdateOrder
import Worksheet.Cell
import Worksheet.Sheet.Storage
import Worksheet.File.Tree
import Worksheet.Main
import Worksheet.Proofs.Text.Cut
import Worksheet.Proofs.Name.Coordinate
import Worksheet.Proofs.Name.FileOrder
import Worksheet.Proofs.Number.Reading
import Worksheet.Proofs.Number.Faithful
import Worksheet.Proofs.Formula.Evaluation
import Worksheet.Proofs.Formula.Parsing
import Worksheet.Proofs.Formula.Canonical
import Worksheet.Proofs.Formula.Rereading
import Worksheet.Proofs.Formula.Fault
import Worksheet.Proofs.Formula.Slices
import Worksheet.Proofs.Dependencies.EdgeSet
import Worksheet.Proofs.Dependencies.AnyOrder
import Worksheet.Proofs.Dependencies.UpdateOrder
import Worksheet.Proofs.Dependencies.Visit
import Worksheet.Proofs.SaveFile.Layout
import Worksheet.Proofs.SaveFile.RoundTrip
import Worksheet.Proofs.SaveFile.QuotedValue
import Worksheet.Proofs.Sheet.Agreement
import Worksheet.Proofs.Sheet.Edit
import Worksheet.Proofs.Sheet.Loop
import Worksheet.Proofs.Sheet.RootCause
import Worksheet.Proofs.Sheet.TypedEntries
import Worksheet.Proofs.Sheet.Contents
import Worksheet.Proofs.Sheet.Restoring
import Worksheet.Proofs.Sheet.VersionTag
import Worksheet.Proofs.Sheet.Entering
import Worksheet.Proofs.Sheet.Locality
import Worksheet.Proofs.SaveFile.LineOrder
import Worksheet.Proofs.Sheet.Reordering
import Worksheet.Proofs.File.Tree
import Worksheet.Proofs.CommandLine.Listing
import Worksheet.Proofs.CommandLine.Groups
import Worksheet.Proofs.CommandLine.Session
import Worksheet.Proofs.CommandLine.Reopening
import Worksheet.Proofs.Sheet.Enumeration
