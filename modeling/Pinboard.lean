import Pinboard.Numeric.Interchange
import Pinboard.Numeric.Shortest
import Pinboard.Ring.Operation
import Pinboard.Value
import Pinboard.Geometry
import Pinboard.Chart.Document
import Pinboard.Chart.Reference
import Pinboard.Fit.Check
import Pinboard.Font.Measuring
import Pinboard.Markup.Template
import Pinboard.CommandLine.FileSystem
import Pinboard.CommandLine.Run
import Pinboard.Main
import Pinboard.Proofs.Ring.Layout
import Pinboard.Proofs.Ring.Pushes
import Pinboard.Proofs.Ring.InPlace
import Pinboard.Proofs.Ring.Removals
import Pinboard.Proofs.Ring.Deletion
import Pinboard.Proofs.Ring.Refinement
import Pinboard.Proofs.Chart.Reading
import Pinboard.Proofs.Numeric.Exact
import Pinboard.Proofs.Chart.Contract
import Pinboard.Proofs.Chart.Meaning
import Pinboard.Proofs.Chart.Placing
import Pinboard.Proofs.Chart.Drafting
import Pinboard.Proofs.Chart.Table
import Pinboard.Proofs.Chart.Auto
import Pinboard.Proofs.Chart.Commands
import Pinboard.Proofs.Chart.Session
import Pinboard.Proofs.Chart.Outcome
import Pinboard.Proofs.Chart.Sequence
import Pinboard.Proofs.Fit.Packing
import Pinboard.Proofs.Numeric.Order
import Pinboard.Proofs.Fit.Filling
import Pinboard.Proofs.Fit.Exactness
import Pinboard.Proofs.Chart.Footprint
import Pinboard.Proofs.Chart.Locality
import Pinboard.Proofs.Chart.OwnCommand
import Pinboard.Proofs.Chart.Canvas
import Pinboard.Proofs.Chart.Commuting
import Pinboard.Proofs.Ring.Validity
import Pinboard.Proofs.Chart.Lookups
import Pinboard.Proofs.Markup.Inside
import Pinboard.Proofs.Markup.Recovery
import Pinboard.Proofs.Drawing.Identifiers
import Pinboard.Proofs.Drawing.Forms
import Pinboard.Proofs.Drawing.References
import Pinboard.Proofs.Chart.Drawn
import Pinboard.Proofs.Chart.Fragments
import Pinboard.Proofs.Chart.References
import Pinboard.Proofs.Text.Lines
import Pinboard.Proofs.Chart.Omission
import Pinboard.Proofs.Chart.Numbering
import Pinboard.Proofs.Text.Letters
import Pinboard.Proofs.Text.Spacing
import Pinboard.Proofs.Chart.Layout
import Pinboard.Proofs.CommandLine.Ends
import Pinboard.Proofs.CommandLine.Arguments
import Pinboard.Proofs.Text.Utf8
import Pinboard.Proofs.CommandLine.Sources
import Pinboard.Proofs.Text.Json
import Pinboard.Proofs.CommandLine.Formats
import Pinboard.Proofs.CommandLine.Targets
import Pinboard.Proofs.Text.Breaks
import Pinboard.Proofs.Chart.LineText
import Pinboard.Proofs.Chart.Settings
import Pinboard.Proofs.Drawing.Colours
import Pinboard.Proofs.Chart.Offsets
import Pinboard.Proofs.Chart.Scopes
import Pinboard.Proofs.Ring.Capacity
import Pinboard.Proofs.Numeric.Zeros
import Pinboard.Proofs.Chart.Groups
import Pinboard.Proofs.Drawing.TextBlock
import Pinboard.Proofs.Chart.Cells
import Pinboard.Proofs.Numeric.Printed
import Pinboard.Proofs.Chart.Extent
import Pinboard.Proofs.Chart.Coverage
import Pinboard.Proofs.Chart.Direction
import Pinboard.Proofs.Drawing.Zeros
import Pinboard.Proofs.Chart.Rooms
import Pinboard.Proofs.Chart.Corners
import Pinboard.Proofs.Numeric.Grid
import Pinboard.Proofs.Chart.Notch
import Pinboard.Proofs.Ring.Places
import Pinboard.Proofs.Ring.Slots
import Pinboard.Proofs.Ring.Sizing
import Pinboard.Proofs.Markup.Page
import Pinboard.Proofs.Text.Quoted
import Pinboard.Proofs.Fit.Reports
import Pinboard.Proofs.CommandLine.Checking
import Pinboard.Proofs.Font.Matching
import Pinboard.Proofs.Font.Stability
import Pinboard.Proofs.Numeric.Rounded
import Pinboard.Proofs.Text.Grammar
import Pinboard.Proofs.Chart.Words
