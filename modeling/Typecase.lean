import Typecase.Atlas.Basic
import Typecase.Atlas.Device
import Typecase.Atlas.Group
import Typecase.Atlas.Packaging
import Typecase.Atlas.Page
import Typecase.Atlas.Settings
import Typecase.Atlas.Shelf
import Typecase.Buffer.Ledger
import Typecase.Buffer.Pool
import Typecase.Buffer.Strip
import Typecase.Coverage.Choice
import Typecase.Coverage.Override
import Typecase.Coverage.Resolver
import Typecase.Field.Distance
import Typecase.Field.Envelope
import Typecase.Field.Image
import Typecase.File.Error
import Typecase.File.Tree
import Typecase.Font.BoxOutline
import Typecase.Font.Data
import Typecase.Font.Error
import Typecase.Font.Face
import Typecase.Font.Opened
import Typecase.Font.Source
import Typecase.Font.Synthetic
import Typecase.Font.Tabulated
import Typecase.FontStack.Basic
import Typecase.FontStack.Settings
import Typecase.Glyph
import Typecase.Listing
import Typecase.Main
import Typecase.Notice
import Typecase.Proofs.Atlas.Batching
import Typecase.Proofs.Atlas.Cancelling
import Typecase.Proofs.Atlas.Ceiling
import Typecase.Proofs.Atlas.Delivering
import Typecase.Proofs.Atlas.Estimating
import Typecase.Proofs.Atlas.Fidelity
import Typecase.Proofs.Atlas.Gating
import Typecase.Proofs.Atlas.Interleaving
import Typecase.Proofs.Atlas.Keeping
import Typecase.Proofs.Atlas.Lines
import Typecase.Proofs.Atlas.Overflow
import Typecase.Proofs.Atlas.Packing
import Typecase.Proofs.Atlas.Painting
import Typecase.Proofs.Atlas.Pending
import Typecase.Proofs.Atlas.Placing
import Typecase.Proofs.Atlas.Readiness
import Typecase.Proofs.Atlas.Recalling
import Typecase.Proofs.Atlas.Recording
import Typecase.Proofs.Atlas.Releasing
import Typecase.Proofs.Atlas.Repetition
import Typecase.Proofs.Atlas.Scheduling
import Typecase.Proofs.Atlas.Sealing
import Typecase.Proofs.Atlas.Selection
import Typecase.Proofs.Atlas.Serving
import Typecase.Proofs.Atlas.Session
import Typecase.Proofs.Atlas.Shelving
import Typecase.Proofs.Atlas.Shortcut
import Typecase.Proofs.Atlas.Uploading
import Typecase.Proofs.Atlas.Validity
import Typecase.Proofs.Buffer.Lending
import Typecase.Proofs.Buffer.Rows
import Typecase.Proofs.Buffer.Tidiness
import Typecase.Proofs.Coverage.Deletion
import Typecase.Proofs.Coverage.Descent
import Typecase.Proofs.Coverage.History
import Typecase.Proofs.Coverage.Ladder
import Typecase.Proofs.Coverage.Precedence
import Typecase.Proofs.Coverage.Rungs
import Typecase.Proofs.Coverage.Weights
import Typecase.Proofs.Field.Axes
import Typecase.Proofs.Field.Bordering
import Typecase.Proofs.Field.Parabolas
import Typecase.Proofs.Field.Reach
import Typecase.Proofs.Field.Spans
import Typecase.Proofs.Field.WholeNumbers
import Typecase.Proofs.Font.CodePoints
import Typecase.Proofs.Font.Padding
import Typecase.Proofs.Font.Synthetic
import Typecase.Proofs.FontStack.FieldSize
import Typecase.Proofs.FontStack.Independence
import Typecase.Proofs.FontStack.Marking
import Typecase.Proofs.FontStack.Memory
import Typecase.Proofs.FontStack.Opening
import Typecase.Proofs.FontStack.Picking
import Typecase.Proofs.FontStack.Readiness
import Typecase.Proofs.Listing.Format
import Typecase.Proofs.Listing.Reading
import Typecase.Proofs.Listing.Writing
import Typecase.Proofs.Repeats
import Typecase.Proofs.Report.Unresolved
import Typecase.Proofs.Text.Cutting
import Typecase.Proofs.Text.Numeral
import Typecase.Proofs.Text.Trimming
import Typecase.Proofs.Text.Utf8
import Typecase.Proofs.Unicode.Arranging
import Typecase.Proofs.Unicode.Ordering
import Typecase.Report.Basic
import Typecase.Report.CommandLine
import Typecase.Text.Blank
import Typecase.Text.Decimal
import Typecase.Text.Escaped
import Typecase.Text.Fields
import Typecase.Text.Hex
import Typecase.Text.Quoted
import Typecase.Text.Utf8
import Typecase.Unicode.Block
import Typecase.Unicode.BlockList
