import NodeGrid.NameError
import NodeGrid.Board.Report
import NodeGrid.Main
import NodeGrid.Proofs.Program.Outline
import NodeGrid.Proofs.Program.Lines
import NodeGrid.Proofs.Program.Clean
import NodeGrid.Proofs.Node.Execution
import NodeGrid.Proofs.Board.Operations
import NodeGrid.Proofs.Node.Jumps
import NodeGrid.Proofs.Node.Faultless
import NodeGrid.Proofs.Board.Unblocked
import NodeGrid.Proofs.Board.Visits
import NodeGrid.Proofs.Board.Sweeps
import NodeGrid.Proofs.Board.Visibility
import NodeGrid.Proofs.Node.Streams
import NodeGrid.Proofs.Program.Words
import NodeGrid.Proofs.Program.RoundTrip
import NodeGrid.Proofs.Program.Origins
import NodeGrid.Proofs.Program.LineEnds
import NodeGrid.Proofs.Program.Concatenation
import NodeGrid.Proofs.Board.Filling
import NodeGrid.Proofs.Board.Feeding
import NodeGrid.Proofs.Board.Recording
import NodeGrid.Proofs.Board.Ticks
import NodeGrid.Proofs.Board.Linking
import NodeGrid.Proofs.Program.Reports
import NodeGrid.Proofs.Program.Distances
import NodeGrid.Proofs.Node.RelativeJumps
import NodeGrid.Proofs.Node.LinkedSides
import NodeGrid.Proofs.Sample.Loading
import NodeGrid.Proofs.Sample.DoublerRow
import NodeGrid.Proofs.Program.Duplicates
import NodeGrid.Proofs.Node.Waiting
import NodeGrid.Proofs.Sample.OneCell
import NodeGrid.Proofs.Sample.Sorter
import NodeGrid.Proofs.Sample.Passing
import NodeGrid.Proofs.Program.CutOff
import NodeGrid.Proofs.Program.Contents
import NodeGrid.Proofs.Program.Places
import NodeGrid.Proofs.Program.Naming
import NodeGrid.Proofs.Program.Spacing
import NodeGrid.Proofs.Program.Contracts
import NodeGrid.Proofs.Program.MoreLinks
import NodeGrid.Proofs.Node.Operations
import NodeGrid.Proofs.Board.Sending
import NodeGrid.Proofs.Node.Blocked
import NodeGrid.Proofs.Board.Refusals
import NodeGrid.Proofs.Board.InputOrder
import NodeGrid.Proofs.Node.Finishing
import NodeGrid.Proofs.Program.Forward
import NodeGrid.Proofs.Sample.Limits
import NodeGrid.Proofs.Text.Numerals
import NodeGrid.Proofs.Text.Values
import NodeGrid.Proofs.Settings.Layers
import NodeGrid.Proofs.Node.Arithmetic
import NodeGrid.Proofs.Program.Numbering
import NodeGrid.Proofs.Node.Counter
import NodeGrid.Proofs.Board.Numbering
