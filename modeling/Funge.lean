import Funge.Text.Blank
import Funge.Text.Decimal
import Funge.Text.Utf8
import Funge.Text.CharCode
import Funge.Text.Hidden
import Funge.Text.Quoted
import Funge.Word
import Funge.Direction
import Funge.Position
import Funge.Cell
import Funge.Stack
import Funge.Fault
import Funge.Instruction
import Funge.Playfield.Basic
import Funge.Playfield.Motion
import Funge.Playfield.Source
import Funge.Cursor.Basic
import Funge.Cursor.Motion
import Funge.Cursor.Act
import Funge.Console
import Funge.Random
import Funge.Journal
import Funge.Frame
import Funge.Machine.Basic
import Funge.Machine.Turn
import Funge.Machine.Tick
import Funge.Machine.Run
import Funge.Machine.Inspect
import Funge.CommandLine.Options
import Funge.CommandLine.Session
import Funge.Main
import Funge.Proofs.Word
import Funge.Proofs.Playfield
import Funge.Proofs.WriteOrder
import Funge.Proofs.Utf8
import Funge.Proofs.Blank
import Funge.Proofs.Literal
import Funge.Proofs.StackText
import Funge.Proofs.Decoration
import Funge.Proofs.Loading
import Funge.Proofs.Console
import Funge.Proofs.LineInput
import Funge.Proofs.Movement
import Funge.Proofs.Turn
import Funge.Proofs.Tick
import Funge.Proofs.StoredCell
import Funge.Proofs.Marker
import Funge.Proofs.Simulation
import Funge.Proofs.Bottomless
import Funge.Proofs.Tracing
import Funge.Proofs.Truncation
import Funge.Proofs.Stepping
import Funge.Proofs.Row
import Funge.Proofs.Progress
import Funge.Proofs.IntegerInput
import Funge.Proofs.CharacterEcho
import Funge.Proofs.Traversal
import Funge.Proofs.Expression
import Funge.Proofs.Comment
import Funge.Proofs.Containment
import Funge.Proofs.Schedule
import Funge.Proofs.Perpetual
import Funge.Proofs.Circuit
import Funge.Proofs.Crossing
import Funge.Proofs.MarkerLoop
import Funge.Proofs.Independence
import Funge.Proofs.Memory
import Funge.Proofs.Representation
import Funge.Proofs.NearestRow
import Funge.Proofs.Permutation
import Funge.Proofs.Displacement
import Funge.Proofs.Quotation
import Funge.Proofs.Checked
import Funge.Proofs.FloorDivision
import Funge.Proofs.Safety
