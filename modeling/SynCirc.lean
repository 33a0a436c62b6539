import SynCirc.DepthAnalysis.Tables
import SynCirc.Linearize.Tables
import SynCirc.Zig.Passes
import SynCirc.Zig.Outcome
import SynCirc.StraightLine.Basic
import SynCirc.Zig.Loops
import SynCirc.Zig.Text
import SynCirc.Zig.Scan
import SynCirc.Zig.Json
import SynCirc.Hierarchy.Basic
import SynCirc.Numbering.Basic
import SynCirc.Circuit
import SynCirc.EvalCircuit
import SynCirc.EvalOrder
import SynCirc.Linearize.Basic
import SynCirc.Linearize.Budget
import SynCirc.Linearize.Layout
import SynCirc.Linearize.Invariant
import SynCirc.Linearize.Gates
import SynCirc.Linearize.Ports
import SynCirc.Linearize.Run
import SynCirc.Linearize.Correct
import SynCirc.Linearize.Wiring
import SynCirc.Linearize.Idempotent
import SynCirc.Emit
import SynCirc.Parser
import SynCirc.ParserLines
import SynCirc.RoundTrip
import SynCirc.ParserSafe
import SynCirc.EmitBristol
import SynCirc.BristolParser
import SynCirc.BristolLines
import SynCirc.BristolRange
import SynCirc.BristolRoundTrip
import SynCirc.Formats
import SynCirc.EmitVerilog
import SynCirc.Verilog
import SynCirc.Netlist
import SynCirc.Builder.Basic
import SynCirc.Builder.Cells
import SynCirc.Builder.Expansion
import SynCirc.Builder.Intervals
import SynCirc.Builder.Admissible
import SynCirc.Builder.Connect
import SynCirc.Builder.Simulation
import SynCirc.Builder.Read
import SynCirc.Builder.ReadModule
import SynCirc.Builder.Correct
import SynCirc.Builder.Flatten
import SynCirc.Builder.LutOrder
import SynCirc.LongestPath.Basic
import SynCirc.DepthAnalysis.Basic
import SynCirc.DepthAnalysis.Graph
import SynCirc.DepthAnalysis.Depth
import SynCirc.Linearize.Depth
import SynCirc.Signal.Basic
import SynCirc.Signal.Polynomial
import SynCirc.Signal.Word
import SynCirc.Signal.Netlist
import SynCirc.Library.Add
import SynCirc.Library.Sub
import SynCirc.Library.Comp
import SynCirc.Library.Mult
import SynCirc.Library.Div
import SynCirc.Sorting.Bitonic
import SynCirc.Library.BitonicSort
import SynCirc.Library.Techmap
import SynCirc.Torder
import SynCirc.Sorting.Tournament
import SynCirc.Library.Maxpool
import SynCirc.Library.SquareRoot
import SynCirc.Reparse
import SynCirc.WordSize
import SynCirc.Command.Basic
import SynCirc.Command.Convert
import SynCirc.Command.Eval
import SynCirc.Zig.Relation
import SynCirc.Command.Preservation
import SynCirc.Linearize.Memory
import SynCirc.Builder.Driven
import SynCirc.Builder.Wired
import SynCirc.Command.Compile
import SynCirc.Command.Compiled
import SynCirc.Command.Canonical
import SynCirc.Command.Stats
import SynCirc.Command.Measured
import SynCirc.Rounding.Nearest
import SynCirc.Rounding.Grid
import SynCirc.Library.Float
import SynCirc.Library.FloatMul
import SynCirc.Library.FloatAdd
import SynCirc.Library.FloatSum
