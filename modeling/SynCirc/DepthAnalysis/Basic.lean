import SynCirc.Zig.Outcome
import SynCirc.Circuit

/-!
# Multiplicative depth

`analyzeDepth` builds the edges from the inputs and the gates to the gates and the outputs that read
them, and visits the graph from the inputs on.  A sink is a gate, or, from the number of gates on,
an output.  Every sink has the largest depth it has been visited with, where 1 is the smallest depth
and 0 stands for a sink that has not been visited.  A visit that makes the depth of a gate larger
visits the sinks of the gate again.

The visits call each other without a bound of their own: `fuel` is the number of calls that may be
nested.  The map from wires to their sources has `maxWireNumber + 1` entries, a sum in 64 bits; it
is not initialized, and `memory` is what it holds.
-/

namespace SynCirc

open Zig

namespace DepthAnalysis

/-- The analysis has no errors of its own.  The error of the model is that the calls are nested
deeper than the fuel. -/
inductive Error where
  | outOfFuel
  deriving DecidableEq, Repr

/-- The depths are kept in 32 bits. -/
def depthBound : Nat := 2 ^ 32

/-- The depths of the gates and of the outputs. -/
structure Result where
  nodeDepth : List Nat
  outputDepth : List Nat
  deriving DecidableEq, Repr

/-- The edges from the inputs and from the gates to the sinks that read them. -/
structure ForwardGraph where
  inputOutEdges : List (List Nat)
  nodeOutEdges : List (List Nat)
  deriving DecidableEq, Repr

/-! ### The graph -/

/-- Append to a list in a list of lists. -/
def appendAt (edges : List (List Nat)) (i sink : Nat) : Outcome Error (List (List Nat)) := do
  let list ← index edges i
  store edges i (list ++ [sink])

/-- Add an edge from a source, which is an input or, from the number of inputs on, a gate. -/
def connect (sourceWire sinkNode inputLen : Nat) (fg : ForwardGraph) :
    Outcome Error ForwardGraph := do
  if sourceWire < inputLen then
    return { fg with inputOutEdges := ← appendAt fg.inputOutEdges sourceWire sinkNode }
  else
    return { fg with nodeOutEdges := ← appendAt fg.nodeOutEdges (sourceWire - inputLen) sinkNode }

variable (c : Circuit)

/-- The sources of the wires: the inputs, and then the gates. -/
def wireSourceMap (memory : Nat → Nat) : Outcome Error (Buffer Nat) := do
  let wires ← add c.maxWireNumber 1
  let map : Buffer Nat := ⟨wires, memory⟩
  let map ← c.inputs.zipIdx.foldlM (fun map p => map.write p.1 p.2) map
  c.nodes.zipIdx.foldlM (fun map p => map.write p.1.output (c.inputs.length + p.2)) map

/-- The wires that a gate reads. -/
def sourceWires : Node → Outcome Error (List Nat)
  | .zero _ => return []
  | .one _ => return []
  | .inv input _ => return [input]
  | .and inputA inputB _ => return [inputA, inputB]
  | .xor inputA inputB _ => return [inputA, inputB]
  | .and3 inputA inputB inputC _ => return [inputA, inputB, inputC]
  | .and4 inputA inputB inputC inputD _ => return [inputA, inputB, inputC, inputD]
  | .lut offset _ arity _ => slice c.luts offset arity

/-- Add the edges to the gate at the position `p.2`. -/
def connectNode (map : Buffer Nat) (fg : ForwardGraph) (p : Node × Nat) :
    Outcome Error ForwardGraph := do
  let sources ← sourceWires c p.1
  sources.foldlM (fun fg source => do
    let sourceWire ← map.read source
    connect sourceWire p.2 c.inputs.length fg) fg

/-- Add the edge to the output at the position `p.2`. -/
def connectOutput (map : Buffer Nat) (fg : ForwardGraph) (p : Nat × Nat) :
    Outcome Error ForwardGraph := do
  let source ← map.read p.1
  connect source (c.nodes.length + p.2) c.inputs.length fg

def buildForwardGraph (memory : Nat → Nat) : Outcome Error ForwardGraph := do
  let map ← wireSourceMap c memory
  let fg : ForwardGraph :=
    ⟨List.replicate c.inputs.length [], List.replicate c.nodes.length []⟩
  let fg ← c.nodes.zipIdx.foldlM (connectNode c map) fg
  c.outputs.zipIdx.foldlM (connectOutput c map) fg

/-! ### The visits -/

/-- The gate counts for the depth. -/
def isMultiplicative : Node → Bool
  | .and _ _ _ => true
  | .and3 _ _ _ _ => true
  | .and4 _ _ _ _ _ => true
  | .lut _ _ _ _ => true
  | _ => false

def visitOutput (outputIndex depth : Nat) (da : Result) : Outcome Error Result := do
  let old ← index da.outputDepth outputIndex
  return { da with outputDepth := ← store da.outputDepth outputIndex (max old depth) }

/-- Visit a gate, and its sinks by `visitSink` if its depth grows. -/
def visitNode (fg : ForwardGraph) (visitSink : Nat → Nat → Result → Outcome Error Result)
    (nodeIndex depth : Nat) (da : Result) : Outcome Error Result := do
  let old ← index da.nodeDepth nodeIndex
  if old < depth then
    let da := { da with nodeDepth := ← store da.nodeDepth nodeIndex depth }
    let node ← index c.nodes nodeIndex
    if isMultiplicative node then check .integerOverflow (depth + 1 < depthBound)
    let outputDepth := if isMultiplicative node then depth + 1 else depth
    let edges ← index fg.nodeOutEdges nodeIndex
    edges.foldlM (fun da sink => visitSink sink outputDepth da) da
  else
    return da

def visitSink (fg : ForwardGraph) : Nat → Nat → Nat → Result → Outcome Error Result
  | 0, _, _, _ => .error .outOfFuel
  | fuel + 1, sink, depth, da =>
      if sink < c.nodes.length then visitNode c fg (visitSink fg fuel) sink depth da
      else visitOutput (sink - c.nodes.length) depth da

def visitInput (fg : ForwardGraph) (fuel inputIndex : Nat) (da : Result) :
    Outcome Error Result := do
  let edges ← index fg.inputOutEdges inputIndex
  edges.foldlM (fun da sink => visitSink c fg fuel sink 1 da) da

end DepthAnalysis

open DepthAnalysis in
/-- The depths of the gates and of the outputs, if at most `fuel` calls are nested. -/
def analyzeDepth (c : Circuit) (memory : Nat → Nat) (fuel : Nat) :
    Outcome DepthAnalysis.Error Result := do
  let fg ← buildForwardGraph c memory
  let da : Result := ⟨List.replicate c.nodes.length 0, List.replicate c.outputs.length 0⟩
  let da ← (List.range c.inputs.length).foldlM
    (fun da inputIndex => visitInput c fg fuel inputIndex da) da
  return ⟨da.nodeDepth.map (· - 1), da.outputDepth.map (· - 1)⟩

end SynCirc
