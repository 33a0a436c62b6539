import SynCirc.BristolLines
import SynCirc.EvalCircuit
import SynCirc.Linearize.Tables
import SynCirc.DepthAnalysis.Tables

/-!
# The Bristol format: the largest wire number

The inputs and outputs of the circuit come from the counts in the header, but its largest wire
number comes from the gate lines alone.  So the inputs and outputs are at most the largest wire
number exactly if the gate lines mention large enough wires (`parseBristol_inRange_iff`).  Then the
evaluation, the analysis of the depth and the linearization stay in their tables.
-/

namespace SynCirc

open Zig BristolParser

namespace BristolParser

/-! ### The numbers in a text -/

/-- The number of a token, if it is one. -/
def number (raw : List UInt8) : Nat :=
  match parseIndex raw with
  | .ok w => w
  | _ => 0

theorem IsIndex.number_eq {raw : List UInt8} {w : Nat} (h : IsIndex raw w) :
  number raw = w
  := by
  have hindex : parseIndex raw = .ok w := h
  rw [number, hindex]

theorem map_number_eq {ts : List (List UInt8)} {ns : List Nat} (h : List.Forall₂ IsIndex ts ns) :
  ts.map number = ns
  := by
  induction h with
  | nil => rfl
  | cons ht _ ih => rw [List.map_cons, ht.number_eq, ih]

/-- The tokens of the line at a position. -/
def lineTokens (text : List UInt8) (i : Nat) : List (List UInt8) :=
  tokenize ((lines text).getD i [])

/-- The number of wires in the header. -/
def wireCount (text : List UInt8) : Nat := number ((lineTokens text 0).getD 1 [])

/-- The number of inputs in the header, which may be given in two parts. -/
def inputCount (text : List UInt8) : Nat :=
  match lineTokens text 1 with
  | field1 :: field2 :: _ :: _ => number field1 + number field2
  | field1 :: _ => number field1
  | [] => 0

/-- The number of outputs in the header. -/
def outputCount (text : List UInt8) : Nat :=
  match lineTokens text 1 with
  | _ :: _ :: field3 :: _ => number field3
  | _ :: field2 :: _ => number field2
  | _ => 0

/-- The wires on a gate line, which stand between its counts and its type. -/
def lineWires (line : List UInt8) : List Nat := ((tokenize line).drop 2).dropLast.map number

/-- The wires on all gate lines. -/
def gateWires (text : List UInt8) : List Nat := ((lines text).drop 2).flatMap lineWires

/-- The largest wire number on the gate lines, or 0 if there is none. -/
def largestGateWire (text : List UInt8) : Nat := (gateWires text).foldl max 0

/-- What is read from a gate line has wires of this line only, and the largest of them. -/
structure ReadFromWires (wires : List Nat) (gates : Circuit) : Prop where
  maxWireNumber : gates.maxWireNumber = wires.foldl max 0
  isLut : ∀ n ∈ gates.nodes, n.isLut = false
  isConstant : ∀ n ∈ gates.nodes, n.isConstant = false
  wires : ∀ n ∈ gates.nodes, ∀ luts, ∀ w ∈ n.wires luts, w ∈ wires

theorem next_eq_ok {e : Error} {iter rest : List (List UInt8)} {raw : List UInt8}
    (h : next e iter = .ok (raw, rest)) :
  iter = raw :: rest
  := by
  cases iter with
  | nil => contradiction
  | cons raw' iter =>
      cases h
      rfl

theorem parseGateTokens_eq_ok {iter : List (List UInt8)} {gates : Circuit}
    (h : parseGateTokens empty iter = .ok gates) :
  ReadFromWires ((iter.drop 2).dropLast.map number) gates
  := by
  rw [parseGateTokens] at h
  obtain ⟨⟨rawInputs, iter₁⟩, h₁, h⟩ := Outcome.bind_eq_ok.mp h
  obtain ⟨⟨rawOutputs, iter₂⟩, h₂, h⟩ := Outcome.bind_eq_ok.mp h
  obtain ⟨numInputs, -, h⟩ := Outcome.bind_eq_ok.mp h
  obtain ⟨numOutputs, -, h⟩ := Outcome.bind_eq_ok.mp h
  obtain ⟨⟨largest, inputs, iter₃⟩, hinputs, h⟩ := Outcome.bind_eq_ok.mp h
  obtain ⟨⟨largest', outputs, iter₄⟩, houtputs, h⟩ := Outcome.bind_eq_ok.mp h
  obtain ⟨⟨lineType, iter₅⟩, h₅, h⟩ := Outcome.bind_eq_ok.mp h
  obtain ⟨node, hnode, h⟩ := Outcome.bind_eq_ok.mp h
  split at h
  · contradiction
  case isFalse hend =>
    obtain rfl := Outcome.ok.inj h
    obtain ⟨ts, _, rfl, hts, -, rfl, rfl⟩ := readWires_eq_ok (Nat.zero_le _) hinputs
    obtain ⟨ts', _, rfl, hts', -, rfl, rfl⟩ := readWires_eq_ok (Nat.zero_le _) houtputs
    obtain rfl := next_eq_ok h₁
    obtain rfl := next_eq_ok h₂
    obtain rfl := next_eq_ok h₅
    have hwires :
        ((rawInputs :: rawOutputs :: (ts ++ (ts' ++ lineType :: iter₅))).drop 2).dropLast.map number
          = inputs ++ outputs := by
      rw [of_not_not hend, ← List.append_assoc, List.drop_succ_cons, List.drop_succ_cons,
        List.drop_zero, List.dropLast_concat, List.map_append, map_number_eq hts,
        map_number_eq hts']
    rw [hwires]
    obtain ⟨hlut, hconstant, hmem⟩ := parseGate_eq_ok hnode
    constructor
    · rw [List.foldl_append]
      rfl
    · intro n hn
      rw [List.mem_singleton.mp hn]
      apply hlut
    · intro n hn
      rw [List.mem_singleton.mp hn]
      apply hconstant
    · intro n hn
      rw [List.mem_singleton.mp hn]
      apply hmem

/-- What is read from a line. -/
theorem parseLine_eq_ok {line : List UInt8} {gates : Circuit}
    (h : parseLine empty line = .ok gates) :
  ReadFromWires (lineWires line) gates
  := by
  rw [parseLine] at h
  obtain ⟨iter, hiter, h⟩ := Outcome.bind_eq_ok.mp h
  obtain ⟨-, rfl⟩ := readLine_eq_ok.mp hiter
  split at h
  case isTrue hline =>
    obtain rfl := Outcome.ok.inj h
    rw [List.length_eq_zero_iff.mp hline]
    exact ⟨rfl, by simp [empty], by simp [empty], by simp [empty]⟩
  case isFalse => apply parseGateTokens_eq_ok h

/-- The gates of all lines, put together. -/
theorem foldl_join {ls : List (List UInt8)} {cs : List Circuit}
    (h : List.Forall₂ (fun l c => parseLine empty l = .ok c) ls cs) {wires : List Nat}
    {parser : Circuit} (hparser : ReadFromWires wires parser) :
  ReadFromWires (wires ++ ls.flatMap lineWires) (cs.foldl join parser)
    ∧ (cs.foldl join parser).inputs = parser.inputs
    ∧ (cs.foldl join parser).outputs = parser.outputs
  := by
  induction h generalizing wires parser with
  | nil =>
      rw [List.flatMap_nil, List.append_nil]
      exact ⟨hparser, rfl, rfl⟩
  | @cons l c ls cs hl _ ih =>
      have hc := parseLine_eq_ok hl
      have hjoin : ReadFromWires (wires ++ lineWires l) (join parser c) := by
        constructor
        · have hmax : (lineWires l).foldl max (max (wires.foldl max 0) 0)
              = max (wires.foldl max 0) ((lineWires l).foldl max 0) := List.foldl_assoc
          rw [Nat.max_zero] at hmax
          rw [List.foldl_append, hmax, ← hparser.maxWireNumber, ← hc.maxWireNumber]
          rfl
        · rw [join, List.forall_mem_append]
          exact ⟨hparser.isLut, hc.isLut⟩
        · rw [join, List.forall_mem_append]
          exact ⟨hparser.isConstant, hc.isConstant⟩
        · rw [join, List.forall_mem_append]
          constructor
          · intro n hn luts w hw
            apply List.mem_append_left _ (hparser.wires n hn luts w hw)
          · intro n hn luts w hw
            apply List.mem_append_right _ (hc.wires n hn luts w hw)
      rw [List.flatMap_cons, ← List.append_assoc]
      apply ih hjoin

theorem nextLine_eq_ok {stream rest : List (List UInt8)} {iter : List (List UInt8)}
    (h : nextLine stream = .ok (iter, rest)) :
  ∃ line, stream = line :: rest ∧ iter = tokenize line
  := by
  cases stream with
  | nil => contradiction
  | cons line stream =>
      obtain ⟨iter', hiter, h⟩ := Outcome.bind_eq_ok.mp h
      obtain ⟨-, rfl⟩ := readLine_eq_ok.mp hiter
      cases h
      exact ⟨line, rfl, rfl⟩

/-- The counts on the second line. -/
theorem parsePortCounts_eq_ok {text : List UInt8} {counts : Nat × Nat}
    (h : parsePortCounts (lineTokens text 1) = .ok counts) :
  counts = (inputCount text, outputCount text)
  := by
  rw [inputCount, outputCount]
  match hiter : lineTokens text 1 with
  | [] =>
      rw [hiter] at h
      contradiction
  | [_] =>
      rw [hiter] at h
      contradiction
  | [field1, field2] =>
      simp only [hiter, parsePortCounts, next, Outcome.ok_bind] at h
      obtain ⟨numInputWires, h₁, h⟩ := Outcome.bind_eq_ok.mp h
      obtain ⟨numOutputWires, h₂, h⟩ := Outcome.bind_eq_ok.mp h
      obtain rfl := Outcome.ok.inj h
      simp only [IsIndex.number_eq h₁, IsIndex.number_eq h₂]
  | field1 :: field2 :: field3 :: _ =>
      simp only [hiter, parsePortCounts, next, Outcome.ok_bind] at h
      obtain ⟨numInputWiresA, h₁, h⟩ := Outcome.bind_eq_ok.mp h
      obtain ⟨numInputWiresB, h₂, h⟩ := Outcome.bind_eq_ok.mp h
      obtain ⟨_, -, h⟩ := Outcome.bind_eq_ok.mp h
      obtain ⟨numOutputWires, h₃, h⟩ := Outcome.bind_eq_ok.mp h
      obtain rfl := Outcome.ok.inj h
      simp only [IsIndex.number_eq h₁, IsIndex.number_eq h₂, IsIndex.number_eq h₃]

/-- What the header says: the inputs are the first wires, and the outputs are the last ones. -/
structure HasPorts (text : List UInt8) (parser : Circuit) : Prop where
  counts : outputCount text ≤ wireCount text
  inputs : parser.inputs = List.range (inputCount text)
  outputs : parser.outputs
    = List.range' (wireCount text - outputCount text) (outputCount text)

theorem parseHeader_eq_ok {text : List UInt8} {parser : Circuit} {stream : List (List UInt8)}
    (h : parseHeader empty (lines text) = .ok (parser, stream)) :
  stream = (lines text).drop 2 ∧ HasPorts text parser ∧ ReadFromWires [] parser
  := by
  rw [parseHeader] at h
  obtain ⟨⟨iter, stream₁⟩, h₁, h⟩ := Outcome.bind_eq_ok.mp h
  obtain ⟨numWires, hnumWires, h⟩ := Outcome.bind_eq_ok.mp h
  obtain ⟨⟨iter', stream₂⟩, h₂, h⟩ := Outcome.bind_eq_ok.mp h
  obtain ⟨counts, hcounts, h⟩ := Outcome.bind_eq_ok.mp h
  obtain ⟨firstOutput, hfirst, h⟩ := Outcome.bind_eq_ok.mp h
  obtain ⟨first, hlines, rfl⟩ := nextLine_eq_ok h₁
  obtain ⟨second, rfl, rfl⟩ := nextLine_eq_ok h₂
  have hzero : lineTokens text 0 = tokenize first := by
    rw [lineTokens, hlines]
    rfl
  have hone : lineTokens text 1 = tokenize second := by
    rw [lineTokens, hlines]
    rfl
  have hwires : wireCount text = numWires := by
    rw [wireCount, hzero]
    revert hnumWires
    rw [parseWireCount_eq_ok]
    rcases tokenize first with _ | ⟨head, _ | ⟨raw, rest⟩⟩
    · apply False.elim
    · apply False.elim
    · apply IsIndex.number_eq
  rw [← hone] at hcounts
  obtain rfl := parsePortCounts_eq_ok hcounts
  obtain ⟨hle, rfl⟩ := sub_eq_ok.mp hfirst
  cases h
  rw [hlines, ← hwires]
  rw [← hwires] at hle
  exact ⟨rfl, ⟨hle, rfl, rfl⟩, ⟨rfl, by simp [empty], by simp [empty], by simp [empty]⟩⟩

/-- A circuit that is read has the inputs and outputs the header says, and the wires of the gate
lines. -/
theorem parseBristol_eq_ok {text : List UInt8} {c : Circuit} (h : parseBristol text = .ok c) :
  HasPorts text c ∧ ReadFromWires (gateWires text) c
  := by
  rw [parseBristol_eq] at h
  obtain ⟨⟨parser, stream⟩, hheader, h⟩ := Outcome.bind_eq_ok.mp h
  obtain ⟨cs, hcs, h⟩ := Outcome.bind_eq_ok.mp h
  obtain rfl := Outcome.ok.inj h
  obtain ⟨rfl, hports, hread⟩ := parseHeader_eq_ok hheader
  obtain ⟨hread, hinputs, houtputs⟩ := foldl_join (Outcome.forall₂_of_mapM_eq_ok hcs) hread
  constructor
  · exact ⟨hports.counts, hinputs.trans hports.inputs, houtputs.trans hports.outputs⟩
  · apply hread

end BristolParser

/-! ### Circuits that stay in their tables -/

/-- The wires of the circuit have entries in the tables of `maxWireNumber + 1` entries: all of them
are in range, and neither the evaluation nor the linearization stops at a bounds check, nor does the
analysis of the depth at one of the map from wires to sources.  The other tables of the analysis are
accessed by what the map holds, which must be sources for wires that are not driven. -/
structure Circuit.StaysInTables (c : Circuit) : Prop where
  wires : ∀ w ∈ c.mentioned, w ≤ c.maxWireNumber
  evaluates : ∀ inputs : List Bool, inputs.length = c.inputs.length →
    (evaluateCircuit c inputs = .panic .integerOverflow ∧ ¬ c.maxWireNumber + 1 < 2 ^ 64)
      ∨ ∃ outputs, evaluateCircuit c inputs = .ok outputs
  maps : ∀ memory, DepthAnalysis.wireSourceMap c memory ≠ .panic .indexOutOfBounds
    ∧ ∀ map, DepthAnalysis.wireSourceMap c memory = .ok map →
      (∀ n ∈ c.nodes, ∀ w ∈ n.reads c.luts, w < map.len) ∧ ∀ w ∈ c.outputs, w < map.len
  analyzes : ∀ memory, (∀ w, memory w < c.inputs.length + c.nodes.length) →
    ∀ fuel, analyzeDepth c memory fuel ≠ .panic .indexOutOfBounds
  linearizes : ∀ memory, Linearize.run memory c ≠ .panic .indexOutOfBounds

/-- A circuit without constants and lookup tables stays in its tables if its wires are in range. -/
theorem Circuit.staysInTables_of_wires {c : Circuit}
    (hgates : ∀ n ∈ c.nodes, n.isLut = false ∧ n.isConstant = false)
    (hwires : ∀ w ∈ c.mentioned, w ≤ c.maxWireNumber) :
  c.StaysInTables
  := by
  have hrange : c.InRange := by
    refine ⟨hwires, ?_⟩
    intro n hn
    have hlut := (hgates n hn).1
    cases n with
    | lut => contradiction
    | _ => trivial
  refine ⟨hwires, ?_, DepthAnalysis.wireSourceMap_inRange hrange,
    fun _ hmemory => analyzeDepth_ne_indexOutOfBounds hrange hmemory, ?_⟩
  · intro inputs hinputs
    by_cases htable : c.maxWireNumber + 1 < 2 ^ 64
    · right
      use c.outputs.map (c.values inputs)
      rw [evaluateCircuit_eq hrange htable hinputs, if_pos]
      rw [List.all_eq_true]
      intro n hn
      apply Node.arityFits_of_not_lut (hgates n hn).1
    · exact .inl ⟨evaluateCircuit_overflow htable inputs, htable⟩
  · intro memory
    apply Linearize.run_ne_indexOutOfBounds memory hrange
    intro n hn hconstant
    rw [(hgates n hn).2] at hconstant
    contradiction

/-- The inputs, the outputs and the wires of the gates of a circuit read from a text are at most its
largest wire number, so that the evaluation, the analysis of the depth and the linearization stay in
their tables, exactly if the gate lines mention a wire that is as large as all inputs, and, if there
are outputs, as large as all wires. -/
theorem parseBristol_inRange_iff {text : List UInt8} {c : Circuit} (h : parseBristol text = .ok c) :
  c.StaysInTables
    ↔ inputCount text ≤ largestGateWire text + 1
      ∧ (outputCount text = 0 ∨ wireCount text ≤ largestGateWire text + 1)
  := by
  obtain ⟨hports, hread⟩ := parseBristol_eq_ok h
  have hmax : c.maxWireNumber = largestGateWire text := hread.maxWireNumber
  have hnodes : ∀ w ∈ c.nodes.flatMap (Node.wires c.luts), w ≤ largestGateWire text := by
    intro w hw
    obtain ⟨n, hn, hw⟩ := List.mem_flatMap.mp hw
    apply Circuit.le_foldl_max (hread.wires n hn _ w hw)
  have hcounts := hports.counts
  have htables : c.StaysInTables ↔ ∀ w ∈ c.mentioned, w ≤ c.maxWireNumber := by
    constructor
    · apply Circuit.StaysInTables.wires
    · apply Circuit.staysInTables_of_wires
      intro n hn
      exact ⟨hread.isLut n hn, hread.isConstant n hn⟩
  rw [htables]
  simp only [Circuit.mentioned, List.forall_mem_append, hmax, hports.inputs, hports.outputs,
    List.mem_range, List.mem_range'_1]
  constructor
  · rintro ⟨⟨hinputs, houtputs⟩, -⟩
    constructor
    · by_contra hlt
      have hle := hinputs (largestGateWire text + 1) (by omega)
      omega
    · by_contra hlt
      have hle := houtputs (wireCount text - 1) (by omega)
      omega
  · rintro ⟨hinputs, houtputs⟩
    refine ⟨⟨?_, ?_⟩, hnodes⟩
    · intro w hw
      omega
    · intro w hw
      omega

theorem parseBristol_inRange_iff_and :
  ∃ c, parseBristol (bytes "1 3\n2 1\n\n2 1 0 1 2 AND\n") = .ok c
    ∧ (c.StaysInTables
      ↔ inputCount (bytes "1 3\n2 1\n\n2 1 0 1 2 AND\n")
          ≤ largestGateWire (bytes "1 3\n2 1\n\n2 1 0 1 2 AND\n") + 1
        ∧ (outputCount (bytes "1 3\n2 1\n\n2 1 0 1 2 AND\n") = 0
          ∨ wireCount (bytes "1 3\n2 1\n\n2 1 0 1 2 AND\n")
            ≤ largestGateWire (bytes "1 3\n2 1\n\n2 1 0 1 2 AND\n") + 1))
  := by
  have hparse : parseBristol (bytes "1 3\n2 1\n\n2 1 0 1 2 AND\n")
      = .ok ⟨[.and 0 1 2], [], [0, 1], [2], [], 2⟩ := by
    decide +kernel
  exact ⟨_, hparse, parseBristol_inRange_iff hparse⟩

/-- Two wires that are inputs and outputs, without gates: the wire 1 is above the largest wire
number, and the evaluation stops at a safety check. -/
theorem parseBristol_wires :
  ∃ c, parseBristol (bytes "0 2\n2 2\n") = .ok c ∧ ¬ (∀ w ∈ c.mentioned, w ≤ c.maxWireNumber)
    ∧ evaluateCircuit c [true, true] = .panic .indexOutOfBounds
  := by
  have hparse : parseBristol (bytes "0 2\n2 2\n") = .ok ⟨[], [], [0, 1], [0, 1], [], 0⟩ := by
    decide +kernel
  refine ⟨_, hparse, ?_, rfl⟩
  decide

end SynCirc
