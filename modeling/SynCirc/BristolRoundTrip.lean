import SynCirc.EmitBristol
import SynCirc.BristolLines

/-!
# The Bristol format: round trip

A circuit in the shape of the format is read back from its text, with its largest wire number
rebuilt from the gate lines (`parseBristol_writeCircuit`).  The line of a gate gives its
wires in the order `Node.wires`, so one argument covers all five gates.
-/

namespace SynCirc

open Zig

/-- The shape of a circuit the format can carry: the inputs are the first wires, the outputs
are the last ones up to the largest wire number, which is on some gate, and there are no
constants and no lookup tables. -/
structure Circuit.BristolShape (c : Circuit) : Prop where
  inputs : c.inputs = List.range c.inputs.length
  outputs_le : c.outputs.length ≤ c.maxWireNumber + 1
  outputs : c.outputs
    = List.range' (c.maxWireNumber + 1 - c.outputs.length) c.outputs.length
  gates : ∀ n ∈ c.nodes, n.isConstant = false ∧ n.isLut = false
  top : ∃ n ∈ c.nodes, c.maxWireNumber ∈ n.wires c.luts

namespace EmitBristol

open Emit (printLine)

/-- The name of the type of a gate. -/
def typeName : Node → String
  | .inv _ _ => "INV"
  | .and _ _ _ => "AND"
  | .xor _ _ _ => "XOR"
  | .and3 _ _ _ _ => "AND3"
  | .and4 _ _ _ _ _ => "AND4"
  | _ => ""

/-- The words on the line of a gate. -/
def lineWords (luts : List Nat) (n : Node) : List (List UInt8) :=
  formatInt (n.reads luts).length :: formatInt 1
    :: ((n.reads luts).map formatInt ++ [formatInt n.output, bytes (typeName n)])

variable {c : Circuit}

/-- The numbers of inputs and outputs are printed integers. -/
theorem bytes_counts :
  bytes "1" = formatInt 1 ∧ bytes "2" = formatInt 2 ∧ bytes "3" = formatInt 3
    ∧ bytes "4" = formatInt 4
  := by
  decide

theorem emitNode_eq {n : Node} (hconstant : n.isConstant = false) (hlut : n.isLut = false)
    (luts : List Nat) :
  emitNode n = .ok (printLine (lineWords luts n))
  := by
  cases n with
  | zero output => contradiction
  | one output => contradiction
  | lut offset tableOffset arity output => contradiction
  | _ =>
      simp only [emitNode, emitOneInput, emitTwoInput, emitThreeInput, emitFourInput,
        bytes_counts]
      rfl

/-- The words on the lines of the header. -/
def headerWords (c : Circuit) : List (List (List UInt8)) :=
  [[formatInt c.nodes.length, formatInt (c.maxWireNumber + 1)],
    [formatInt c.inputs.length, formatInt c.outputs.length], []]

theorem emitHeader_eq (hmax : c.maxWireNumber + 1 < 2 ^ 64) :
  emitHeader c = .ok ((headerWords c).flatMap printLine)
  := by
  rw [emitHeader, check_of hmax, Outcome.ok_bind, Outcome.pure_eq, headerWords,
    List.flatMap_cons, List.flatMap_cons, List.flatMap_singleton, List.append_assoc]

/-- The words on all lines. -/
def allWords (c : Circuit) : List (List (List UInt8)) :=
  headerWords c ++ c.nodes.map (lineWords c.luts)

/-- The text of a circuit. -/
def text (c : Circuit) : List UInt8 :=
  ((allWords c).map words).flatMap (fun l => l ++ [newline])

/-- The text consists of the lines of the header and of the gates. -/
theorem writeCircuit_eq (hmax : c.maxWireNumber + 1 < 2 ^ 64)
    (hgates : ∀ n ∈ c.nodes, n.isConstant = false ∧ n.isLut = false) :
  writeCircuit c none = .ok (text c)
  := by
  have hnodes : ∀ ns : List Node, (∀ n ∈ ns, n ∈ c.nodes) → ∀ k : Nat,
      (ns.zipIdx k).mapM (emitNodeUnlessDead none)
        = .ok (ns.map (fun n => printLine (lineWords c.luts n))) := by
    intro ns
    induction ns with
    | nil =>
        intro _ k
        rfl
    | cons n ns ih =>
        intro hmem k
        rw [List.forall_mem_cons] at hmem
        have hn : emitNodeUnlessDead none (n, k) = .ok (printLine (lineWords c.luts n)) :=
          emitNode_eq (hgates n hmem.1).1 (hgates n hmem.1).2 c.luts
        rw [List.zipIdx_cons, List.mapM_cons, hn, Outcome.ok_bind, ih hmem.2]
        rfl
  rw [writeCircuit, emitHeader_eq hmax, Outcome.ok_bind, hnodes c.nodes (fun _ hn => hn),
    Outcome.ok_bind, Outcome.pure_eq, text, allWords, List.map_append, List.flatMap_append,
    List.flatMap_map, List.flatMap_map, List.flatMap_map, ← List.flatMap_def]
  rfl

theorem isWord_typeName {n : Node} (hconstant : n.isConstant = false) (hlut : n.isLut = false) :
  IsWord (bytes (typeName n)) ∧ (bytes (typeName n)).length ≤ 20
  := by
  cases n with
  | zero output => contradiction
  | one output => contradiction
  | lut offset tableOffset arity output => contradiction
  | _ =>
      simp only [typeName]
      exact ⟨⟨by decide, by decide, by decide⟩, by decide⟩

/-- A gate other than a lookup table reads at most four wires. -/
theorem length_reads_le {n : Node} (hlut : n.isLut = false) (luts : List Nat) :
  (n.reads luts).length ≤ 4
  := by
  cases n with
  | lut offset tableOffset arity output => contradiction
  | _ => simp [Node.reads]

/-- The words on the line of a gate are short words. -/
theorem isWord_lineWords {luts : List Nat} {n : Node} (hconstant : n.isConstant = false)
    (hlut : n.isLut = false) (hwires : ∀ w ∈ n.wires luts, w < 2 ^ 64) :
  ∀ t ∈ lineWords luts n, IsWord t ∧ t.length ≤ 20
  := by
  have hint : ∀ w, w < 2 ^ 64 → IsWord (formatInt w) ∧ (formatInt w).length ≤ 20 :=
    fun w hw => ⟨isWord_formatInt w, length_formatInt_le (Nat.lt_trans hw (by decide))⟩
  have harity := length_reads_le hlut luts
  rw [lineWords, List.forall_mem_cons, List.forall_mem_cons, List.forall_mem_append,
    List.forall_mem_map, List.forall_mem_cons, List.forall_mem_singleton]
  refine ⟨hint _ (by omega), hint 1 (by decide), ?_, ?_, isWord_typeName hconstant hlut⟩
  · intro w hw
    apply hint w (hwires w (List.mem_append_left _ hw))
  · apply hint _ (hwires _ (List.mem_append_right _ List.mem_cons_self))

end EmitBristol

namespace BristolParser

open EmitBristol

variable {c parser : Circuit}

theorem parseIndex_formatInt {w : Nat} (hw : w < 2 ^ 64) :
  parseIndex (formatInt w) = .ok w
  := by
  rw [parseIndex, parseInt_formatInt (by decide) hw]
  rfl

/-- Reading as many printed wires as are missing. -/
theorem readWires_eq {ws : List Nat} (hws : ∀ w ∈ ws, w < 2 ^ 64) {count : Nat}
    {wires : List Nat} (hcount : wires.length + ws.length = count) (hfour : count ≤ 4)
    (maxWireNumber : Nat) (rest : List (List UInt8)) :
  readWires count maxWireNumber wires (ws.map formatInt ++ rest)
    = .ok (ws.foldl max maxWireNumber, wires ++ ws, rest)
  := by
  have hts : List.Forall₂ IsIndex (ws.map formatInt) ws := by
    rw [List.forall₂_map_left_iff, List.forall₂_same]
    intro w hw
    apply parseIndex_formatInt (hws w hw)
  apply readWires_of_forall₂ hts hcount hfour

/-- The type and the wires of a gate give the gate back. -/
theorem parseGate_eq {n : Node} (hconstant : n.isConstant = false) (hlut : n.isLut = false)
    (luts : List Nat) :
  parseGate (bytes (typeName n)) (n.reads luts).length 1 (n.reads luts) [n.output] = .ok n
  := by
  cases n with
  | zero output => contradiction
  | one output => contradiction
  | lut offset tableOffset arity output => contradiction
  | xor inputA inputB output =>
      rw [typeName, parseGate, if_pos rfl]
      rfl
  | and inputA inputB output =>
      rw [typeName, parseGate, if_neg (by decide), if_pos rfl]
      rfl
  | and3 inputA inputB inputC output =>
      rw [typeName, parseGate, if_neg (by decide), if_neg (by decide), if_pos rfl]
      rfl
  | and4 inputA inputB inputC inputD output =>
      rw [typeName, parseGate, if_neg (by decide), if_neg (by decide), if_neg (by decide),
        if_pos rfl]
      rfl
  | inv input output =>
      rw [typeName, parseGate, if_neg (by decide), if_neg (by decide), if_neg (by decide),
        if_neg (by decide), if_pos rfl]
      rfl

/-- The tokens of the line of a gate add the gate. -/
theorem parseGateTokens_lineWords {luts : List Nat} {n : Node} (hconstant : n.isConstant = false)
    (hlut : n.isLut = false) (hwires : ∀ w ∈ n.wires luts, w < 2 ^ 64) (parser : Circuit) :
  parseGateTokens parser (lineWords luts n)
    = .ok (addNode { parser with
        maxWireNumber := (n.wires luts).foldl max parser.maxWireNumber } n)
  := by
  have harity := length_reads_le hlut luts
  have hreads : ∀ w ∈ n.reads luts, w < 2 ^ 64 :=
    fun w hw => hwires w (List.mem_append_left _ hw)
  have houtput : ∀ w ∈ [n.output], w < 2 ^ 64 :=
    fun w hw => hwires w (List.mem_append_right _ hw)
  have hzero : ([] : List Nat).length + (n.reads luts).length = (n.reads luts).length :=
    Nat.zero_add _
  have hin := readWires_eq hreads hzero harity parser.maxWireNumber
    [formatInt n.output, bytes (typeName n)]
  have hlength : ([] : List Nat).length + [n.output].length = 1 := rfl
  have hout := readWires_eq houtput hlength (by decide)
    ((n.reads luts).foldl max parser.maxWireNumber) [bytes (typeName n)]
  simp only [List.map_singleton, List.singleton_append] at hout
  have hcount : parseIndex (formatInt (n.reads luts).length) = .ok (n.reads luts).length :=
    parseIndex_formatInt (Nat.lt_of_le_of_lt harity (by decide))
  have hone : parseIndex (formatInt 1) = .ok 1 := parseIndex_formatInt (by decide)
  have hgate := parseGate_eq hconstant hlut luts
  simp only [parseGateTokens, lineWords, next, Outcome.ok_bind, hcount, hone, hin, hout,
    List.nil_append, hgate, ne_eq, not_true_eq_false, if_false, Outcome.pure_eq, Node.wires,
    List.foldl_append]

/-- A line of short words fits in the buffer. -/
theorem readLine_words {ts : List (List UInt8)} (hts : ∀ t ∈ ts, IsWord t ∧ t.length ≤ 20)
    (hlength : ts.length ≤ 8) :
  readLine (words ts) = .ok ts
  := by
  have hle := length_words_le (fun t ht => (hts t ht).2)
  have hlt : (words ts).length < bufLen := by
    rw [bufLen]
    omega
  rw [readLine, if_neg (Nat.not_le_of_lt hlt), tokenize_words (fun t ht => (hts t ht).1)]

/-- The line of a gate adds the gate. -/
theorem parseLine_lineWords {luts : List Nat} {n : Node} (hconstant : n.isConstant = false)
    (hlut : n.isLut = false) (hwires : ∀ w ∈ n.wires luts, w < 2 ^ 64) (parser : Circuit) :
  parseLine parser (words (lineWords luts n))
    = .ok (addNode { parser with
        maxWireNumber := (n.wires luts).foldl max parser.maxWireNumber } n)
  := by
  have hlength : (lineWords luts n).length ≤ 8 := by
    have harity := length_reads_le hlut luts
    simp only [lineWords, List.length_cons, List.length_append, List.length_map, List.length_nil]
    omega
  have hread := readLine_words (isWord_lineWords hconstant hlut hwires) hlength
  have hne : (words (lineWords luts n)).length ≠ 0 := by
    have hcons : words (lineWords luts n) = formatInt (n.reads luts).length
        ++ _ := rfl
    rw [hcons, List.length_append]
    have hpos := List.length_pos_of_ne_nil (formatInt_ne_nil (n.reads luts).length)
    omega
  rw [parseLine, hread, Outcome.ok_bind, if_neg hne]
  apply parseGateTokens_lineWords hconstant hlut hwires

/-- The lines of the gates add the gates. -/
theorem foldlM_lineWords {luts : List Nat} {ns : List Node}
    (hgates : ∀ n ∈ ns, n.isConstant = false ∧ n.isLut = false)
    (hwires : ∀ n ∈ ns, ∀ w ∈ n.wires luts, w < 2 ^ 64) (parser : Circuit) :
  ((ns.map (lineWords luts)).map words).foldlM parseLine parser
    = .ok { parser with
        nodes := parser.nodes ++ ns
        maxWireNumber := (ns.flatMap (Node.wires luts)).foldl max parser.maxWireNumber }
  := by
  induction ns generalizing parser with
  | nil => simp
  | cons n ns ih =>
      rw [List.forall_mem_cons] at hgates hwires
      rw [List.map_cons, List.map_cons, List.foldlM_cons,
        parseLine_lineWords hgates.1.1 hgates.1.2 hwires.1, Outcome.ok_bind, ih hgates.2 hwires.2]
      simp [addNode]

/-- Two printed integers on a line of the header. -/
theorem readLine_pair {a b : Nat} (ha : a < 2 ^ 64) (hb : b < 2 ^ 64) :
  readLine (words [formatInt a, formatInt b]) = .ok [formatInt a, formatInt b]
  := by
  have hint : ∀ w, w < 2 ^ 64 → IsWord (formatInt w) ∧ (formatInt w).length ≤ 20 :=
    fun w hw => ⟨isWord_formatInt w, length_formatInt_le (Nat.lt_trans hw (by decide))⟩
  apply readLine_words
  · rw [List.forall_mem_cons, List.forall_mem_singleton]
    exact ⟨hint a ha, hint b hb⟩
  · simp

/-- The header gives the inputs and outputs. -/
theorem parseHeader_headerWords (hnodes : c.nodes.length < 2 ^ 64)
    (hmax : c.maxWireNumber + 1 < 2 ^ 64) (hinputs : c.inputs.length < 2 ^ 64)
    (houtputs : c.outputs.length ≤ c.maxWireNumber + 1) (rest : List (List UInt8)) :
  parseHeader ⟨[], [], [], [], [], 0⟩ ((headerWords c).map words ++ rest)
    = .ok (⟨[], [], List.range c.inputs.length,
        List.range' (c.maxWireNumber + 1 - c.outputs.length) c.outputs.length, [], 0⟩,
        words [] :: rest)
  := by
  have houtputs' : c.outputs.length < 2 ^ 64 := by omega
  simp only [parseHeader, headerWords, List.map_cons, List.map_nil, List.cons_append,
    List.nil_append, nextLine, readLine_pair hnodes hmax, readLine_pair hinputs houtputs',
    Outcome.ok_bind, parseWireCount, parsePortCounts, next, parseIndex_formatInt hmax,
    parseIndex_formatInt hinputs, parseIndex_formatInt houtputs', Outcome.pure_eq,
    sub_of houtputs]

/-- The empty line after the header. -/
theorem parseLine_nil (parser : Circuit) :
  parseLine parser (words []) = .ok parser
  := rfl

/-- The largest of numbers that include the bound. -/
theorem foldl_max_eq {ws : List Nat} {a b : Nat} (ha : a ≤ b) (hle : ∀ w ∈ ws, w ≤ b)
    (hmem : a = b ∨ b ∈ ws) :
  ws.foldl max a = b
  := by
  induction ws generalizing a with
  | nil => simpa using hmem
  | cons w ws ih =>
      rw [List.forall_mem_cons] at hle
      rw [List.mem_cons] at hmem
      apply ih (Nat.max_le.mpr ⟨ha, hle.1⟩) hle.2
      rcases hmem with rfl | rfl | hmem
      · exact .inl (Nat.max_eq_left hle.1)
      · exact .inl (Nat.max_eq_right ha)
      · exact .inr hmem

/-- The lines of the text of a circuit. -/
theorem lines_text (hgates : ∀ n ∈ c.nodes, n.isConstant = false ∧ n.isLut = false)
    (hwires : ∀ n ∈ c.nodes, ∀ w ∈ n.wires c.luts, w < 2 ^ 64) :
  lines (text c) = (allWords c).map words
  := by
  apply lines_flatMap
  intro l hl
  obtain ⟨ts, hts, rfl⟩ := List.mem_map.mp hl
  apply newline_notMem_words
  rcases List.mem_append.mp hts with hts | hts
  · simp only [headerWords, List.mem_cons, List.not_mem_nil, or_false] at hts
    rcases hts with rfl | rfl | rfl
    · simp [isWord_formatInt]
    · simp [isWord_formatInt]
    · simp
  · obtain ⟨n, hn, rfl⟩ := List.mem_map.mp hts
    intro t ht
    obtain ⟨hconstant, hlut⟩ := hgates n hn
    apply (isWord_lineWords hconstant hlut (hwires n hn) t ht).1

/-- The text of a circuit is read back. -/
theorem parseBristol_text (hshape : c.BristolShape)
    (hwires : ∀ n ∈ c.nodes, ∀ w ∈ n.wires c.luts, w ≤ c.maxWireNumber)
    (hmax : c.maxWireNumber + 1 < 2 ^ 64) (hnodes : c.nodes.length < 2 ^ 64)
    (hinputs : c.inputs.length < 2 ^ 64) :
  parseBristol (text c) = .ok { c with luts := [], lutTables := [] }
  := by
  have hfit : ∀ n ∈ c.nodes, ∀ w ∈ n.wires c.luts, w < 2 ^ 64 := by
    intro n hn w hw
    have hle := hwires n hn w hw
    omega
  have htop : (c.nodes.flatMap (Node.wires c.luts)).foldl max 0 = c.maxWireNumber := by
    apply foldl_max_eq (Nat.zero_le _)
    · intro w hw
      obtain ⟨n, hn, hw⟩ := List.mem_flatMap.mp hw
      apply hwires n hn w hw
    · right
      apply List.mem_flatMap.mpr hshape.top
  rw [parseBristol, lines_text hshape.gates hfit, allWords, List.map_append,
    parseHeader_headerWords hnodes hmax hinputs hshape.outputs_le, Outcome.ok_bind]
  simp only [List.foldlM_cons, parseLine_nil, Outcome.ok_bind]
  rw [foldlM_lineWords hshape.gates hfit, htop, ← hshape.inputs, ← hshape.outputs]
  rfl

/-- A circuit in the shape of the format is read back from its text, if no gate has a wire
above the largest wire number and the number of wires fits in a machine word. -/
theorem parseBristol_writeCircuit (hshape : c.BristolShape)
    (hwires : ∀ n ∈ c.nodes, ∀ w ∈ n.wires c.luts, w ≤ c.maxWireNumber)
    (hmax : c.maxWireNumber + 1 < 2 ^ 64) (hnodes : c.nodes.length < 2 ^ 64)
    (hinputs : c.inputs.length < 2 ^ 64) :
  ∃ text, EmitBristol.writeCircuit c none = .ok text
    ∧ parseBristol text = .ok { c with luts := [], lutTables := [] }
  := ⟨text c, writeCircuit_eq hmax hshape.gates,
    parseBristol_text hshape hwires hmax hnodes hinputs⟩

/-- A circuit with a gate of every kind. -/
def everyGate : Circuit where
  nodes := [.inv 0 2, .and 0 1 3, .xor 2 3 4, .and3 0 1 4 5, .and4 0 1 2 3 6]
  luts := []
  inputs := [0, 1]
  outputs := [5, 6]
  lutTables := []
  maxWireNumber := 6

theorem parseBristol_writeCircuit_everyGate :
  ∃ text, EmitBristol.writeCircuit everyGate none = .ok text
    ∧ parseBristol text = .ok { everyGate with luts := [], lutTables := [] }
  := by
  have hshape : everyGate.BristolShape :=
    ⟨rfl, by decide, rfl, by decide, .and4 0 1 2 3 6, by decide, by decide⟩
  exact parseBristol_writeCircuit hshape (by decide) (by decide) (by decide) (by decide)

/-- A circuit with a gate that drives a wire above the largest wire number. -/
def wireAboveMax : Circuit where
  nodes := [.inv 0 1, .inv 1 5]
  luts := []
  inputs := [0]
  outputs := [1]
  lutTables := []
  maxWireNumber := 1

/-- A circuit that uses all wire numbers of a machine word. -/
def lastWire : Circuit where
  nodes := [.inv 0 (2 ^ 64 - 1)]
  luts := []
  inputs := [0]
  outputs := [2 ^ 64 - 1]
  lutTables := []
  maxWireNumber := 2 ^ 64 - 1

/-- The shape alone is not enough.  A wire above the largest wire number is read back as the
largest wire number, and the number of wires may not fit in a machine word. -/
theorem not_parseBristol_writeCircuit :
  (wireAboveMax.BristolShape ∧ wireAboveMax.WiresFit
    ∧ ¬ ∃ text, EmitBristol.writeCircuit wireAboveMax none = .ok text
      ∧ parseBristol text = .ok { wireAboveMax with luts := [], lutTables := [] })
  ∧ (lastWire.BristolShape ∧ lastWire.WiresFit
    ∧ ¬ ∃ text, EmitBristol.writeCircuit lastWire none = .ok text
      ∧ parseBristol text = .ok { lastWire with luts := [], lutTables := [] })
  := by
  constructor
  · refine ⟨⟨rfl, by decide, rfl, by decide, .inv 0 1, by decide, by decide⟩, ?_, ?_⟩
    · rw [Circuit.WiresFit]
      decide
    · rintro ⟨text, hwrite, hparse⟩
      have htext : EmitBristol.writeCircuit wireAboveMax none
          = .ok (bytes "2 2\n1 1\n\n1 1 0 1 INV\n1 1 1 5 INV\n") := by
        decide +kernel
      rw [htext] at hwrite
      obtain rfl := Outcome.ok.inj hwrite
      revert hparse
      decide +kernel
  · refine ⟨⟨rfl, by decide, by decide, by decide, .inv 0 (2 ^ 64 - 1), by decide, by decide⟩,
      ?_, ?_⟩
    · rw [Circuit.WiresFit]
      decide
    · rintro ⟨text, hwrite, -⟩
      have htext : EmitBristol.writeCircuit lastWire none = .panic .integerOverflow := by
        decide
      rw [htext] at hwrite
      contradiction

end BristolParser

end SynCirc
