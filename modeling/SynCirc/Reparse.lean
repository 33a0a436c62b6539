import SynCirc.ParserSafe
import SynCirc.Formats

/-!
# Circuits with the same lines

The emission and the evaluation of a circuit see a lookup table through its input wires and its
truth table only, not through the places of its slices.  So circuits whose gates have the same lines
are written as the same text and compute the same bits.  What is read back from the text of a
circuit has the same lines (`Circuit.exists_parseCircuit_text`), whatever the circuit keeps in
`luts` and `lutTables` besides.
-/

namespace SynCirc

open Zig StraightLine

/-! ### Gates -/

/-- The gates `n` of `c` and `n'` of `c'` are in range and have the same line. -/
structure SameLine (c c' : Circuit) (n n' : Node) : Prop where
  lut : n.LutInRange c.luts c.lutTables
  lut' : n'.LutInRange c'.luts c'.lutTables
  line : Parser.nodeLine c' n' = Parser.nodeLine c n

namespace SameLine

variable {c c' : Circuit} {n n' : Node}

/-- Gates with the same line are equal, or they are lookup tables with the same input wires, output
wire and truth table. -/
theorem eq_or_lut (h : SameLine c c' n n') :
  (n' = n ∧ n.isLut = false) ∨ ∃ offset tableOffset offset' tableOffset' arity output,
    n = .lut offset tableOffset arity output ∧ n' = .lut offset' tableOffset' arity output
    ∧ (c'.luts.drop offset').take arity = (c.luts.drop offset).take arity
    ∧ (c'.lutTables.drop tableOffset').take (2 ^ arity)
      = (c.lutTables.drop tableOffset).take (2 ^ arity)
  := by
  obtain ⟨hlut, hlut', hline⟩ := h
  have hlength := Parser.length_lutInputs hlut
  have hlength' := Parser.length_lutInputs hlut'
  rw [Parser.nodeLine, Parser.nodeLine] at hline
  cases hn : n.isLut with
  | false =>
      left
      rw [hn, if_neg Bool.false_ne_true] at hline
      split at hline
      · contradiction
      · exact ⟨Parser.Line.gate.inj hline, rfl⟩
  | true =>
      right
      rw [hn, if_pos rfl] at hline
      split at hline
      case isTrue hn' =>
        obtain ⟨hinputs, houtput, htable⟩ := Parser.Line.lut.inj hline
        cases n with
        | lut offset tableOffset arity output =>
            cases n' with
            | lut offset' tableOffset' arity' output' =>
                rw [hinputs, hlength] at hlength'
                obtain rfl : arity = arity' := hlength'
                obtain rfl : output' = output := houtput
                exact ⟨offset, tableOffset, offset', tableOffset', arity, output', rfl, rfl,
                  hinputs, htable⟩
            | _ => contradiction
        | _ => contradiction
      case isFalse => contradiction

/-- Gates with the same line read the same wires, in the same order, and drive the same wire. -/
theorem wires_eq (h : SameLine c c' n n') :
  n'.reads c'.luts = n.reads c.luts ∧ n'.output = n.output
  := by
  rcases h.eq_or_lut with ⟨rfl, hlut⟩ | ⟨_, _, _, _, _, _, rfl, rfl, hinputs, -⟩
  · cases n' with
    | lut => contradiction
    | _ => exact ⟨rfl, rfl⟩
  · exact ⟨hinputs, rfl⟩

/-- Gates with the same line are of the same kind. -/
theorem kind_eq (h : SameLine c c' n n') :
  n'.isConstant = n.isConstant ∧ n'.isLut = n.isLut ∧ n'.arityFits = n.arityFits
  := by
  rcases h.eq_or_lut with ⟨rfl, -⟩ | ⟨_, _, _, _, _, _, rfl, rfl, -⟩
  · exact ⟨rfl, rfl, rfl⟩
  · exact ⟨rfl, rfl, rfl⟩

/-- An index into a slice. -/
theorem getD_of_slice {table table' : List Bool} {i i' k j : Nat}
    (h : (table'.drop i').take k = (table.drop i).take k) (hj : j < k) :
  table'.getD (i' + j) false = table.getD (i + j) false
  := by
  have hget := congrArg (fun xs => xs[j]?) h
  simp only [List.getElem?_take_of_lt hj, List.getElem?_drop] at hget
  rw [List.getD_eq_getElem?_getD, List.getD_eq_getElem?_getD, hget]

/-- Gates with the same line have the same effect. -/
theorem exec_eq (h : SameLine c c' n n') (v : Nat → Bool) :
  exec v (n'.assignment c'.luts c'.lutTables) = exec v (n.assignment c.luts c.lutTables)
  := by
  have hlength := Parser.length_lutInputs h.lut
  rcases h.eq_or_lut with ⟨rfl, hlut⟩ | ⟨offset, _, _, _, arity, _, rfl, rfl, hinputs, htable⟩
  · rw [Node.assignment_of_not_lut hlut]
  · have hindex := EvalCircuit.indexIntoTable_lt (((c.luts.drop offset).take arity).map v)
    rw [List.length_map, show ((c.luts.drop offset).take arity).length = arity from hlength]
      at hindex
    simp only [exec, Node.assignment, Node.reads, Node.fn, Node.output, hinputs]
    rw [getD_of_slice htable hindex]

/-- Gates with the same line are written as the same words. -/
theorem lineWords_eq (h : SameLine c c' n n') :
  Emit.lineWords c' n' = Emit.lineWords c n
  := by
  rcases h.eq_or_lut with ⟨rfl, hlut⟩ | ⟨_, _, _, _, _, _, rfl, rfl, hinputs, htable⟩
  · cases n' with
    | lut => contradiction
    | _ => rfl
  · rw [Emit.lineWords, Emit.lineWords, hinputs, htable]

end SameLine

/-! ### Circuits -/

namespace Circuit

/-- The circuits have the same inputs and outputs, and their gates have the same lines. -/
structure SameLines (c c' : Circuit) : Prop where
  inputs : c'.inputs = c.inputs
  outputs : c'.outputs = c.outputs
  nodes : List.Forall₂ (SameLine c c') c.nodes c'.nodes

namespace SameLines

variable {c c' : Circuit}

/-- What gates with the same line have in common, the gates of the circuits have in common. -/
theorem map_eq (h : SameLines c c') {α : Type} (f f' : Node → α)
    (hf : ∀ n n', SameLine c c' n n' → f' n' = f n) :
  c'.nodes.map f' = c.nodes.map f
  := by
  have hnodes := h.nodes
  revert hnodes
  generalize c.nodes = ns
  generalize c'.nodes = ns'
  intro hnodes
  induction hnodes with
  | nil => rfl
  | cons hn _ ih => rw [List.map_cons, List.map_cons, hf _ _ hn, ih]

/-- The circuits are written as the same text. -/
theorem text_eq (h : SameLines c c') :
  Emit.text c' = Emit.text c
  := by
  have hwords := h.map_eq (Emit.lineWords c) (Emit.lineWords c')
    fun n n' hn => hn.lineWords_eq
  rw [Emit.text, Emit.text, Emit.allWords, Emit.allWords, Emit.inputWords, Emit.inputWords,
    Emit.outputWords, Emit.outputWords, hwords, h.inputs, h.outputs]

/-- The wires of the circuits have the same values. -/
theorem values_eq (h : SameLines c c') (inputs : List Bool) :
  c'.values inputs = c.values inputs
  := by
  have hrun : ∀ v, run v c'.program = run v c.program := by
    have hnodes := h.nodes
    rw [program, program]
    revert hnodes
    generalize c.nodes = ns
    generalize c'.nodes = ns'
    intro hnodes
    induction hnodes with
    | nil => exact fun v => rfl
    | cons hn _ ih =>
        intro v
        rw [List.map_cons, List.map_cons, run_cons, run_cons, hn.exec_eq, ih]
  rw [values, values, hrun, initial, initial, h.inputs]

theorem forall_arityFits (h : SameLines c c') (hc : ∀ n ∈ c.nodes, n.arityFits = true) :
  ∀ n ∈ c'.nodes, n.arityFits = true
  := by
  have hfits := h.map_eq Node.arityFits Node.arityFits fun n n' hn => hn.kind_eq.2.2
  intro n hn
  have hmem : n.arityFits ∈ c.nodes.map Node.arityFits := by
    rw [← hfits]
    apply List.mem_map_of_mem hn
  obtain ⟨m, hm, heq⟩ := List.mem_map.mp hmem
  rw [← heq]
  apply hc m hm

theorem forall_lutInRange (h : SameLines c c') :
  (∀ n ∈ c.nodes, n.LutInRange c.luts c.lutTables)
    ∧ ∀ n ∈ c'.nodes, n.LutInRange c'.luts c'.lutTables
  := by
  have hnodes := h.nodes
  revert hnodes
  generalize c.nodes = ns
  generalize c'.nodes = ns'
  intro hnodes
  induction hnodes with
  | nil => simp
  | cons hn _ ih =>
      rw [List.forall_mem_cons, List.forall_mem_cons]
      exact ⟨⟨hn.lut, ih.1⟩, hn.lut', ih.2⟩

/-- A circuit with the same lines computes the same bits, if its largest wire number is large
enough, but not too large. -/
theorem evaluateCircuit_eq_ok (h : SameLines c c')
    (hwires : ∀ w ∈ c'.mentioned, w ≤ c'.maxWireNumber) (htable : c'.maxWireNumber + 1 < 2 ^ 64)
    {inputs outputs : List Bool} (heval : evaluateCircuit c inputs = .ok outputs) :
  evaluateCircuit c' inputs = .ok outputs
  := by
  obtain ⟨hlength, heval, -, hvalues⟩ := SynCirc.evaluateCircuit_eq_ok.mp heval
  have hrange : c'.InRange := ⟨hwires, h.forall_lutInRange.2⟩
  have hfits := h.forall_arityFits fun n hn => (heval.nodes n hn).fits
  rw [evaluateCircuit_eq hrange htable (hlength.trans (congrArg List.length h.inputs.symm)),
    if_pos (List.all_eq_true.mpr hfits), h.outputs, h.values_eq, hvalues]

/-- A circuit with the same lines rejects the same numbers of bits. -/
theorem evaluateCircuit_eq_error (h : SameLines c c') (htable : c'.maxWireNumber + 1 < 2 ^ 64)
    {inputs : List Bool} {e : EvalCircuit.Error} (heval : evaluateCircuit c inputs = .error e) :
  evaluateCircuit c' inputs = .error e
  := by
  obtain ⟨-, hlength, he⟩ := SynCirc.evaluateCircuit_eq_error.mp heval
  apply SynCirc.evaluateCircuit_eq_error.mpr ⟨htable, h.inputs ▸ hlength, he⟩

/-- A circuit with the same lines has the same evaluation, if that of the first circuit does not
stop at a safety check and the largest wire number of the second one is large enough, but not too
large. -/
theorem evaluateCircuit_eq (h : SameLines c c')
    (hwires : ∀ w ∈ c'.mentioned, w ≤ c'.maxWireNumber) (htable : c'.maxWireNumber + 1 < 2 ^ 64)
    {inputs : List Bool} (heval : ∀ t, evaluateCircuit c inputs ≠ .panic t) :
  evaluateCircuit c' inputs = evaluateCircuit c inputs
  := by
  cases hresult : evaluateCircuit c inputs with
  | ok outputs => apply h.evaluateCircuit_eq_ok hwires htable hresult
  | error e => apply h.evaluateCircuit_eq_error htable hresult
  | panic t => apply absurd hresult (heval t)

end SameLines

/-- The lines of gates leave the inputs and outputs as they are. -/
theorem foldl_absorb_nodeLine (c : Circuit) (ns : List Node) (parser : Circuit) :
  ((ns.map (Parser.nodeLine c)).foldl Parser.absorb parser).inputs = parser.inputs
    ∧ ((ns.map (Parser.nodeLine c)).foldl Parser.absorb parser).outputs = parser.outputs
  := by
  induction ns generalizing parser with
  | nil => exact ⟨rfl, rfl⟩
  | cons n ns ih =>
      obtain ⟨hinputs, houtputs⟩ := ih (Parser.absorb parser (Parser.nodeLine c n))
      rw [List.map_cons, List.foldl_cons, hinputs, houtputs, Parser.nodeLine]
      split
      · exact ⟨rfl, rfl⟩
      · exact ⟨rfl, rfl⟩

/-- What is put together from the lines of a circuit has the same lines. -/
theorem sameLines_allLines {c : Circuit} (hluts : ∀ n ∈ c.nodes, n.LutInRange c.luts c.lutTables) :
  SameLines c ((Parser.allLines c).foldl Parser.absorb Parser.empty)
  := by
  have hlines := Parser.hasLines_allLines hluts
  have hports := foldl_absorb_nodeLine c c.nodes (Parser.absorb Parser.empty (.inputs c.inputs))
  refine ⟨?_, ?_, ?_⟩
  · rw [Parser.allLines, List.foldl_append, List.foldl_append,
      Parser.foldl_absorb_ports (Parser.absorb_outputs_nil _),
      Parser.foldl_absorb_ports (Parser.absorb_inputs_nil _)]
    apply hports.1
  · rw [Parser.allLines, List.foldl_append, List.foldl_append,
      Parser.foldl_absorb_ports (Parser.absorb_outputs_nil _),
      Parser.foldl_absorb_ports (Parser.absorb_inputs_nil _)]
    apply (congrArg (· ++ c.outputs) hports.2).trans
    rfl
  · have heq := hlines.lines.symm
    rw [← List.forall₂_eq_eq_eq, List.forall₂_map_left_iff, List.forall₂_map_right_iff] at heq
    have hmem := (List.forall₂_and_left _ _).mpr ⟨hluts, heq⟩
    have hmem' := (List.forall₂_and_left _ _).mpr ⟨hlines.luts, hmem.flip⟩
    apply hmem'.flip.imp
    rintro n n' ⟨hn', hn, hline⟩
    exact ⟨hn, hn', hline.symm⟩

theorem wires_nodeLine (c : Circuit) (n : Node) :
  (Parser.nodeLine c n).wires = n.wires c.luts
  := by
  cases n <;> rfl

/-- The lines of a circuit mention the wires of the circuit. -/
theorem mem_mentioned_of_allLines {c : Circuit} {w : Nat}
    (hw : w ∈ (Parser.allLines c).flatMap Parser.Line.wires) :
  w ∈ c.mentioned
  := by
  obtain ⟨l, hl, hw⟩ := List.mem_flatMap.mp hw
  rw [Parser.allLines, List.mem_append, List.mem_append] at hl
  rcases hl with (hl | hl) | hl
  · split at hl
    case isTrue =>
      obtain rfl := List.mem_singleton.mp hl
      apply mem_mentioned_of_input hw
    case isFalse => cases hl
  · obtain ⟨n, hn, rfl⟩ := List.mem_map.mp hl
    rw [wires_nodeLine] at hw
    apply mem_mentioned_of_node hn hw
  · split at hl
    case isTrue =>
      obtain rfl := List.mem_singleton.mp hl
      apply mem_mentioned_of_output hw
    case isFalse => cases hl

/-- What is read back from the text of a circuit has the same lines, and its largest wire number
bounds the wires that are mentioned and is at most every bound of them. -/
theorem exists_parseCircuit_text {c : Circuit} (hwires : c.WiresFit)
    (hluts : ∀ n ∈ c.nodes, n.LutInRange c.luts c.lutTables)
    (harity : ∀ n ∈ c.nodes, n.arityFits = true)
    (hlen : ∀ line ∈ lines (Emit.text c), line.length < Parser.maxLineLen) :
  ∃ c', parseCircuit (Emit.text c) = .ok c' ∧ SameLines c c'
    ∧ (∀ w ∈ c'.mentioned, w ≤ c'.maxWireNumber)
    ∧ ∀ bound, (∀ w ∈ c.mentioned, w ≤ bound) → c'.maxWireNumber ≤ bound
  := by
  have hparse := Parser.parseCircuit_text_eq hwires hluts harity hlen
  refine ⟨_, hparse, sameLines_allLines hluts,
    fun w hw => (Parser.parseCircuit_eq_ok hparse).1.mentioned hw, ?_⟩
  intro bound hbound
  rw [Parser.maxWireNumber_foldl_absorb]
  apply Nat.le_of_lt_succ
  apply foldl_max_lt (Nat.succ_pos bound)
  intro w hw
  apply Nat.lt_succ_of_le (hbound w (mem_mentioned_of_allLines hw))

end Circuit

/-! ### The Bristol format -/

namespace BristolParser

open EmitBristol

variable {c : Circuit}

/-- A line of words that fits in the buffer. -/
theorem readLine_of_isWord {ts : List (List UInt8)} (hts : ∀ t ∈ ts, IsWord t)
    (hlen : (words ts).length < bufLen) :
  readLine (words ts) = .ok ts
  := by
  rw [readLine, if_neg (Nat.not_le_of_lt hlen), tokenize_words hts]

/-- The text of a circuit in the shape of the format is read back if its lines fit in the buffer,
however many gates it has. -/
theorem parseBristol_text_of_lines (hshape : c.BristolShape)
    (hwires : ∀ n ∈ c.nodes, ∀ w ∈ n.wires c.luts, w ≤ c.maxWireNumber)
    (hmax : c.maxWireNumber + 1 < 2 ^ 64) (hinputs : c.inputs.length < 2 ^ 64)
    (hlen : ∀ line ∈ lines (EmitBristol.text c), line.length < bufLen) :
  parseBristol (EmitBristol.text c) = .ok { c with luts := [], lutTables := [] }
  := by
  have hfit : ∀ n ∈ c.nodes, ∀ w ∈ n.wires c.luts, w < 2 ^ 64 := by
    intro n hn w hw
    have hle := hwires n hn w hw
    omega
  have htop : (c.nodes.flatMap (Node.wires c.luts)).foldl max 0 = c.maxWireNumber := by
    apply foldl_max_eq (Nat.zero_le _)
    · intro w hw
      obtain ⟨n, hn, hw⟩ := List.mem_flatMap.mp hw
      apply hwires n hn w hw
    · right
      apply List.mem_flatMap.mpr hshape.top
  have hlines := lines_text hshape.gates hfit
  rw [hlines] at hlen
  have houtputs : c.outputs.length < 2 ^ 64 := Nat.lt_of_le_of_lt hshape.outputs_le hmax
  have hpair : ∀ a b : Nat, [formatInt a, formatInt b] ∈ headerWords c →
      readLine (words [formatInt a, formatInt b]) = .ok [formatInt a, formatInt b] := by
    intro a b hmem
    apply readLine_of_isWord
    · rw [List.forall_mem_cons, List.forall_mem_singleton]
      exact ⟨isWord_formatInt a, isWord_formatInt b⟩
    · apply hlen
      apply List.mem_map_of_mem (List.mem_append_left _ hmem)
  rw [parseBristol, hlines, allWords]
  simp only [parseHeader, headerWords, List.map_cons, List.cons_append, List.nil_append,
    nextLine, hpair _ _ (List.mem_cons_self ..),
    hpair _ _ (List.mem_cons_of_mem _ (List.mem_cons_self ..)),
    Outcome.ok_bind, parseWireCount, parsePortCounts, next, parseIndex_formatInt hmax,
    parseIndex_formatInt hinputs, parseIndex_formatInt houtputs, Outcome.pure_eq,
    sub_of hshape.outputs_le, List.foldlM_cons, parseLine_nil]
  rw [foldlM_lineWords hshape.gates hfit, htop, ← hshape.inputs, ← hshape.outputs]
  rfl

end BristolParser

namespace EmitBristol

/-- A circuit that is written has neither constants nor lookup tables, and its number of wires fits
in a machine word. -/
theorem text_of_writeCircuit {c : Circuit} {text' : List UInt8}
    (h : writeCircuit c none = .ok text') :
  text' = text c ∧ c.maxWireNumber + 1 < 2 ^ 64
    ∧ ∀ n ∈ c.nodes, n.isConstant = false ∧ n.isLut = false
  := by
  have hwrite := h
  rw [writeCircuit] at h
  obtain ⟨header, hheader, h⟩ := Outcome.bind_eq_ok.mp h
  obtain ⟨nodes, hnodes, -⟩ := Outcome.bind_eq_ok.mp h
  have hmax : c.maxWireNumber + 1 < 2 ^ 64 := by
    by_contra hmax
    rw [emitHeader, check_not hmax] at hheader
    contradiction
  have hgates : ∀ n ∈ c.nodes, n.isConstant = false ∧ n.isLut = false := by
    intro n hn
    obtain ⟨i, hi⟩ := List.mem_iff_getElem?.mp hn
    have hzip : (n, i) ∈ c.nodes.zipIdx := List.mem_zipIdx_iff_getElem?.mpr hi
    obtain ⟨line, -, hline⟩ :=
      exists_mem_of_forall₂ (Outcome.forall₂_of_mapM_eq_ok hnodes).flip hzip
    cases n with
    | zero output => contradiction
    | one output => contradiction
    | lut offset tableOffset arity output => contradiction
    | _ => exact ⟨rfl, rfl⟩
  rw [writeCircuit_eq hmax hgates, Outcome.ok.injEq] at hwrite
  exact ⟨hwrite.symm, hmax, hgates⟩

end EmitBristol

end SynCirc
