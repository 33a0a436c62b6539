import SynCirc.Emit
import SynCirc.ParserLines
import Mathlib.Data.List.Perm.Basic

/-!
# The SynCirc text format: round trip

A circuit whose lookup tables are packed, in the order of the gates, is read back from its
text (`parseCircuit_writeCircuit`).  Every line of the text is a line of words (`lineWords`),
and parsing the line of a gate adds the gate with its slices.
-/

namespace SynCirc

open Zig

namespace Node

/-- The number of input wires a gate has in `luts`. -/
def lutLength : Node → Nat
  | .lut _ _ arity _ => arity
  | _ => 0

/-- The number of bits a gate has in `lutTables`. -/
def tableLength : Node → Nat
  | .lut _ _ arity _ => 2 ^ arity
  | _ => 0

/-- The slices of a lookup table begin at the given positions. -/
def LutAt (i j : Nat) : Node → Prop
  | .lut offset tableOffset _ _ => offset = i ∧ tableOffset = j
  | _ => True

end Node

namespace Circuit

variable (c : Circuit)

/-- The slices of the lookup tables follow each other in the order of the gates, from the
given positions to the ends of `luts` and `lutTables`. -/
def PackedFrom : Nat → Nat → List Node → Prop
  | i, j, [] => i = c.luts.length ∧ j = c.lutTables.length
  | i, j, n :: ns => n.LutAt i j ∧ PackedFrom (i + n.lutLength) (j + n.tableLength) ns

/-- The slices of the lookup tables follow each other in the order of the gates and cover
`luts` and `lutTables`. -/
def Packed : Prop := c.PackedFrom 0 0 c.nodes

variable {c}

theorem PackedFrom.le {i j : Nat} {ns : List Node} (h : c.PackedFrom i j ns) :
  i ≤ c.luts.length ∧ j ≤ c.lutTables.length
  := by
  induction ns generalizing i j with
  | nil => exact ⟨Nat.le_of_eq h.1, Nat.le_of_eq h.2⟩
  | cons n ns ih =>
      have hle := ih h.2
      omega

/-- A lookup table that begins where the packing is lies inside `luts` and `lutTables`. -/
theorem PackedFrom.lutInRange {i j : Nat} {n : Node} {ns : List Node}
    (h : c.PackedFrom i j (n :: ns)) :
  n.LutInRange c.luts c.lutTables
  := by
  cases n with
  | lut offset tableOffset arity output =>
      obtain ⟨⟨rfl, rfl⟩, hrest⟩ := h
      apply hrest.le
  | _ => trivial

theorem PackedFrom.forall_lutInRange {i j : Nat} {ns : List Node} (h : c.PackedFrom i j ns) :
  ∀ n ∈ ns, n.LutInRange c.luts c.lutTables
  := by
  induction ns generalizing i j with
  | nil => simp
  | cons n ns ih =>
      rw [List.forall_mem_cons]
      exact ⟨h.lutInRange, ih h.2⟩

end Circuit

/-! ### The lines of the text -/

namespace Emit

variable (c : Circuit)

/-- The words on the line of a gate. -/
def lineWords : Node → List (List UInt8)
  | .zero output => [bytes "0", formatInt output]
  | .one output => [bytes "1", formatInt output]
  | .inv input output => [bytes "I", formatInt input, formatInt output]
  | .and inputA inputB output =>
      [bytes "A", formatInt inputA, formatInt inputB, formatInt output]
  | .xor inputA inputB output =>
      [bytes "E", formatInt inputA, formatInt inputB, formatInt output]
  | .and3 inputA inputB inputC output =>
      [bytes "3", formatInt inputA, formatInt inputB, formatInt inputC, formatInt output]
  | .and4 inputA inputB inputC inputD output =>
      [bytes "4", formatInt inputA, formatInt inputB, formatInt inputC, formatInt inputD,
        formatInt output]
  | .lut offset tableOffset arity output =>
      bytes "L" :: (((c.luts.drop offset).take arity).map formatInt
        ++ [formatInt output, formatTable ((c.lutTables.drop tableOffset).take (2 ^ arity))])

/-- The words on the lines of the inputs, if there are any. -/
def inputWords : List (List (List UInt8)) :=
  if 0 < c.inputs.length then [bytes "C" :: c.inputs.map formatInt] else []

/-- The words on the lines of the outputs, if there are any. -/
def outputWords : List (List (List UInt8)) :=
  if 0 < c.outputs.length then [bytes "O" :: c.outputs.map formatInt] else []

/-- The words on all lines. -/
def allWords : List (List (List UInt8)) :=
  inputWords c ++ c.nodes.map (lineWords c) ++ outputWords c

/-- The text of a circuit. -/
def text : List UInt8 := ((allWords c).map words).flatMap (fun l => l ++ [newline])

variable {c}

/-- The line of a gate in range is a line of words. -/
theorem emitNode_eq {n : Node} (hlut : n.LutInRange c.luts c.lutTables)
    (harity : n.arityFits = true) :
  emitNode c n = .ok (printLine (lineWords c n))
  := by
  cases n with
  | lut offset tableOffset arity output =>
      have harity' : arity < 64 := of_decide_eq_true harity
      rw [emitNode, emitLut, slice_of hlut.1, Outcome.ok_bind, check_of harity', Outcome.ok_bind,
        Nat.one_shiftLeft, slice_of hlut.2, Outcome.ok_bind, Outcome.pure_eq]
      simp only [printLine, lineWords, words, List.flatMap_append, List.flatMap_map,
        List.flatMap_cons, List.flatMap_nil, List.append_nil, List.append_assoc, List.cons_append,
        List.nil_append]
  | _ => rfl

/-- Without dead gates, the text consists of the lines of the inputs, the gates and the
outputs. -/
theorem writeCircuit_eq (hluts : ∀ n ∈ c.nodes, n.LutInRange c.luts c.lutTables)
    (harity : ∀ n ∈ c.nodes, n.arityFits = true) :
  writeCircuit c none = .ok (text c)
  := by
  have hnodes : ∀ ns : List Node, (∀ n ∈ ns, n ∈ c.nodes) → ∀ k : Nat,
      (ns.zipIdx k).mapM (emitNodeUnlessDead c none)
        = .ok (ns.map (fun n => printLine (lineWords c n))) := by
    intro ns
    induction ns with
    | nil =>
        intro _ k
        rfl
    | cons n ns ih =>
        intro hmem k
        rw [List.forall_mem_cons] at hmem
        have hn : emitNodeUnlessDead c none (n, k) = .ok (printLine (lineWords c n)) :=
          emitNode_eq (hluts n hmem.1) (harity n hmem.1)
        rw [List.zipIdx_cons, List.mapM_cons, hn, Outcome.ok_bind, ih hmem.2]
        rfl
  have hinputs : emitInputs c = ((inputWords c).map words).flatMap (fun l => l ++ [newline]) := by
    rw [emitInputs, inputWords]
    split
    · simp [printLine]
    · rfl
  have houtputs : emitOutputs c
      = ((outputWords c).map words).flatMap (fun l => l ++ [newline]) := by
    rw [emitOutputs, outputWords]
    split
    · simp [printLine]
    · rfl
  rw [writeCircuit, hnodes c.nodes (fun _ hn => hn), Outcome.ok_bind, Outcome.pure_eq, text,
    allWords, List.map_append, List.map_append, List.flatMap_append, List.flatMap_append, ← hinputs,
    ← houtputs, List.map_map, List.flatMap_map, ← List.flatMap_def]
  rfl

/-! ### Words -/

theorem isWord_bytes {s : String} (h : bytes s ≠ [] ∧ blank ∉ bytes s ∧ newline ∉ bytes s) :
  IsWord (bytes s)
  := ⟨h.1, h.2.1, h.2.2⟩

theorem formatTable_cons (bit : Bool) (table : List Bool) :
  formatTable (bit :: table) = digitByte bit.toNat :: formatTable table
  := by
  rw [formatTable, List.flatMap_cons, formatInt_of_lt (by cases bit <;> decide)]
  rfl

/-- A truth table is printed as a word. -/
theorem isWord_formatTable {table : List Bool} (h : table ≠ []) :
  IsWord (formatTable table)
  := by
  have hmem : ∀ b ∈ formatTable table, b ≠ blank ∧ b ≠ newline := by
    intro b hb
    obtain ⟨bit, -, hb⟩ := List.mem_flatMap.mp hb
    obtain ⟨d, hd, rfl⟩ := mem_formatInt hb
    exact ⟨(digitByte_ne hd).1, (digitByte_ne hd).2.1⟩
  refine ⟨?_, fun hb => (hmem _ hb).1 rfl, fun hb => (hmem _ hb).2 rfl⟩
  cases table with
  | nil => contradiction
  | cons bit table =>
      rw [formatTable_cons]
      apply List.cons_ne_nil

theorem isWord_map_formatInt {ws : List Nat} {t : List UInt8} (ht : t ∈ ws.map formatInt) :
  IsWord t
  := by
  obtain ⟨w, -, rfl⟩ := List.mem_map.mp ht
  apply isWord_formatInt

/-- The words on the line of a gate in range. -/
theorem isWord_lineWords {n : Node} (hlut : n.LutInRange c.luts c.lutTables)
    {t : List UInt8} (ht : t ∈ lineWords c n) :
  IsWord t
  := by
  cases n with
  | lut offset tableOffset arity output =>
      rw [lineWords, List.mem_cons, List.mem_append, List.mem_cons, List.mem_singleton] at ht
      rcases ht with rfl | ht | rfl | rfl
      · apply isWord_bytes (by decide)
      · apply isWord_map_formatInt ht
      · apply isWord_formatInt
      · apply isWord_formatTable
        have hpos := Nat.two_pow_pos arity
        have hlen := hlut.2
        intro hnil
        have hlength := congrArg List.length hnil
        rw [List.length_take, List.length_drop, List.length_nil] at hlength
        omega
  | _ =>
      revert t
      simp only [lineWords, List.forall_mem_cons, isWord_formatInt, true_and]
      refine ⟨isWord_bytes (by decide), ?_⟩
      simp

theorem isWord_allWords (hluts : ∀ n ∈ c.nodes, n.LutInRange c.luts c.lutTables)
    {ts : List (List UInt8)} (hts : ts ∈ allWords c) :
  ∀ t ∈ ts, IsWord t
  := by
  rw [allWords, List.mem_append, List.mem_append] at hts
  rcases hts with (hts | hts) | hts
  · rw [inputWords] at hts
    split at hts
    · rw [List.mem_singleton] at hts
      rw [hts, List.forall_mem_cons]
      use isWord_bytes (by decide)
      apply fun t => isWord_map_formatInt
    · contradiction
  · obtain ⟨n, hn, rfl⟩ := List.mem_map.mp hts
    intro t ht
    apply isWord_lineWords (hluts n hn) ht
  · rw [outputWords] at hts
    split at hts
    · rw [List.mem_singleton] at hts
      rw [hts, List.forall_mem_cons]
      use isWord_bytes (by decide)
      apply fun t => isWord_map_formatInt
    · contradiction

end Emit

/-! ### Parsing the lines -/

namespace Parser

open Emit

variable {c parser : Circuit}

/-- The input wires of a gate in `luts`. -/
def lutInputs (c : Circuit) : Node → List Nat
  | .lut offset _ arity _ => (c.luts.drop offset).take arity
  | _ => []

/-- The truth table of a gate in `lutTables`. -/
def lutTable (c : Circuit) : Node → List Bool
  | .lut _ tableOffset arity _ => (c.lutTables.drop tableOffset).take (2 ^ arity)
  | _ => []

/-- What the line of a gate says. -/
def nodeLine (c : Circuit) (n : Node) : Line :=
  if n.isLut then .lut (lutInputs c n) n.output (lutTable c n) else .gate n

/-- What the lines of a text say. -/
def allLines (c : Circuit) : List Line :=
  (if 0 < c.inputs.length then [.inputs c.inputs] else []) ++ c.nodes.map (nodeLine c)
    ++ (if 0 < c.outputs.length then [.outputs c.outputs] else [])

theorem parseWire_formatInt {w : Nat} (hw : w < 2 ^ 64) :
  parseWire (formatInt w) = .ok w
  := by
  rw [parseWire, parseInt_formatInt (by decide) hw]
  rfl

theorem isWire_formatInt {ws : List Nat} (hws : ∀ w ∈ ws, w < 2 ^ 64) :
  List.Forall₂ IsWire (ws.map formatInt) ws
  := by
  rw [List.forall₂_map_left_iff, List.forall₂_same]
  intro w hw
  apply parseWire_formatInt (hws w hw)

theorem isBit_formatTable (table : List Bool) :
  List.Forall₂ IsBit (formatTable table) table
  := by
  induction table with
  | nil => apply List.Forall₂.nil
  | cons bit table ih =>
      rw [formatTable_cons]
      apply List.Forall₂.cons _ ih
      cases bit with
      | false => rfl
      | true => rfl

theorem length_lutInputs {n : Node} (hlut : n.LutInRange c.luts c.lutTables) :
  (lutInputs c n).length = n.lutLength
  := by
  cases n with
  | lut offset tableOffset arity output =>
      have hrange := hlut.1
      rw [lutInputs, List.length_take, List.length_drop, Node.lutLength]
      omega
  | _ => rfl

theorem length_lutTable {n : Node} (hlut : n.LutInRange c.luts c.lutTables) :
  (lutTable c n).length = n.tableLength
  := by
  cases n with
  | lut offset tableOffset arity output =>
      have hrange := hlut.2
      rw [lutTable, List.length_take, List.length_drop, Node.tableLength]
      omega
  | _ => rfl

/-- The line of a gate that is no lookup table. -/
theorem denotes_gate (lineType : List UInt8) {count : Nat} {make : List Nat → Node}
    (hgate : gateOf lineType = some (count, make)) {ws : List Nat} (hws : ∀ w ∈ ws, w < 2 ^ 64)
    (hcount : ws.length = count) :
  Denotes (lineType :: ws.map formatInt) (.gate (make ws))
  := by
  have hdenotes := Denotes.gate hgate (isWire_formatInt hws) hcount []
  rw [List.append_nil] at hdenotes
  apply hdenotes

/-- The line of a gate in range says the gate. -/
theorem denotes_lineWords {n : Node} (hlut : n.LutInRange c.luts c.lutTables)
    (harity : n.arityFits = true) (hwires : ∀ w ∈ n.wires c.luts, w < 2 ^ 64) :
  Denotes (lineWords c n) (nodeLine c n)
  := by
  cases n with
  | lut offset tableOffset arity output =>
      have hfits : arity < 64 := of_decide_eq_true harity
      have hlength := length_lutInputs hlut
      apply Denotes.lut
      · apply isWire_formatInt
        intro w hw
        apply hwires w (List.mem_append_left _ hw)
      · rw [hlength, Node.lutLength]
        omega
      · apply parseWire_formatInt (hwires output (List.mem_append_right _ List.mem_cons_self))
      · apply isBit_formatTable
  | zero output => apply denotes_gate (bytes "0") rfl hwires rfl
  | one output => apply denotes_gate (bytes "1") rfl hwires rfl
  | inv input output => apply denotes_gate (bytes "I") rfl hwires rfl
  | and inputA inputB output => apply denotes_gate (bytes "A") rfl hwires rfl
  | xor inputA inputB output => apply denotes_gate (bytes "E") rfl hwires rfl
  | and3 inputA inputB inputC output => apply denotes_gate (bytes "3") rfl hwires rfl
  | and4 inputA inputB inputC inputD output => apply denotes_gate (bytes "4") rfl hwires rfl

/-- A line of words is read by what its words say. -/
theorem readLine_words {ts : List (List UInt8)} {l : Line} (hdenotes : Denotes ts l)
    (hwords : ∀ t ∈ ts, IsWord t) (hlen : (words ts).length < maxLineLen) :
  readLine (words ts) = .ok l
  := by
  rw [readLine_eq_ok, tokenize_words hwords]
  exact ⟨hlen, hdenotes⟩

/-- The lines of a text say the inputs, the gates and the outputs. -/
theorem denotes_allWords (hwires : c.WiresFit)
    (hluts : ∀ n ∈ c.nodes, n.LutInRange c.luts c.lutTables)
    (harity : ∀ n ∈ c.nodes, n.arityFits = true) :
  List.Forall₂ Denotes (allWords c) (allLines c)
  := by
  have hports : ∀ {port : List Nat → Line} {mark : List UInt8} {ws : List Nat},
      Denotes (mark :: ws.map formatInt) (port ws) →
      List.Forall₂ Denotes (if 0 < ws.length then [mark :: ws.map formatInt] else [])
        (if 0 < ws.length then [port ws] else []) := by
    intro port mark ws hdenotes
    split
    · apply List.Forall₂.cons hdenotes .nil
    · apply List.Forall₂.nil
  apply List.rel_append
  · apply List.rel_append
    · apply hports
      apply Denotes.inputs (isWire_formatInt _)
      intro w hw
      apply hwires w (Circuit.mem_mentioned_of_input hw)
    · rw [List.forall₂_map_left_iff, List.forall₂_map_right_iff, List.forall₂_same]
      intro n hn
      apply denotes_lineWords (hluts n hn) (harity n hn)
      intro w hw
      apply hwires w (Circuit.mem_mentioned_of_node hn hw)
  · apply hports
    apply Denotes.outputs (isWire_formatInt _)
    intro w hw
    apply hwires w (Circuit.mem_mentioned_of_output hw)

/-- The lines of the text of a circuit. -/
theorem lines_text (hluts : ∀ n ∈ c.nodes, n.LutInRange c.luts c.lutTables) :
  lines (text c) = (allWords c).map words
  := by
  apply lines_flatMap
  intro l hl
  obtain ⟨ts, hts, rfl⟩ := List.mem_map.mp hl
  apply newline_notMem_words (isWord_allWords hluts hts)

/-- The text of a circuit is read line by line. -/
theorem parseCircuit_text_eq (hwires : c.WiresFit)
    (hluts : ∀ n ∈ c.nodes, n.LutInRange c.luts c.lutTables)
    (harity : ∀ n ∈ c.nodes, n.arityFits = true)
    (hlen : ∀ line ∈ lines (text c), line.length < maxLineLen) :
  parseCircuit (text c) = .ok ((allLines c).foldl absorb Parser.empty)
  := by
  rw [lines_text hluts] at hlen
  have hread : ((allWords c).map words).mapM readLine = .ok (allLines c) := by
    rw [Outcome.mapM_eq_ok_iff, List.forall₂_map_left_iff]
    have hdenotes := (List.forall₂_and_left (allWords c) (allLines c)).mpr
      ⟨fun ts hts => hts, denotes_allWords hwires hluts harity⟩
    apply hdenotes.imp
    rintro ts l ⟨hts, hdenotes⟩
    apply readLine_words hdenotes (isWord_allWords hluts hts)
    apply hlen _ (List.mem_map_of_mem hts)
  rw [parseCircuit_eq, lines_text hluts, hread]
  rfl

/-! ### Putting the circuit together -/

/-- The packing moves on by the slices of a gate. -/
theorem take_luts {i j : Nat} {n : Node} (hat : n.LutAt i j) :
  c.luts.take (i + n.lutLength) = c.luts.take i ++ lutInputs c n
  := by
  cases n with
  | lut offset tableOffset arity output =>
      rw [hat.1] at *
      apply List.take_add
  | _ => simp [lutInputs, Node.lutLength]

theorem take_lutTables {i j : Nat} {n : Node} (hat : n.LutAt i j) :
  c.lutTables.take (j + n.tableLength) = c.lutTables.take j ++ lutTable c n
  := by
  cases n with
  | lut offset tableOffset arity output =>
      rw [hat.2] at *
      apply List.take_add
  | _ => simp [lutTable, Node.tableLength]

/-- The line of a gate adds the gate with its slices. -/
theorem absorb_nodeLine {n : Node} (hlut : n.LutInRange c.luts c.lutTables)
    (hat : n.LutAt parser.luts.length parser.lutTables.length) :
  absorb parser (nodeLine c n)
    = addNode (adjustMaxWireNumber
        { parser with
          luts := parser.luts ++ lutInputs c n
          lutTables := parser.lutTables ++ lutTable c n } (n.wires c.luts)) n
  := by
  cases n with
  | lut offset tableOffset arity output =>
      obtain ⟨rfl, rfl⟩ := hat
      have hlength := length_lutInputs hlut
      simp only [nodeLine, Node.isLut, if_true, absorb, hlength]
      rfl
  | _ => simp [nodeLine, Node.isLut, absorb, lutInputs, lutTable, Node.wires, Node.reads]

/-- The lines of the gates add the gates, with their slices in order. -/
theorem foldl_absorb_nodes (parser : Circuit) {ns : List Node} {i j : Nat}
    (hpacked : c.PackedFrom i j ns) (hluts : parser.luts = c.luts.take i)
    (htables : parser.lutTables = c.lutTables.take j) :
  (ns.map (nodeLine c)).foldl absorb parser
    = { adjustMaxWireNumber parser (ns.flatMap (Node.wires c.luts)) with
        nodes := parser.nodes ++ ns, luts := c.luts, lutTables := c.lutTables }
  := by
  induction ns generalizing parser i j with
  | nil =>
      rw [hpacked.1, List.take_length] at hluts
      rw [hpacked.2, List.take_length] at htables
      simp [adjustMaxWireNumber, ← hluts, ← htables]
  | cons n ns ih =>
      have hle := hpacked.le
      have hlenluts : parser.luts.length = i := by
        rw [hluts, List.length_take]
        omega
      have hlentables : parser.lutTables.length = j := by
        rw [htables, List.length_take]
        omega
      have hat : n.LutAt parser.luts.length parser.lutTables.length := by
        rw [hlenluts, hlentables]
        apply hpacked.1
      rw [List.map_cons, List.foldl_cons, absorb_nodeLine hpacked.lutInRange hat,
        ih _ hpacked.2]
      · simp [adjustMaxWireNumber, addNode]
      · rw [take_luts hpacked.1, ← hluts]
        rfl
      · rw [take_lutTables hpacked.1, ← htables]
        rfl

theorem absorb_inputs_nil (parser : Circuit) :
  absorb parser (.inputs []) = parser
  := by
  simp [absorb, adjustMaxWireNumber]

theorem absorb_outputs_nil (parser : Circuit) :
  absorb parser (.outputs []) = parser
  := by
  simp [absorb, adjustMaxWireNumber]

/-- A line that would say nothing is left out. -/
theorem foldl_absorb_ports {port : List Nat → Line} (hnil : absorb parser (port []) = parser)
    (ws : List Nat) :
  (if 0 < ws.length then [port ws] else []).foldl absorb parser = absorb parser (port ws)
  := by
  cases ws with
  | nil => apply hnil.symm
  | cons w ws => rfl

/-- A circuit with packed lookup tables is put together again from its lines. -/
theorem foldl_absorb_allLines (hpacked : c.Packed) :
  (allLines c).foldl absorb Parser.empty = { c with maxWireNumber := c.maxMentioned }
  := by
  have hmax : c.outputs.foldl max ((c.nodes.flatMap (Node.wires c.luts)).foldl max
      (c.inputs.foldl max 0)) = c.maxMentioned := by
    rw [← List.foldl_append, ← List.foldl_append, Circuit.maxMentioned, Circuit.mentioned]
    apply List.Perm.foldl_eq
    rw [List.append_assoc c.inputs c.outputs]
    apply List.Perm.append_left
    apply List.perm_append_comm
  rw [allLines, List.foldl_append, List.foldl_append, foldl_absorb_ports (absorb_outputs_nil _),
    foldl_absorb_ports (absorb_inputs_nil _), foldl_absorb_nodes _ hpacked rfl rfl]
  simp only [absorb, adjustMaxWireNumber, Parser.empty, List.nil_append]
  rw [hmax]

/-! ### Gates without packing -/

theorem slice_append {α : Type} {xs : List α} {i k : Nat} (h : i + k ≤ xs.length) (ys : List α) :
  ((xs ++ ys).drop i).take k = (xs.drop i).take k
  := by
  rw [List.drop_append_of_le_length (by omega),
    List.take_append_of_le_length (by rw [List.length_drop]; omega)]

/-- The line of a gate in range stays the same when `luts` and `lutTables` grow. -/
theorem nodeLine_of_extends {c' : Circuit} {n : Node} (hlut : n.LutInRange c.luts c.lutTables)
    (hluts : c.luts <+: c'.luts) (htables : c.lutTables <+: c'.lutTables) :
  n.LutInRange c'.luts c'.lutTables ∧ nodeLine c' n = nodeLine c n
  := by
  obtain ⟨moreLuts, hluts⟩ := hluts
  obtain ⟨moreTables, htables⟩ := htables
  cases n with
  | lut offset tableOffset arity output =>
      obtain ⟨hrange, htable⟩ := hlut
      constructor
      · simp only [Node.LutInRange, ← hluts, ← htables, List.length_append]
        omega
      · simp only [nodeLine, lutInputs, lutTable, ← hluts, ← htables, slice_append hrange,
          slice_append htable]
  | _ => exact ⟨trivial, rfl⟩

/-- The gates of a circuit are in range and have the given lines. -/
structure HasLines (c : Circuit) (ls : List Line) : Prop where
  luts : ∀ n ∈ c.nodes, n.LutInRange c.luts c.lutTables
  lines : c.nodes.map (nodeLine c) = ls

/-- A gate with its slices is added. -/
theorem HasLines.append {ls : List Line} (h : HasLines parser ls) {r : Circuit} {n : Node}
    {l : Line} (hluts : parser.luts <+: r.luts) (htables : parser.lutTables <+: r.lutTables)
    (hnodes : r.nodes = parser.nodes ++ [n]) (hlut : n.LutInRange r.luts r.lutTables)
    (hline : nodeLine r n = l) :
  HasLines r (ls ++ [l])
  := by
  constructor
  · rw [hnodes, List.forall_mem_append, List.forall_mem_singleton]
    refine ⟨?_, hlut⟩
    intro m hm
    apply (nodeLine_of_extends (h.luts m hm) hluts htables).1
  · rw [hnodes, List.map_append, List.map_singleton, ← h.lines, hline]
    congr 1
    apply List.map_congr_left
    intro m hm
    apply (nodeLine_of_extends (h.luts m hm) hluts htables).2

/-- The line of a lookup table at the ends of `luts` and `lutTables`. -/
theorem nodeLine_of_append {luts ws : List Nat} {lutTables table : List Bool}
    (hluts : c.luts = luts ++ ws) (htables : c.lutTables = lutTables ++ table)
    (htable : table.length = 2 ^ ws.length) (output : Nat) :
  (Node.lut luts.length lutTables.length ws.length output).LutInRange c.luts c.lutTables
    ∧ nodeLine c (.lut luts.length lutTables.length ws.length output) = .lut ws output table
  := by
  constructor
  · rw [Node.LutInRange, hluts, htables, List.length_append, List.length_append, htable]
    omega
  · have hws : (c.luts.drop luts.length).take ws.length = ws := by
      rw [hluts, List.drop_left, List.take_length]
    have hbits : (c.lutTables.drop lutTables.length).take (2 ^ ws.length) = table := by
      rw [htables, List.drop_left, ← htable, List.take_length]
    apply congrArg₂ (Line.lut · output ·) hws hbits

/-- The line of a lookup table adds a lookup table with this line. -/
theorem HasLines.absorb_lut {ls : List Line} (h : HasLines parser ls) {ws : List Nat}
    {table : List Bool} (htable : table.length = 2 ^ ws.length) (output : Nat) :
  HasLines (absorb parser (.lut ws output table)) (ls ++ [.lut ws output table])
  := by
  obtain ⟨hlut, hline⟩ := nodeLine_of_append (c := Parser.absorb parser (.lut ws output table))
    rfl rfl htable output
  exact h.append (List.prefix_append _ _) (List.prefix_append _ _) rfl hlut hline

/-- The line of a gate adds a gate with this line. -/
theorem HasLines.absorb_nodeLine {ls : List Line} (h : HasLines parser ls) {n : Node}
    (hlut : n.LutInRange c.luts c.lutTables) :
  HasLines (absorb parser (nodeLine c n)) (ls ++ [nodeLine c n])
  := by
  cases n with
  | lut offset tableOffset arity output =>
      apply h.absorb_lut
      rw [length_lutTable hlut, length_lutInputs hlut]
      rfl
  | _ => exact h.append (List.prefix_refl _) (List.prefix_refl _) rfl trivial rfl

/-- The lines of gates add gates with these lines. -/
theorem HasLines.foldl_absorb {ls : List Line} (h : HasLines parser ls) {ns : List Node}
    (hluts : ∀ n ∈ ns, n.LutInRange c.luts c.lutTables) :
  HasLines ((ns.map (nodeLine c)).foldl Parser.absorb parser) (ls ++ ns.map (nodeLine c))
  := by
  induction ns generalizing parser ls with
  | nil =>
      rw [List.map_nil, List.append_nil]
      apply h
  | cons n ns ih =>
      rw [List.forall_mem_cons] at hluts
      rw [List.map_cons, ← List.singleton_append, ← List.append_assoc]
      apply ih (h.absorb_nodeLine hluts.1) hluts.2

/-- The circuit put together from the lines of a circuit has the same lines of gates. -/
theorem hasLines_allLines (hluts : ∀ n ∈ c.nodes, n.LutInRange c.luts c.lutTables) :
  HasLines ((allLines c).foldl absorb Parser.empty) (c.nodes.map (nodeLine c))
  := by
  have hempty : ∀ ws, HasLines (absorb Parser.empty (.inputs ws)) [] := by
    intro ws
    constructor
    · simp [absorb, adjustMaxWireNumber, Parser.empty]
    · rfl
  rw [allLines, List.foldl_append, List.foldl_append, foldl_absorb_ports (absorb_outputs_nil _),
    foldl_absorb_ports (absorb_inputs_nil _)]
  have hnodes := (hempty c.inputs).foldl_absorb hluts
  exact ⟨hnodes.luts, hnodes.lines⟩

/-- The text of a circuit is read back. -/
theorem parseCircuit_text (hwires : c.WiresFit) (hpacked : c.Packed)
    (harity : ∀ n ∈ c.nodes, n.arityFits = true)
    (hlen : ∀ line ∈ lines (text c), line.length < maxLineLen) :
  parseCircuit (text c) = .ok { c with maxWireNumber := c.maxMentioned }
  := by
  rw [parseCircuit_text_eq hwires (Circuit.PackedFrom.forall_lutInRange hpacked) harity hlen,
    foldl_absorb_allLines hpacked]

/-- The text of a circuit with packed lookup tables of at most 63 inputs is read back, with
the largest mentioned wire number, if every line of the text is shorter than the longest line
of the parser. -/
theorem parseCircuit_writeCircuit (hwires : c.WiresFit) (hpacked : c.Packed)
    (harity : ∀ n ∈ c.nodes, n.arityFits = true) :
  ∃ text, Emit.writeCircuit c none = .ok text
    ∧ ((∀ line ∈ lines text, line.length < Parser.maxLineLen) →
      parseCircuit text = .ok { c with maxWireNumber := c.maxMentioned })
  := ⟨text c, writeCircuit_eq (Circuit.PackedFrom.forall_lutInRange hpacked) harity,
    parseCircuit_text hwires hpacked harity⟩

/-- A circuit with a lookup table of no inputs and one of two inputs. -/
def twoTables : Circuit where
  nodes := [.lut 0 0 0 7, .xor 3 1 5, .lut 0 1 2 12]
  luts := [5, 7]
  inputs := [3, 1]
  outputs := [12]
  lutTables := [true, false, true, true, false]
  maxWireNumber := 20

theorem parseCircuit_writeCircuit_twoTables :
  ∃ text, Emit.writeCircuit twoTables none = .ok text
    ∧ parseCircuit text = .ok { twoTables with maxWireNumber := 12 }
  := by
  have hwires : twoTables.WiresFit := by
    rw [Circuit.WiresFit]
    decide
  have hpacked : twoTables.Packed := ⟨⟨rfl, rfl⟩, trivial, ⟨rfl, rfl⟩, rfl, rfl⟩
  obtain ⟨text, hwrite, hparse⟩ := parseCircuit_writeCircuit hwires hpacked (by decide)
  use text, hwrite
  apply hparse
  have htext : Emit.writeCircuit twoTables none
      = .ok (bytes "C 3 1\nL 7 1\nE 3 1 5\nL 5 7 12 0110\nO 12\n") := by
    decide +kernel
  rw [htext] at hwrite
  obtain rfl := Outcome.ok.inj hwrite
  decide +kernel

end Parser

end SynCirc
