import SynCirc.RoundTrip
import SynCirc.EvalCircuit

/-!
# The SynCirc text format: lookup tables that fit

The line of a lookup table gives the inputs and the truth table one after the other, and the parser
does not compare their lengths.  The evaluation and the emission of a circuit rely on a table of
`2 ^ arity` bits and on at most 63 inputs, and the evaluation counts the wires in 64 bits, which
leaves out the largest number a line can mention.  So a text is rejected or gives a circuit that is
safe to evaluate and to emit exactly if it is malformed, or all its lookup tables fit and no line
mentions this number (`parseCircuit_safe_iff`).
-/

namespace SynCirc

open Zig

/-- The circuit can be evaluated and emitted: the mentioned wires are in range, every lookup table
has at most 63 inputs, and the lookup tables have slices of `luts` and of `lutTables` of their own,
the latter with `2 ^ arity` bits. -/
structure Circuit.Safe (c : Circuit) : Prop where
  wires : ∀ w ∈ c.mentioned, w ≤ c.maxWireNumber
  arity : ∀ n ∈ c.nodes, n.arityFits = true
  packed : c.Packed
  evaluates : ∀ inputs : List Bool, inputs.length = c.inputs.length →
    ∃ outputs, evaluateCircuit c inputs = .ok outputs
  writes : ∀ deadNodes : Option (Buffer Bool),
    (∀ buffer, deadNodes = some buffer → buffer.len = c.nodes.length) →
    ∃ text, Emit.writeCircuit c deadNodes = .ok text

/-! ### Evaluation and emission -/

/-- A circuit in range with lookup tables of at most 63 inputs, whose wires can be counted in 64
bits, is evaluated. -/
theorem evaluateCircuit_of_inRange {c : Circuit} (hc : c.InRange)
    (harity : ∀ n ∈ c.nodes, n.arityFits = true) (htable : c.maxWireNumber + 1 < 2 ^ 64)
    {inputs : List Bool} (hinputs : inputs.length = c.inputs.length) :
  ∃ outputs, evaluateCircuit c inputs = .ok outputs
  := by
  use c.outputs.map (c.values inputs)
  rw [evaluateCircuit_eq hc htable hinputs, if_pos (List.all_eq_true.mpr harity)]

/-- A circuit in range with lookup tables of at most 63 inputs is emitted, with or without its dead
gates. -/
theorem Emit.writeCircuit_of_lutInRange {c : Circuit}
    (hluts : ∀ n ∈ c.nodes, n.LutInRange c.luts c.lutTables)
    (harity : ∀ n ∈ c.nodes, n.arityFits = true) {deadNodes : Option (Buffer Bool)}
    (hdead : ∀ buffer, deadNodes = some buffer → buffer.len = c.nodes.length) :
  ∃ text, writeCircuit c deadNodes = .ok text
  := by
  have hnode : ∀ p ∈ c.nodes.zipIdx, ∃ line, emitNodeUnlessDead c deadNodes p = .ok line := by
    intro p hp
    have hline := emitNode_eq (hluts p.1 (List.fst_mem_of_mem_zipIdx hp))
      (harity p.1 (List.fst_mem_of_mem_zipIdx hp))
    cases deadNodes with
    | none => exact ⟨_, hline⟩
    | some buffer =>
        have hlt : p.2 < buffer.len := by
          rw [hdead buffer rfl]
          apply List.snd_lt_of_mem_zipIdx hp
        simp only [emitNodeUnlessDead, Buffer.read_of hlt, Outcome.ok_bind]
        split
        · exact ⟨[], rfl⟩
        · exact ⟨_, hline⟩
  rcases Outcome.mapM_eq_ok_or_exists (emitNodeUnlessDead c deadNodes) c.nodes.zipIdx
    with ⟨nodes, hnodes⟩ | ⟨pre, p, post, hsplit, -, hp⟩
  · use emitInputs c ++ nodes.flatten ++ emitOutputs c
    rw [writeCircuit, hnodes]
    rfl
  · obtain ⟨line, hline⟩ := hnode p (by simp [hsplit])
    apply absurd hline (hp line)

/-- A circuit with packed lookup tables of at most 63 inputs, whose wires can be counted in 64 bits,
is safe. -/
theorem Circuit.safe_of_packed {c : Circuit} (hwires : ∀ w ∈ c.mentioned, w ≤ c.maxWireNumber)
    (harity : ∀ n ∈ c.nodes, n.arityFits = true) (hpacked : c.Packed)
    (htable : c.maxWireNumber + 1 < 2 ^ 64) :
  c.Safe
  := by
  have hluts := PackedFrom.forall_lutInRange hpacked
  refine ⟨hwires, harity, hpacked, ?_, ?_⟩
  · intro inputs hinputs
    apply evaluateCircuit_of_inRange ⟨hwires, hluts⟩ harity htable hinputs
  · intro deadNodes hdead
    apply Emit.writeCircuit_of_lutInRange hluts harity hdead

/-- The wires of a safe circuit can be counted in 64 bits. -/
theorem Circuit.Safe.table {c : Circuit} (h : c.Safe) :
  c.maxWireNumber + 1 < 2 ^ 64
  := by
  obtain ⟨outputs, houtputs⟩ := h.evaluates _ (List.length_replicate (a := false))
  apply (evaluateCircuit_eq_ok.mp houtputs).2.1.table

/-! ### Packing -/

namespace Circuit

variable {c c' : Circuit}

/-- A gate that is no lookup table does not change the packing. -/
theorem packedFrom_append_gate {n : Node} (hn : n.isLut = false) (hluts : c'.luts = c.luts)
    (htables : c'.lutTables = c.lutTables) {i j : Nat} {ns : List Node} :
  c'.PackedFrom i j (ns ++ [n]) ↔ c.PackedFrom i j ns
  := by
  induction ns generalizing i j with
  | nil =>
      cases n with
      | lut => contradiction
      | _ => simp [PackedFrom, Node.LutAt, Node.lutLength, Node.tableLength, hluts, htables]
  | cons m ns ih => rw [List.cons_append, PackedFrom, PackedFrom, ih]

/-- A lookup table at the ends of `luts` and `lutTables` is packed if its truth table has the length
that its arity asks for. -/
theorem packedFrom_append_lut {arity output : Nat} {ws : List Nat} {table : List Bool}
    (harity : ws.length = arity) (hluts : c'.luts = c.luts ++ ws)
    (htables : c'.lutTables = c.lutTables ++ table) {i j : Nat} {ns : List Node} :
  c'.PackedFrom i j (ns ++ [.lut c.luts.length c.lutTables.length arity output])
    ↔ c.PackedFrom i j ns ∧ table.length = 2 ^ arity
  := by
  induction ns generalizing i j with
  | nil =>
      simp only [List.nil_append, PackedFrom, Node.LutAt, Node.lutLength, Node.tableLength, hluts,
        htables, List.length_append]
      omega
  | cons m ns ih => rw [List.cons_append, PackedFrom, PackedFrom, ih, and_assoc]

/-- The packing depends on the lengths of `luts` and `lutTables` only. -/
theorem packedFrom_congr (hluts : c'.luts = c.luts) (htables : c'.lutTables = c.lutTables)
    {i j : Nat} {ns : List Node} :
  c'.PackedFrom i j ns ↔ c.PackedFrom i j ns
  := by
  induction ns generalizing i j with
  | nil => rw [PackedFrom, PackedFrom, hluts, htables]
  | cons n ns ih => rw [PackedFrom, PackedFrom, ih]

end Circuit

namespace Parser

/-- A lookup table has at most 63 inputs and a truth table of the length they ask for. -/
def Line.Fits : Line → Prop
  | .lut ws _ table => ws.length < 64 ∧ table.length = 2 ^ ws.length
  | _ => True

/-- A gate on a line is no lookup table. -/
def Line.IsGate : Line → Prop
  | .gate n => n.isLut = false
  | _ => True

/-- The lookup tables of the circuit are packed and have at most 63 inputs. -/
def Fitted (c : Circuit) : Prop := c.Packed ∧ ∀ n ∈ c.nodes, n.arityFits = true

/-- The lookup tables fit after a line exactly if they did before and those of the line do. -/
theorem fitted_absorb (parser : Circuit) {l : Line} (hl : l.IsGate) :
  Fitted (absorb parser l) ↔ Fitted parser ∧ l.Fits
  := by
  cases l with
  | inputs ws =>
      have hpacked : (absorb parser (.inputs ws)).Packed ↔ parser.Packed := by
        apply Circuit.packedFrom_congr
        · rfl
        · rfl
      simp only [Fitted, hpacked, Line.Fits, and_true]
      rfl
  | outputs ws =>
      have hpacked : (absorb parser (.outputs ws)).Packed ↔ parser.Packed := by
        apply Circuit.packedFrom_congr
        · rfl
        · rfl
      simp only [Fitted, hpacked, Line.Fits, and_true]
      rfl
  | gate n =>
      have hpacked : (absorb parser (.gate n)).Packed ↔ parser.Packed := by
        apply Circuit.packedFrom_append_gate hl
        · rfl
        · rfl
      have harity : n.arityFits = true := by
        cases n with
        | lut => contradiction
        | _ => rfl
      have hnodes : (absorb parser (.gate n)).nodes = parser.nodes ++ [n] := rfl
      simp only [Fitted, hpacked, Line.Fits, hnodes, List.forall_mem_append,
        List.forall_mem_singleton, harity, and_true]
  | lut ws output table =>
      have hpacked : (absorb parser (.lut ws output table)).Packed
          ↔ parser.Packed ∧ table.length = 2 ^ ws.length := by
        apply Circuit.packedFrom_append_lut
        · rfl
        · rfl
        · rfl
      have hnodes : (absorb parser (.lut ws output table)).nodes = parser.nodes
          ++ [.lut parser.luts.length parser.lutTables.length ws.length output] := rfl
      have harity : (∀ n ∈ (absorb parser (.lut ws output table)).nodes, n.arityFits = true)
          ↔ (∀ n ∈ parser.nodes, n.arityFits = true) ∧ ws.length < 64 := by
        rw [hnodes, List.forall_mem_append, List.forall_mem_singleton, Node.arityFits,
          decide_eq_true_iff]
      rw [Fitted, hpacked, harity, Fitted, Line.Fits]
      constructor
      · rintro ⟨⟨h₁, h₂⟩, h₃, h₄⟩
        exact ⟨⟨h₁, h₃⟩, h₄, h₂⟩
      · rintro ⟨⟨h₁, h₃⟩, h₄, h₂⟩
        exact ⟨⟨h₁, h₂⟩, h₃, h₄⟩

theorem fitted_foldl_absorb (parser : Circuit) {ls : List Line} (hls : ∀ l ∈ ls, l.IsGate) :
  Fitted (ls.foldl absorb parser) ↔ Fitted parser ∧ ∀ l ∈ ls, l.Fits
  := by
  induction ls generalizing parser with
  | nil => simp
  | cons l ls ih =>
      rw [List.forall_mem_cons] at hls
      rw [List.foldl_cons, ih _ hls.2, fitted_absorb parser hls.1, List.forall_mem_cons, and_assoc]

/-! ### Wires -/

/-- Every wire number the circuit keeps is at most its largest one. -/
structure Covered (c : Circuit) : Prop where
  inputs : ∀ w ∈ c.inputs, w ≤ c.maxWireNumber
  outputs : ∀ w ∈ c.outputs, w ≤ c.maxWireNumber
  luts : ∀ w ∈ c.luts, w ≤ c.maxWireNumber
  nodes : ∀ n ∈ c.nodes, ∀ w ∈ n.wires [], w ≤ c.maxWireNumber

theorem Covered.mentioned {c : Circuit} (hc : Covered c) {w : Nat} (hw : w ∈ c.mentioned) :
  w ≤ c.maxWireNumber
  := by
  rw [Circuit.mentioned, List.mem_append, List.mem_append] at hw
  rcases hw with (hw | hw) | hw
  · apply hc.inputs w hw
  · apply hc.outputs w hw
  · obtain ⟨n, hn, hw⟩ := List.mem_flatMap.mp hw
    cases n with
    | lut offset tableOffset arity output =>
        rw [Node.wires, List.mem_append] at hw
        rcases hw with hw | hw
        · apply hc.luts w (List.mem_of_mem_drop (List.mem_of_mem_take hw))
        · apply hc.nodes _ hn w
          simpa [Node.wires, Node.reads] using hw
    | _ => apply hc.nodes _ hn w hw

theorem le_adjustMaxWireNumber (parser : Circuit) (ws : List Nat) :
  parser.maxWireNumber ≤ (adjustMaxWireNumber parser ws).maxWireNumber
    ∧ ∀ w ∈ ws, w ≤ (adjustMaxWireNumber parser ws).maxWireNumber
  := by
  constructor
  · have hle : parser.maxWireNumber ≤ (parser.maxWireNumber :: ws).foldl max 0 :=
      Circuit.le_foldl_max List.mem_cons_self 0
    rw [List.foldl_cons, Nat.zero_max] at hle
    apply hle
  · intro w hw
    apply Circuit.le_foldl_max hw

/-- The wire numbers of a circuit with a larger bound. -/
theorem Covered.mono {c : Circuit} (hc : Covered c) {bound : Nat} (h : c.maxWireNumber ≤ bound) :
  Covered { c with maxWireNumber := bound }
  := ⟨fun w hw => (hc.inputs w hw).trans h, fun w hw => (hc.outputs w hw).trans h,
    fun w hw => (hc.luts w hw).trans h, fun n hn w hw => (hc.nodes n hn w hw).trans h⟩

/-- The wires of a line are covered. -/
theorem Covered.absorb {parser : Circuit} (hparser : Covered parser) (l : Line) :
  Covered (absorb parser l)
  := by
  cases l with
  | inputs ws =>
      obtain ⟨hle, hws⟩ := le_adjustMaxWireNumber parser ws
      have hmono := hparser.mono hle
      refine ⟨?_, hmono.outputs, hmono.luts, hmono.nodes⟩
      apply List.forall_mem_append.mpr ⟨hmono.inputs, hws⟩
  | outputs ws =>
      obtain ⟨hle, hws⟩ := le_adjustMaxWireNumber parser ws
      have hmono := hparser.mono hle
      refine ⟨hmono.inputs, ?_, hmono.luts, hmono.nodes⟩
      apply List.forall_mem_append.mpr ⟨hmono.outputs, hws⟩
  | gate n =>
      obtain ⟨hle, hws⟩ := le_adjustMaxWireNumber parser (n.wires [])
      have hmono := hparser.mono hle
      refine ⟨hmono.inputs, hmono.outputs, hmono.luts, ?_⟩
      apply List.forall_mem_append.mpr ⟨hmono.nodes, List.forall_mem_singleton.mpr hws⟩
  | lut ws output table =>
      obtain ⟨hle, hws⟩ := le_adjustMaxWireNumber parser (ws ++ [output])
      have hmono := hparser.mono hle
      rw [List.forall_mem_append] at hws
      refine ⟨hmono.inputs, hmono.outputs, ?_, ?_⟩
      · apply List.forall_mem_append.mpr ⟨hmono.luts, hws.1⟩
      · apply List.forall_mem_append.mpr ⟨hmono.nodes, List.forall_mem_singleton.mpr _⟩
        simpa [Node.wires, Node.reads, Node.output] using hws.2

theorem Covered.foldl_absorb {parser : Circuit} (hparser : Covered parser) (ls : List Line) :
  Covered (ls.foldl Parser.absorb parser)
  := by
  induction ls generalizing parser with
  | nil => apply hparser
  | cons l ls ih => apply ih (hparser.absorb l)

/-! ### Texts -/

/-- The line is well formed. -/
def WellFormed (line : List UInt8) : Prop :=
  line.length < maxLineLen ∧ ∃ l, Denotes (tokenize line) l

/-- The line is neither well formed nor the line of a lookup table with more than 255 inputs. -/
def Malformed (line : List UInt8) : Prop :=
  ¬ WellFormed line ∧ ¬ (line.length < maxLineLen ∧ Overflows (tokenize line))

/-- The text has a malformed line after well-formed ones. -/
def IsMalformed (text : List UInt8) : Prop :=
  ∃ pre line post, lines text = pre ++ line :: post ∧ (∀ l ∈ pre, WellFormed l) ∧ Malformed line

/-- If the line is that of a lookup table, the table has at most 63 inputs and `2 ^ arity` bits. -/
def LutFits (line : List UInt8) : Prop :=
  ∀ ts output table, tokenize line = bytes "L" :: (ts ++ [output, table]) →
    ts.length < 64 ∧ table.length = 2 ^ ts.length

/-- If the line is well formed, the wires it mentions have a number after them. -/
def WiresCounted (line : List UInt8) : Prop :=
  ∀ l, Denotes (tokenize line) l → ∀ w ∈ l.wires, w + 1 < 2 ^ 64

theorem Denotes.isGate {tokens : List (List UInt8)} {l : Line} (h : Denotes tokens l) :
  l.IsGate
  := by
  cases h with
  | gate hgate => apply (readsGate_of_gateOf hgate).isLut
  | _ => trivial

/-- The lookup table of a well-formed line fits exactly if its tokens do. -/
theorem Denotes.fits_iff {line : List UInt8} {l : Line} (h : Denotes (tokenize line) l) :
  LutFits line ↔ l.Fits
  := by
  rw [LutFits]
  generalize tokenize line = tokens at h
  cases h with
  | inputs =>
      simp only [Line.Fits, iff_true]
      intro ts output table htokens
      cases (List.cons.inj htokens).1
  | outputs =>
      simp only [Line.Fits, iff_true]
      intro ts output table htokens
      cases (List.cons.inj htokens).1
  | gate hgate =>
      simp only [Line.Fits, iff_true]
      intro ts output table htokens
      rw [(List.cons.inj htokens).1] at hgate
      contradiction
  | @lut ts ws rawOutput output rawTable table hts harity houtput htable =>
      rw [Line.Fits, ← hts.length_eq, ← htable.length_eq]
      constructor
      · intro hfits
        apply hfits ts rawOutput rawTable rfl
      · intro hfits ts' output' table' htokens
        obtain ⟨-, htokens⟩ := List.cons.inj htokens
        obtain ⟨rfl, hlast⟩ := List.append_inj' htokens rfl
        obtain ⟨-, hlast⟩ := List.cons.inj hlast
        obtain ⟨rfl, -⟩ := List.cons.inj hlast
        apply hfits

theorem exists_readLine {line : List UInt8} :
  (∃ l, readLine line = .ok l) ↔ WellFormed line
  := by
  simp only [readLine_eq_ok, exists_and_left]
  rfl

theorem exists_readLine_eq_error {line : List UInt8} :
  (∃ e, readLine line = .error e) ↔ Malformed line
  := by
  rw [Malformed, ← exists_readLine]
  cases hread : readLine line with
  | ok l => simp
  | error e =>
      simp only [Outcome.error.injEq, exists_eq', true_iff]
      constructor
      · simp
      · rintro ⟨hlen, hover⟩
        rw [readLine_of_overflows hlen hover] at hread
        contradiction
  | panic t =>
      have hlen : line.length < maxLineLen := by
        by_contra hlen
        rw [readLine, if_pos (Nat.le_of_not_lt hlen)] at hread
        contradiction
      simp [readLine_eq_panic hread, hlen]

theorem forall_fits_iff {ls : List (List UInt8)} {denoted : List Line}
    (h : List.Forall₂ (fun line l => readLine line = .ok l) ls denoted) :
  (∀ l ∈ denoted, l.Fits) ↔ ∀ line ∈ ls, LutFits line
  := by
  induction h with
  | nil => simp
  | cons hline _ ih =>
      rw [List.forall_mem_cons, List.forall_mem_cons, (readLine_eq_ok.mp hline).2.fits_iff, ih]

/-- The texts that are rejected with an error are the malformed ones. -/
theorem parseCircuit_eq_error {text : List UInt8} :
  (∃ e, parseCircuit text = .error e) ↔ IsMalformed text
  := by
  simp only [parseCircuit_eq, Outcome.bind_eq_error, Outcome.pure_eq, reduceCtorEq, and_false,
    exists_false, or_false, Outcome.mapM_eq_error, exists_readLine]
  constructor
  · rintro ⟨e, pre, line, post, hlines, hpre, hline⟩
    exact ⟨pre, line, post, hlines, hpre, exists_readLine_eq_error.mp ⟨e, hline⟩⟩
  · rintro ⟨pre, line, post, hlines, hpre, hline⟩
    obtain ⟨e, he⟩ := exists_readLine_eq_error.mpr hline
    exact ⟨e, pre, line, post, hlines, hpre, he⟩

/-- A text that stops the parser at a safety check has a line with too many inputs. -/
theorem exists_overflows_of_panic {text : List UInt8} {t : Trap}
    (h : parseCircuit text = .panic t) :
  ∃ line ∈ lines text, Overflows (tokenize line)
  := by
  rw [parseCircuit_eq] at h
  rcases Outcome.bind_eq_panic.mp h with h | ⟨ls, -, h⟩
  · obtain ⟨pre, line, post, hlines, -, hline⟩ := Outcome.mapM_eq_panic.mp h
    use line, by simp [hlines]
    apply readLine_eq_panic hline
  · contradiction

theorem not_lutFits_of_overflows {line : List UInt8} (h : Overflows (tokenize line)) :
  ¬ LutFits line
  := by
  obtain ⟨ts, ws, output, table, htokens, -, harity⟩ := h
  intro hfits
  have hlt := (hfits ts output table htokens).1
  omega

theorem forall_wires_iff {ls : List (List UInt8)} {denoted : List Line}
    (h : List.Forall₂ (fun line l => readLine line = .ok l) ls denoted) :
  (∀ w ∈ denoted.flatMap Line.wires, w + 1 < 2 ^ 64) ↔ ∀ line ∈ ls, WiresCounted line
  := by
  induction h with
  | nil => simp
  | @cons line l ls denoted hline _ ih =>
      obtain ⟨hlen, hread⟩ := readLine_eq_ok.mp hline
      have hcounted : WiresCounted line ↔ ∀ w ∈ l.wires, w + 1 < 2 ^ 64 := by
        constructor
        · intro h
          apply h l hread
        · intro h l' hread'
          rw [readLine_eq_ok.mpr ⟨hlen, hread'⟩] at hline
          rw [Outcome.ok.inj hline]
          apply h
      rw [List.flatMap_cons, List.forall_mem_append, List.forall_mem_cons, hcounted, ih]

/-- A circuit that is read has its wires in range, its lookup tables are packed and have at most 63
inputs exactly if those of the text fit, and its wires can be counted in 64 bits exactly if those
of the text have a number after them. -/
theorem parseCircuit_eq_ok {text : List UInt8} {c : Circuit} (h : parseCircuit text = .ok c) :
  Covered c ∧ (Fitted c ↔ ∀ line ∈ lines text, LutFits line)
    ∧ (c.maxWireNumber + 1 < 2 ^ 64 ↔ ∀ line ∈ lines text, WiresCounted line)
  := by
  rw [parseCircuit_eq] at h
  obtain ⟨ls, hls, h⟩ := Outcome.bind_eq_ok.mp h
  obtain rfl := Outcome.ok.inj h
  have hread := Outcome.mapM_eq_ok_iff.mp hls
  have hempty : Covered Parser.empty := ⟨by simp [Parser.empty], by simp [Parser.empty],
    by simp [Parser.empty], by simp [Parser.empty]⟩
  have hfitted : Fitted Parser.empty := ⟨⟨rfl, rfl⟩, by simp [Parser.empty]⟩
  have hgates : ∀ l ∈ ls, l.IsGate := by
    intro l hl
    obtain ⟨line, -, hline⟩ := exists_mem_of_forall₂ hread hl
    apply (readLine_eq_ok.mp hline).2.isGate
  refine ⟨hempty.foldl_absorb ls, ?_, ?_⟩
  · rw [fitted_foldl_absorb Parser.empty hgates, forall_fits_iff hread]
    simp only [hfitted, true_and]
  · rw [maxWireNumber_foldl_absorb, ← forall_wires_iff hread]
    constructor
    · intro hmax w hw
      have hle := Circuit.le_foldl_max hw Parser.empty.maxWireNumber
      omega
    · intro hwires
      have hlt : (ls.flatMap Line.wires).foldl max Parser.empty.maxWireNumber < 2 ^ 64 - 1 := by
        apply Circuit.foldl_max_lt (by decide)
        intro w hw
        have hlt := hwires w hw
        omega
      omega

end Parser

/-- A text is rejected with an error or gives a circuit that is safe to evaluate and to emit exactly
if it is malformed, or its lookup tables have at most 63 inputs and `2 ^ arity` bits and no line
mentions the wire `2 ^ 64 - 1`. -/
theorem parseCircuit_safe_iff (text : List UInt8) :
  ((∃ e, parseCircuit text = .error e) ∨ ∃ c, parseCircuit text = .ok c ∧ c.Safe)
    ↔ Parser.IsMalformed text
      ∨ ∀ line ∈ lines text, Parser.LutFits line ∧ Parser.WiresCounted line
  := by
  rw [Parser.parseCircuit_eq_error]
  apply or_congr_right'
  intro hmalformed
  cases hparse : parseCircuit text with
  | ok c =>
      obtain ⟨hcovered, hfitted, hcounted⟩ := Parser.parseCircuit_eq_ok hparse
      rw [forall₂_and, ← hfitted, ← hcounted]
      constructor
      · rintro ⟨c', hc', hsafe⟩
        obtain rfl := Outcome.ok.inj hc'
        exact ⟨⟨hsafe.packed, hsafe.arity⟩, hsafe.table⟩
      · rintro ⟨⟨hpacked, harity⟩, htable⟩
        use c, rfl
        apply Circuit.safe_of_packed (fun w hw => hcovered.mentioned hw) harity hpacked htable
  | error e => apply absurd (Parser.parseCircuit_eq_error.mp ⟨e, hparse⟩) hmalformed
  | panic t =>
      obtain ⟨line, hline, hover⟩ := Parser.exists_overflows_of_panic hparse
      constructor
      · rintro ⟨c, hc, -⟩
        contradiction
      · intro hfits
        apply absurd (hfits line hline).1 (Parser.not_lutFits_of_overflows hover)

/-- A text that mentions the wire `2 ^ 64 - 1` is read, but the evaluation cannot count the
wires. -/
example : parseCircuit (bytes "C 18446744073709551615\nO 18446744073709551615\n")
      = .ok ⟨[], [], [2 ^ 64 - 1], [2 ^ 64 - 1], [], 2 ^ 64 - 1⟩
    ∧ evaluateCircuit ⟨[], [], [2 ^ 64 - 1], [2 ^ 64 - 1], [], 2 ^ 64 - 1⟩ [true]
      = .panic .integerOverflow
  := by
  decide +kernel

/-- A lookup table of one input with a table of one bit: the text is read, and the evaluation stops
at a safety check. -/
theorem parseCircuit_shortTable :
  ∃ c, parseCircuit (bytes "C 0\nL 0 1 0\nO 1\n") = .ok c ∧ ¬ c.Safe
    ∧ evaluateCircuit c [true] = .panic .indexOutOfBounds
  := by
  have hparse : parseCircuit (bytes "C 0\nL 0 1 0\nO 1\n")
      = .ok ⟨[.lut 0 0 1 1], [0], [0], [1], [false], 1⟩ := by
    decide +kernel
  have hfault : evaluateCircuit ⟨[.lut 0 0 1 1], [0], [0], [1], [false], 1⟩ [true]
      = .panic .indexOutOfBounds := rfl
  refine ⟨_, hparse, ?_, hfault⟩
  intro hsafe
  obtain ⟨outputs, houtputs⟩ := hsafe.evaluates [true] rfl
  rw [hfault] at houtputs
  contradiction

end SynCirc
