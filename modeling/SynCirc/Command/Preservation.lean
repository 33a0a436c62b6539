import SynCirc.Command.Convert
import SynCirc.Command.Eval
import SynCirc.Linearize.Idempotent

/-!
# Conversions keep the function of a circuit

A circuit can be written and read back if it is admissible, has outputs, its outputs are driven, and
its wires can be counted (`Circuit.Portable`).  It can be written in all formats if besides it has
no lookup tables and the linearized wires can be counted (`Circuit.Convertible`); a conversion of
such a circuit does not break off.  The text that a conversion writes is read back as such a circuit
with the same function, and so are all properties that survive this (`Survives`).  So whatever
conversions take place in a directory, `eval` prints the same for all texts of a circuit
(`Command.eval_converted`).
-/

namespace SynCirc

open Zig

/-- An admissible circuit with lookup tables of at most 63 inputs that has outputs, all of them
driven, and whose wires can be counted in 64 bits. -/
structure Circuit.Portable (c : Circuit) : Prop extends c.Admissible where
  fits : ∀ n ∈ c.nodes, n.arityFits = true
  outputs_ne_nil : c.outputs ≠ []
  outputs_driven : ∀ w ∈ c.outputs, c.Driven w
  counted : c.maxWireNumber + 1 < 2 ^ 64

/-- A circuit without lookup tables whose linearized wires can be counted in 64 bits. -/
structure Circuit.Convertible (c : Circuit) : Prop where
  lutFree : c.LutFree
  budget : c.wireBudget + 1 < 2 ^ 64

namespace Circuit

variable {c c' : Circuit}

theorem Portable.wiresFit (hc : c.Portable) :
  c.WiresFit
  := fun w hw => Nat.lt_of_le_of_lt (hc.wires w hw) (Nat.lt_of_succ_lt hc.counted)

theorem SameLines.driven (h : SameLines c c') {w : Nat} (hw : c.Driven w) :
  c'.Driven w
  := by
  have houtput := h.map_eq Node.output Node.output fun n n' hn => hn.wires_eq.2
  rw [Driven, h.inputs, houtput]
  apply hw

/-- A circuit with the same lines is portable, if its largest wire number is large enough, but not
larger. -/
theorem SameLines.portable (h : SameLines c c')
    (hwires : ∀ w ∈ c'.mentioned, w ≤ c'.maxWireNumber)
    (hmax : c'.maxWireNumber ≤ c.maxWireNumber) (hc : c.Portable) :
  c'.Portable
  := by
  refine ⟨⟨⟨hwires, h.forall_lutInRange.2⟩, ?_, ?_⟩, h.forall_arityFits hc.fits, ?_, ?_, ?_⟩
  · rw [h.inputs]
    apply hc.inputs_ne_nil
  · rw [h.inputs]
    apply hc.inputs_nodup
  · rw [h.outputs]
    apply hc.outputs_ne_nil
  · intro w hw
    rw [h.outputs] at hw
    apply h.driven (hc.outputs_driven w hw)
  · apply Nat.lt_of_le_of_lt (Nat.succ_le_succ hmax) hc.counted

/-- A circuit with the same lines and no larger largest wire number is convertible. -/
theorem SameLines.convertible (h : SameLines c c') (hmax : c'.maxWireNumber ≤ c.maxWireNumber)
    (hc : c.Convertible) :
  c'.Convertible
  := by
  have hlut := h.map_eq Node.isLut Node.isLut fun n n' hn => hn.kind_eq.2.1
  have hconstant := h.map_eq Node.isConstant Node.isConstant fun n n' hn => hn.kind_eq.1
  constructor
  · intro n hn
    have hmem := List.mem_map_of_mem (f := Node.isLut) hn
    rw [hlut] at hmem
    obtain ⟨m, hm, heq⟩ := List.mem_map.mp hmem
    rw [← heq]
    apply hc.lutFree m hm
  · have hcount : c'.constantCount = c.constantCount := by
      have hcountP := congrArg (List.countP id) hconstant
      rw [List.countP_map, List.countP_map] at hcountP
      apply hcountP
    have hbudget := hc.budget
    rw [wireBudget, inputOutputCount, repeatedOutputCount] at hbudget ⊢
    rw [hcount, h.inputs, h.outputs]
    omega

/-- The evaluation of a portable circuit stops at no safety check. -/
theorem Portable.evaluateCircuit_ne_panic (hc : c.Portable) (inputs : List Bool) (t : Trap) :
  evaluateCircuit c inputs ≠ .panic t
  := by
  by_cases hlength : inputs.length = c.inputs.length
  · rw [SynCirc.evaluateCircuit_eq hc.toInRange hc.counted hlength,
      if_pos (List.all_eq_true.mpr hc.fits)]
    intro h
    contradiction
  · rw [SynCirc.evaluateCircuit_eq_error.mpr ⟨hc.counted, hlength, rfl⟩]
    intro h
    contradiction

end Circuit

/-! ### Linearized circuits in the Bristol format -/

namespace Layout

open Linearize

variable {c : Circuit} (L : Layout c)

/-- If the linearized circuit has no lookup tables, the circuit has none. -/
theorem lutFree_of_circuit (h : L.circuit.LutFree) :
  c.LutFree
  := by
  intro n hn
  rw [← L.gates_nodes] at hn
  obtain ⟨g, hg, rfl⟩ := List.mem_map.mp hn
  cases hconstant : g.1.isConstant with
  | true => apply Node.isLut_of_isConstant hconstant
  | false =>
      rw [← Node.isLut_rename L.rename]
      apply h
      apply List.mem_append_left
      apply List.mem_flatMap.mpr
      refine ⟨g, hg, ?_⟩
      rw [gateNodes_of_not_constant c L.rename hconstant]
      apply List.mem_singleton_self

/-- The linearized circuit of a portable circuit is portable, if it has no lookup tables and its
wires can be counted. -/
theorem circuit_portable (hc : c.Portable) (hconvertible : L.circuit.Convertible) :
  L.circuit.Portable
  := by
  have hlinear := L.circuit_linear hc.renumberable
  have hrenumberable := L.circuit_renumberable hc.renumberable
  have hfree := hconvertible.lutFree
  refine ⟨⟨Circuit.inRange_of_lutFree hfree hlinear.wires, hrenumberable.inputs_ne_nil,
    hrenumberable.inputs_nodup⟩, fun n hn => Node.arityFits_of_not_lut (hfree n hn), ?_, ?_, ?_⟩
  · intro hnil
    have hlength : L.circuit.outputs.length = c.outputs.length := by
      rw [circuit, List.length_map, List.length_range]
    rw [hnil] at hlength
    apply hc.outputs_ne_nil (List.length_eq_zero_iff.mp hlength.symm)
  · intro w hw
    right
    apply L.output_driven hc.outputs_driven hw
  · have hbudget := hconvertible.budget
    rw [L.circuit_wireBudget hc.renumberable] at hbudget
    apply hbudget

/-- The arrays of the lookup tables are not needed. -/
theorem sameLines_withoutLuts (hfree : L.circuit.LutFree) :
  Circuit.SameLines L.circuit L.circuit.withoutLuts
  := by
  refine ⟨rfl, rfl, ?_⟩
  have hsame : ∀ ns : List Node, (∀ n ∈ ns, n.isLut = false) →
      List.Forall₂ (SameLine L.circuit L.circuit.withoutLuts) ns ns := by
    intro ns hns
    rw [List.forall₂_same]
    intro n hn
    have hlut := hns n hn
    cases n with
    | lut offset tableOffset arity output => contradiction
    | _ => exact ⟨trivial, trivial, rfl⟩
  apply hsame _ hfree

/-- What is read back from the Bristol text of a portable circuit is portable. -/
theorem portable_withoutLuts (hc : c.Portable) (hconvertible : L.circuit.Convertible) :
  L.circuit.withoutLuts.Portable
  := by
  have hsame : Circuit.Same L.circuit L.circuit.withoutLuts := ⟨rfl, rfl, rfl⟩
  apply (L.sameLines_withoutLuts hconvertible.lutFree).portable _ (Nat.le_refl _)
    (L.circuit_portable hc hconvertible)
  rw [hsame.mentioned_eq hconvertible.lutFree]
  apply (L.circuit_linear hc.renumberable).wires

end Layout

namespace Command

open SynCirc.Command.Convert

/-! ### Texts of a circuit with a given function -/

/-- The lines of a text in the format are shorter than this. -/
def InputFormat.lineLen : InputFormat → Nat
  | .bristol => BristolParser.bufLen
  | .syncirc => Parser.maxLineLen

/-- The lines of the text fit in the buffer of the parser. -/
def LinesFit (format : InputFormat) (text : List UInt8) : Prop :=
  ∀ line ∈ lines text, line.length < format.lineLen

/-- The circuit in the text is portable and has a property, and it can be read if the lines of the
text fit in the buffer of the parser. -/
structure IsTextOf (R : Circuit → Prop) (format : InputFormat) (text : List UInt8) : Prop where
  readable : LinesFit format text → ∃ c, parse text format = .ok c
  portable : ∀ c, parse text format = .ok c → c.Portable ∧ R c

theorem fits_of_nextLine {stream rest : List (List UInt8)} {iter : List (List UInt8)}
    (h : BristolParser.nextLine stream = .ok (iter, rest)) :
  ∃ line, stream = line :: rest ∧ line.length < BristolParser.bufLen
  := by
  cases stream with
  | nil => contradiction
  | cons line stream =>
      obtain ⟨iter', hiter, h⟩ := Outcome.bind_eq_ok.mp h
      cases h
      exact ⟨line, rfl, (BristolParser.readLine_eq_ok.mp hiter).1⟩

/-- The lines of a text that is read fit in the buffer. -/
theorem linesFit_of_parse {format : InputFormat} {text : List UInt8} {c : Circuit}
    (h : parse text format = .ok c) :
  LinesFit format text
  := by
  intro line hline
  cases format with
  | syncirc =>
      have hparse := Outcome.mapError_eq_ok.mp h
      rw [parseCircuit_eq] at hparse
      obtain ⟨ls, hls, -⟩ := Outcome.bind_eq_ok.mp hparse
      obtain ⟨l, -, hread⟩ :=
        exists_mem_of_forall₂ (Outcome.forall₂_of_mapM_eq_ok hls).flip hline
      apply (Parser.readLine_eq_ok.mp hread).1
  | bristol =>
      have hparse := Outcome.mapError_eq_ok.mp h
      rw [parseBristol_eq] at hparse
      obtain ⟨⟨parser, stream⟩, hheader, hparse⟩ := Outcome.bind_eq_ok.mp hparse
      obtain ⟨cs, hcs, -⟩ := Outcome.bind_eq_ok.mp hparse
      rw [BristolParser.parseHeader] at hheader
      obtain ⟨⟨iter, stream₁⟩, h₁, hheader⟩ := Outcome.bind_eq_ok.mp hheader
      obtain ⟨_, -, hheader⟩ := Outcome.bind_eq_ok.mp hheader
      obtain ⟨⟨iter', stream₂⟩, h₂, hheader⟩ := Outcome.bind_eq_ok.mp hheader
      obtain ⟨_, -, hheader⟩ := Outcome.bind_eq_ok.mp hheader
      obtain ⟨_, -, hheader⟩ := Outcome.bind_eq_ok.mp hheader
      cases hheader
      obtain ⟨first, hlines, hfirst⟩ := fits_of_nextLine h₁
      obtain ⟨second, rfl, hsecond⟩ := fits_of_nextLine h₂
      rw [hlines, List.mem_cons, List.mem_cons] at hline
      rcases hline with rfl | rfl | hline
      · apply hfirst
      · apply hsecond
      · obtain ⟨gates, -, hgate⟩ :=
          exists_mem_of_forall₂ (Outcome.forall₂_of_mapM_eq_ok hcs).flip hline
        rw [BristolParser.parseLine] at hgate
        obtain ⟨_, hread, -⟩ := Outcome.bind_eq_ok.mp hgate
        apply (BristolParser.readLine_eq_ok.mp hread).1

variable {R : Circuit → Prop} {c : Circuit}

/-- A text is one of a circuit with a property if such a circuit is read when the lines fit in the
buffer. -/
theorem isTextOf_of_linesFit {format : InputFormat} {text : List UInt8}
    (h : LinesFit format text → ∃ c, parse text format = .ok c ∧ c.Portable ∧ R c) :
  IsTextOf R format text
  := by
  constructor
  · intro hlines
    obtain ⟨c, hparse, -⟩ := h hlines
    exact ⟨c, hparse⟩
  · intro c hparse
    obtain ⟨c', hparse', hc'⟩ := h (linesFit_of_parse hparse)
    rw [hparse, Outcome.ok.injEq] at hparse'
    rw [hparse']
    apply hc'

/-! ### Written circuits -/

/-- A portable circuit can be written in the SynCirc format. -/
theorem exists_emitSyncirc (hc : c.Portable) :
  ∃ text, emitSyncirc c = .ok text
  := by
  use Emit.text c
  rw [emitSyncirc, Emit.writeCircuit_eq hc.luts hc.fits]
  rfl

/-- The SynCirc text of a portable circuit is read back as a portable circuit with the same lines
and no larger largest wire number. -/
theorem exists_parse_emitSyncirc (hc : c.Portable) {text : List UInt8}
    (htext : emitSyncirc c = .ok text) (hlines : LinesFit .syncirc text) :
  ∃ c', parse text .syncirc = .ok c' ∧ Circuit.SameLines c c' ∧ c'.Portable
    ∧ c'.maxWireNumber ≤ c.maxWireNumber
  := by
  rw [emitSyncirc, Emit.writeCircuit_eq hc.luts hc.fits] at htext
  obtain rfl := Outcome.ok.inj htext
  obtain ⟨c', hparse, hsame, hwires, hleast⟩ :=
    Circuit.exists_parseCircuit_text hc.wiresFit hc.luts hc.fits hlines
  have hmax := hleast c.maxWireNumber hc.wires
  exact ⟨c', by rw [parse, hparse]; rfl, hsame, hsame.portable hwires hmax hc, hmax⟩

/-- The layout of a circuit that is written in the Bristol format, and what is read back. -/
structure HasLayout (memory : Linearize.Memory) (c : Circuit) (text : List UInt8)
    (L : Layout c) : Prop where
  run : Linearize.run memory c = .ok L.circuit
  ordered : L.Ordered
  write : (EmitBristol.writeCircuit L.circuit none).mapError .emitBristol
    = (.ok text : Outcome Error (List UInt8))
  convertible : L.circuit.Convertible
  parse : LinesFit .bristol text → parse text .bristol = .ok L.circuit.withoutLuts

/-- The pass that renumbers the wires only returns if its sums fit in 64 bits. -/
theorem budgetFits_of_run (hc : c.Portable) {memory : Linearize.Memory} {c₂ : Circuit}
    (hrun : Linearize.run memory c = .ok c₂) :
  c.BudgetFits
  := by
  have hpos := List.length_pos_of_ne_nil hc.outputs_ne_nil
  have hbudget : c.wireBudget < 2 ^ 64 := by
    by_contra hbudget
    rw [Linearize.run, check_of hc.counted, Outcome.ok_bind, check_not hbudget] at hrun
    contradiction
  exact ⟨hc.counted, hbudget, by omega⟩

/-- The Bristol text of a portable circuit is that of a layout. -/
theorem exists_hasLayout (hc : c.Portable) {memory : Linearize.Memory} {text : List UInt8}
    (htext : emitBristol memory c = .ok text) :
  ∃ L : Layout c, HasLayout memory c text L
  := by
  obtain ⟨c₂, hrun, hwrite⟩ := Outcome.bind_eq_ok.mp htext
  rw [Outcome.mapError_eq_ok] at hrun
  obtain ⟨L, heq, hordered⟩ := Linearize.run_ordered memory hc.renumberable
    (budgetFits_of_run hc hrun) (fun n hn => hc.sliceInRange hn)
  have hrun' := hrun
  rw [heq, Outcome.ok.injEq] at hrun'
  obtain rfl := hrun'
  obtain ⟨rfl, hmax, hgates⟩ := EmitBristol.text_of_writeCircuit (Outcome.mapError_eq_ok.mp hwrite)
  have hfree : L.circuit.LutFree := fun n hn => (hgates n hn).2
  have hbudget : L.circuit.wireBudget + 1 < 2 ^ 64 := by
    rw [L.circuit_wireBudget hc.renumberable]
    apply hmax
  refine ⟨L, heq, hordered, hwrite, ⟨hfree, hbudget⟩, ?_⟩
  intro hlines
  have hlinear := L.circuit_linear hc.renumberable
  have hshape := L.circuit_bristolShape hc.toAdmissible (L.lutFree_of_circuit hfree)
    hc.outputs_ne_nil hc.outputs_driven
  have hinputs : L.circuit.inputs.length < 2 ^ 64 := by
    have hle := Linearize.inputs_length_le hc.renumberable
    have hadd := Layout.lastInner_add hc.renumberable
    have hlength : L.circuit.inputs.length = c.inputs.length := List.length_range
    have hbudget : L.circuit.maxWireNumber = c.wireBudget := rfl
    omega
  have hparse := BristolParser.parseBristol_text_of_lines hshape
    (fun n hn w hw => hlinear.wires w (Circuit.mem_mentioned_of_node hn hw)) hmax hinputs hlines
  rw [Command.parse, hparse]
  rfl

/-- The linearized circuit of a convertible circuit can be written in the Bristol format. -/
theorem exists_writeBristol (hc : c.Portable) (hconvertible : c.Convertible)
    (memory : Linearize.Memory) :
  ∃ L : Layout c, Linearize.run memory c = .ok L.circuit
    ∧ EmitBristol.writeCircuit L.circuit none = .ok (EmitBristol.text L.circuit)
  := by
  obtain ⟨L, heq⟩ := Linearize.run_eq memory hc.toAdmissible (.of_lt hconvertible.budget)
  have hshape := L.circuit_bristolShape hc.toAdmissible hconvertible.lutFree hc.outputs_ne_nil
    hc.outputs_driven
  exact ⟨L, heq, EmitBristol.writeCircuit_eq hconvertible.budget hshape.gates⟩

/-- A convertible circuit can be written in the Bristol format. -/
theorem exists_emitBristol (hc : c.Portable) (hconvertible : c.Convertible)
    (memory : Linearize.Memory) :
  ∃ text, emitBristol memory c = .ok text
  := by
  obtain ⟨L, heq, hwrite⟩ := exists_writeBristol hc hconvertible memory
  use EmitBristol.text L.circuit
  rw [emitBristol, heq]
  simp only [Outcome.mapError, Outcome.ok_bind, hwrite]

/-! ### Properties that survive conversions -/

/-- A property of portable circuits survives reading a SynCirc text of the circuit, and
linearizing a circuit that is written in the Bristol format. -/
structure Survives (R : Circuit → Prop) : Prop where
  sameLines : ∀ {c c' : Circuit}, c.Portable → R c → Circuit.SameLines c c' → c'.Portable →
    c'.maxWireNumber ≤ c.maxWireNumber → R c'
  linearized : ∀ {c : Circuit} (L : Layout c), c.Portable → R c → L.circuit.Convertible →
    L.circuit.Portable → R L.circuit

/-- Two properties survive together. -/
theorem Survives.and {R' : Circuit → Prop} (h : Survives R) (h' : Survives R') :
  Survives (fun c => R c ∧ R' c)
  where
    sameLines hc hR hsame hc' hmax :=
      ⟨h.sameLines hc hR.1 hsame hc' hmax, h'.sameLines hc hR.2 hsame hc' hmax⟩
    linearized L hc hR hconvertible hL :=
      ⟨h.linearized L hc hR.1 hconvertible hL, h'.linearized L hc hR.2 hconvertible hL⟩

/-- That the circuit is convertible, if it is assumed at all, survives. -/
theorem survives_convertible (p : Prop) :
  Survives (fun c => p → c.Convertible)
  where
    sameLines _ hR hsame _ hmax := fun hp => hsame.convertible hmax (hR hp)
    linearized _ _ _ hconvertible _ := fun _ => hconvertible

/-- The function survives. -/
theorem survives_function (f : List Bool → Outcome EvalCircuit.Error (List Bool)) :
  Survives (fun c => ∀ x, evaluateCircuit c x = f x)
  := by
  constructor
  · intro c c' hc hf hsame hc' _ x
    rw [hsame.evaluateCircuit_eq hc'.wires hc'.counted (hc.evaluateCircuit_ne_panic x), hf x]
  · intro c L hc hf hconvertible _ x
    have hbudget := hconvertible.budget
    rw [L.circuit_wireBudget hc.renumberable] at hbudget
    rw [L.evaluateCircuit_circuit hc.toAdmissible hbudget, hf x]

/-- The SynCirc text of a circuit is one of a circuit with what survives. -/
theorem Survives.isTextOf_syncirc (h : Survives R) (hc : c.Portable) (hR : R c)
    {text : List UInt8} (htext : emitSyncirc c = .ok text) :
  IsTextOf R .syncirc text
  := by
  apply isTextOf_of_linesFit
  intro hlines
  obtain ⟨c', hparse, hsame, hc', hmax⟩ := exists_parse_emitSyncirc hc htext hlines
  exact ⟨c', hparse, hc', h.sameLines hc hR hsame hc' hmax⟩

/-- The Bristol text of a circuit is one of a circuit with what survives. -/
theorem Survives.isTextOf_bristol (h : Survives R) (hc : c.Portable) (hR : R c)
    {memory : Linearize.Memory} {text : List UInt8} (htext : emitBristol memory c = .ok text) :
  IsTextOf R .bristol text
  := by
  obtain ⟨L, hL⟩ := exists_hasLayout hc htext
  have hportable := L.circuit_portable hc hL.convertible
  have hportable' := L.portable_withoutLuts hc hL.convertible
  have hRL := h.linearized L hc hR hL.convertible hportable
  apply isTextOf_of_linesFit
  intro hlines
  refine ⟨L.circuit.withoutLuts, hL.parse hlines, hportable', ?_⟩
  apply h.sameLines hportable hRL (L.sameLines_withoutLuts hL.convertible.lutFree) hportable'
    (Nat.le_refl _)

/-- Conversions keep what survives. -/
theorem Survives.keptFor (h : Survives R) (root : List UInt8) :
  KeptFor (IsTextOf R) root
  := by
  intro memory format text outputFormat text' format' htext hconvert hformat
  obtain ⟨c, hparse, hemit⟩ := Outcome.bind_eq_ok.mp hconvert
  obtain ⟨hc, hR⟩ := htext.portable c hparse
  cases outputFormat with
  | verilog => contradiction
  | syncirc =>
      cases hformat
      apply h.isTextOf_syncirc hc hR hemit
  | bristol =>
      cases hformat
      apply h.isTextOf_bristol hc hR hemit

/-- No conversion of a convertible circuit breaks off. -/
theorem writtenFor_isTextOf (h : ∀ c, R c → c.Convertible) (root : List UInt8) :
  WrittenFor (IsTextOf R) root
  := by
  intro memory format text outputFormat format' c c₂ htext hparse hformat hlower
  obtain ⟨hc, hR⟩ := htext.portable c hparse
  cases outputFormat with
  | verilog => contradiction
  | syncirc =>
      cases hlower
      apply exists_emitSyncirc hc
  | bristol =>
      obtain ⟨L, hrun, hwrite⟩ := exists_writeBristol hc (h c hR) memory
      rw [lower, hrun] at hlower
      cases hlower
      use EmitBristol.text L.circuit
      rw [writeCircuit, hwrite]
      rfl

/-! ### Evaluating converted circuits -/

/-- The root name of the file at a path. -/
def rootOf (path : List UInt8) (input : Input) : List UInt8 :=
  rootName (basename path) input.format.extension

/-- The file at the path is the only text of its circuit in its directory. -/
def IsOnlyText (fs : FileSystem) (path : List UInt8) (input : Input) : Prop :=
  ∀ format : InputFormat, format ≠ input.format →
    fs.dir input.dir (format.fileName (rootOf path input)) = none

variable {fs fs' : FileSystem} {path : List UInt8} {input : Input}

/-- Before any conversion, the texts of a circuit have a property of the only text. -/
theorem holds_of_readInput {P : InputFormat → List UInt8 → Prop}
    (hinput : readInput fs path = .ok input) (honly : IsOnlyText fs path input)
    (h : ∀ text, fs.dir input.dir (basename path) = some text →
      parse text input.format = .ok input.circuit → P input.format text) :
  Holds P input.dir (rootOf path input) fs
  := by
  obtain ⟨text, -, hname, htext, hparse⟩ := readInput_eq_ok hinput
  intro format text' htext'
  by_cases hformat : format = input.format
  · rw [hformat, rootOf, ← hname, htext, Option.some.injEq] at htext'
    rw [← htext', hformat]
    apply h text htext hparse
  · rw [honly format hformat] at htext'
    contradiction

/-- Before any conversion, the texts of a circuit are those of the circuit. -/
theorem holds_isTextOf (hinput : readInput fs path = .ok input)
    (honly : IsOnlyText fs path input) (hportable : input.circuit.Portable)
    (hR : R input.circuit) :
  Holds (IsTextOf R) input.dir (rootOf path input) fs
  := by
  refine holds_of_readInput hinput honly ?_
  intro text _ hparse
  refine ⟨fun _ => ⟨_, hparse⟩, ?_⟩
  intro c hc
  rw [hparse, Outcome.ok.injEq] at hc
  rw [← hc]
  exact ⟨hportable, hR⟩

/-- The circuit at a path of which `eval` reads a text. -/
theorem exists_readInput {text : List UInt8} {dir : Nat} {format : InputFormat}
    {root : List UInt8} (hdir : fs.handle (workingDir path) = some dir)
    (hname : basename path = format.fileName root)
    (htext : fs.dir dir (basename path) = some text) (hparse : parse text format = .ok c) :
  readInput fs path = .ok ⟨dir, format, c⟩
  := by
  rw [readInput, openDir, hdir, Outcome.ok_bind, hname, classifyFileExt_fileName]
  simp only [readCircuit, openFile, ← hname, htext, Outcome.ok_bind, hparse]
  rfl

/-- After conversions in the directory of a portable circuit, a text of the circuit whose lines fit
in the buffer of the parser is read as a portable circuit with everything that survives. -/
theorem exists_readInput_converted (hR : Survives R) (hinput : readInput fs path = .ok input)
    (hportable : input.circuit.Portable) (hRinput : R input.circuit)
    (honly : IsOnlyText fs path input)
    (hconverts : Relation.ReflTransGen (Converts input.circuit.Convertible) fs fs')
    {path' text : List UInt8} {format : InputFormat}
    (hpath : fs'.handle (workingDir path') = some input.dir)
    (hname : basename path' = format.fileName (rootOf path input))
    (htext : fs'.dir input.dir (basename path') = some text) (hlines : LinesFit format text) :
  ∃ c, readInput fs' path' = .ok ⟨input.dir, format, c⟩ ∧ c.Portable ∧ R c
  := by
  have hsurvives := hR.and (survives_convertible input.circuit.Convertible)
  have hwritten : input.circuit.Convertible →
      WrittenFor (IsTextOf (fun c => R c ∧ (input.circuit.Convertible → c.Convertible)))
        (rootOf path input) :=
    fun hconvertible => writtenFor_isTextOf (fun c hc => hc.2 hconvertible) _
  have hholds := (holds_isTextOf hinput honly hportable ⟨hRinput, id⟩).converts_all
    (hsurvives.keptFor (rootOf path input)) hwritten hconverts
  have hisText := hholds format text (hname ▸ htext)
  obtain ⟨c, hparse⟩ := hisText.readable hlines
  obtain ⟨hc, hRc, -⟩ := hisText.portable c hparse
  exact ⟨c, exists_readInput hpath hname htext hparse, hc, hRc⟩

/-- After any conversions in the directory of a portable circuit, `eval` prints for every text of
the circuit whose lines fit in the buffer of the parser what it prints for the circuit itself.
Conversions may fail if the circuit is convertible, otherwise they succeed. -/
theorem eval_converted (hinput : readInput fs path = .ok input)
    (hportable : input.circuit.Portable) (honly : IsOnlyText fs path input)
    (hconverts : Relation.ReflTransGen (Converts input.circuit.Convertible) fs fs')
    {path' text : List UInt8} {format : InputFormat}
    (hpath : fs'.handle (workingDir path') = some input.dir)
    (hname : basename path' = format.fileName (rootOf path input))
    (htext : fs'.dir input.dir (basename path') = some text) (hlines : LinesFit format text)
    (rawInputs : List (List UInt8)) :
  Eval.run (path' :: rawInputs) fs' = Eval.run (path :: rawInputs) fs
  := by
  obtain ⟨c, hread, -, hfunction⟩ := exists_readInput_converted
    (survives_function (evaluateCircuit input.circuit)) hinput hportable (fun _ => rfl) honly
    hconverts hpath hname htext hlines
  apply Eval.run_congr hinput hread hfunction

/-- A directory with one file, the text of an AND gate. -/
def andDir : Dir :=
  Function.update (fun _ => none) (bytes "and.syncirc") (some (bytes "C 0 1\nA 0 1 2\nO 2\n"))

/-- A file system with this directory, under two paths. -/
def andFiles : FileSystem where
  handle := fun path => if path = bytes "." ∨ path = bytes "./." then some 0 else none
  dir := fun _ => andDir

/-- The AND gate. -/
def andCircuit : Circuit := ⟨[.and 0 1 2], [], [0, 1], [2], [], 2⟩

theorem readInput_andFiles :
  readInput andFiles (bytes "and.syncirc") = .ok ⟨0, .syncirc, andCircuit⟩
  := by
  have hparse : parse (bytes "C 0 1\nA 0 1 2\nO 2\n") .syncirc = .ok andCircuit := by
    decide +kernel
  have hname : basename (bytes "and.syncirc") = InputFormat.syncirc.fileName (bytes "and") := by
    decide
  have hdir : andFiles.handle (workingDir (bytes "and.syncirc")) = some 0 := by decide
  have htext : andDir (basename (bytes "and.syncirc")) = some (bytes "C 0 1\nA 0 1 2\nO 2\n") := rfl
  apply exists_readInput hdir hname htext hparse

/-- The text of the AND gate in the Bristol format. -/
def andBristol : List UInt8 := bytes "1 3\n2 1\n\n2 1 0 1 2 AND\n"

/-- The file system with both texts. -/
def andFiles₂ : FileSystem := andFiles.writeFile 0 (bytes "and.bristol") andBristol

/-- The AND gate is converted to the Bristol format. -/
theorem converts_andFiles (mayFail : Prop) :
  Converts mayFail andFiles andFiles₂
  := by
  have hargs : parseArgs defaultOptions [bytes "-f", bytes "bristol", bytes "and.syncirc"]
      = .ok ⟨some (bytes "and.syncirc"), .bristol⟩ := rfl
  have hlower : lower (.filled 0) andCircuit .bristol = .ok andCircuit := by decide +kernel
  have hwrite : writeCircuit (bytes "and") andCircuit .bristol = .ok andBristol := by
    decide +kernel
  have hprepare : prepare (.filled 0) [bytes "-f", bytes "bristol", bytes "and.syncirc"] andFiles
      = .ok ⟨0, bytes "and.bristol", .ok andBristol⟩ := by
    rw [prepare, hargs, Outcome.ok_bind]
    simp only [readInput_andFiles, Outcome.ok_bind, hlower]
    rw [show rootName (basename (bytes "and.syncirc")) InputFormat.syncirc.extension = bytes "and"
      by decide, hwrite]
    rfl
  use .filled 0, [], [bytes "-f", bytes "bristol", bytes "and.syncirc"]
  rw [Convert.run, hprepare]
  exact ⟨rfl, .inl rfl⟩

theorem andCircuit_portable :
  andCircuit.Portable
  := by
  refine ⟨⟨⟨by decide, by decide⟩, by decide, by decide⟩, by decide, by decide, ?_, by decide⟩
  simp only [Circuit.Driven]
  decide

theorem isOnlyText_andFiles :
  IsOnlyText andFiles (bytes "and.syncirc") ⟨0, .syncirc, andCircuit⟩
  := by
  intro format hformat
  cases format with
  | bristol =>
      have hroot : rootOf (bytes "and.syncirc") ⟨0, .syncirc, andCircuit⟩ = bytes "and" := by
        decide
      have hne : InputFormat.bristol.fileName (bytes "and") ≠ bytes "and.syncirc" := by decide
      have hnone : andDir (InputFormat.bristol.fileName (bytes "and")) = none := by
        rw [andDir, Function.update_of_ne hne]
      rw [hroot]
      apply hnone
  | syncirc => contradiction

theorem linesFit_andBristol :
  LinesFit .bristol andBristol
  := by
  rw [LinesFit]
  decide +kernel

theorem eval_converted_andFiles :
  ∃ fs', Relation.ReflTransGen (Converts andCircuit.Convertible) andFiles fs'
    ∧ Eval.run [bytes "././and.bristol", bytes "1", bytes "1"] fs'
      = Eval.run [bytes "and.syncirc", bytes "1", bytes "1"] andFiles
    ∧ Eval.run [bytes "and.syncirc", bytes "1", bytes "1"] andFiles = .ok (bytes "1\n")
  := by
  have hpath : andFiles₂.handle (workingDir (bytes "././and.bristol")) = some 0 := by decide
  have hname : basename (bytes "././and.bristol") = bytes "and.bristol" := by decide
  have hroot : rootOf (bytes "and.syncirc") ⟨0, .syncirc, andCircuit⟩ = bytes "and" := by decide
  have htext : andFiles₂.dir 0 (basename (bytes "././and.bristol")) = some andBristol := by
    rw [hname, andFiles₂, FileSystem.dir_writeFile_self]
  use andFiles₂, .single (converts_andFiles _)
  constructor
  · apply eval_converted readInput_andFiles andCircuit_portable isOnlyText_andFiles
      (.single (converts_andFiles _)) hpath _ htext linesFit_andBristol
    rw [hname, hroot]
    decide
  · have heval : evaluateCircuit andCircuit [true, true] = .ok [true] := by decide
    apply Eval.run_eq_ok readInput_andFiles heval (List.cons_ne_nil _ _)
    decide

end Command

end SynCirc
