import SynCirc.Command.Preservation
import SynCirc.Linearize.Memory

/-!
# The Bristol text of a circuit

A circuit without lookup tables has one Bristol text.  The pass that renumbers the wires gives the
same circuit whatever memory holds, and gives a linearized circuit back, and reading a text gives
the circuit that has been written.  So every text that conversions make of the circuit is converted
to the same Bristol text, byte for byte, as the circuit itself (`Command.bristol_converted`).
-/

namespace SynCirc

open Zig Linearize

/-! ### Circuits without lookup tables -/

/-- A portable circuit without lookup tables and with no number above the mentioned wires. -/
structure Circuit.Plain (c : Circuit) : Prop extends c.Portable where
  lutFree : c.LutFree
  withoutLuts_eq : c.withoutLuts = c
  maxWireNumber_eq : c.maxWireNumber = c.maxMentioned

namespace Circuit.Plain

variable {c : Circuit}

theorem packed (hc : c.Plain) :
  c.Packed
  := by
  rw [← hc.withoutLuts_eq]
  apply Circuit.withoutLuts_packed hc.lutFree

theorem lutsCovered (hc : c.Plain) :
  c.LutsCovered
  := by
  have hluts : c.luts = [] := by
    rw [← hc.withoutLuts_eq]
    rfl
  intro j hj
  rw [hluts] at hj
  apply absurd hj (Nat.not_lt_zero j)

end Circuit.Plain

namespace Layout

variable {c : Circuit} (L : Layout c)

/-- The linearized circuit of a circuit without lookup tables. -/
theorem circuit_plain (hc : c.Plain) (hconvertible : L.circuit.Convertible) :
  L.circuit.Plain
  := by
  have hlinear := L.circuit_linear hc.renumberable
  have hshape := L.circuit_bristolShape hc.toAdmissible hc.lutFree hc.outputs_ne_nil
    hc.outputs_driven
  have hluts : c.luts = [] ∧ c.lutTables = [] := by
    rw [← hc.withoutLuts_eq]
    exact ⟨rfl, rfl⟩
  have hnil : L.luts = [] := by
    rw [← List.length_eq_zero_iff, L.luts_length, hluts.1]
    rfl
  have hwithout : L.circuit.withoutLuts = L.circuit := by
    rw [Circuit.withoutLuts, circuit, hnil, hluts.2]
  refine ⟨L.circuit_portable hc.toPortable hconvertible, hconvertible.lutFree, hwithout, ?_⟩
  symm
  apply BristolParser.foldl_max_eq (Nat.zero_le _) hlinear.wires
  right
  obtain ⟨n, hn, hw⟩ := hshape.top
  apply Circuit.mem_mentioned_of_node hn hw

/-- Linearizing the linearized circuit of a circuit without lookup tables gives it back. -/
theorem run_circuit (hc : c.Plain) (hordered : L.Ordered) (hconvertible : L.circuit.Convertible)
    (memory : Memory) :
  Linearize.run memory L.circuit = .ok L.circuit
  := by
  have hslices : ∀ n ∈ c.nodes, n.SliceInRange c.luts := fun n hn => hc.sliceInRange hn
  obtain ⟨L', heq, hordered'⟩ := Linearize.run_ordered memory
    (L.circuit_renumberable hc.renumberable) (.of_lt hconvertible.budget)
    (fun n hn => L.circuit_sliceInRange hslices hn)
  have hrename : ∀ w ∈ L.circuit.mentioned, L'.rename w = w :=
    fun w hw => L.again_rename L' hc.renumberable hordered hordered' hw
  rw [heq, L.again_circuit L' hc.renumberable hrename hslices hc.lutsCovered]

end Layout

/-! ### Reading circuits without lookup tables -/

/-- Only lines of lookup tables add to `luts` and `lutTables`. -/
theorem Parser.foldl_absorb_luts (ls : List Parser.Line) (parser : Circuit)
    (h : (ls.foldl Parser.absorb parser).LutFree) :
  parser.LutFree ∧ (ls.foldl Parser.absorb parser).luts = parser.luts
    ∧ (ls.foldl Parser.absorb parser).lutTables = parser.lutTables
  := by
  induction ls generalizing parser with
  | nil => exact ⟨h, rfl, rfl⟩
  | cons l ls ih =>
      obtain ⟨hfree, hluts, htables⟩ := ih _ h
      rw [List.foldl_cons, hluts, htables]
      cases l with
      | inputs ws => exact ⟨hfree, rfl, rfl⟩
      | outputs ws => exact ⟨hfree, rfl, rfl⟩
      | gate n =>
          refine ⟨?_, rfl, rfl⟩
          intro n' hn'
          apply hfree n' (List.mem_append_left _ hn')
      | lut ws output table =>
          have hlut := hfree _ (List.mem_append_right _ (List.mem_singleton_self _))
          contradiction

theorem BristolParser.foldl_join_luts (cs : List Circuit) (parser : Circuit) :
  (cs.foldl BristolParser.join parser).luts = parser.luts
    ∧ (cs.foldl BristolParser.join parser).lutTables = parser.lutTables
  := by
  induction cs generalizing parser with
  | nil => exact ⟨rfl, rfl⟩
  | cons c cs ih => apply ih

namespace Command

open SynCirc.Command.Convert

variable {c : Circuit}

/-- A circuit without lookup tables is read without the arrays of lookup tables. -/
theorem withoutLuts_of_parse {format : InputFormat} {text : List UInt8}
    (h : parse text format = .ok c) (hfree : c.LutFree) :
  c.withoutLuts = c
  := by
  have hluts : c.luts = [] ∧ c.lutTables = [] := by
    cases format with
    | syncirc =>
        have hparse := Outcome.mapError_eq_ok.mp h
        rw [parseCircuit_eq] at hparse
        obtain ⟨ls, -, hparse⟩ := Outcome.bind_eq_ok.mp hparse
        obtain rfl := Outcome.ok.inj hparse
        apply (Parser.foldl_absorb_luts ls _ hfree).2
    | bristol =>
        have hparse := Outcome.mapError_eq_ok.mp h
        rw [parseBristol_eq] at hparse
        obtain ⟨⟨parser, stream⟩, hheader, hparse⟩ := Outcome.bind_eq_ok.mp hparse
        obtain ⟨cs, -, hparse⟩ := Outcome.bind_eq_ok.mp hparse
        obtain rfl := Outcome.ok.inj hparse
        obtain ⟨hluts, htables⟩ := BristolParser.foldl_join_luts cs parser
        rw [BristolParser.parseHeader] at hheader
        obtain ⟨_, -, hheader⟩ := Outcome.bind_eq_ok.mp hheader
        obtain ⟨_, -, hheader⟩ := Outcome.bind_eq_ok.mp hheader
        obtain ⟨_, -, hheader⟩ := Outcome.bind_eq_ok.mp hheader
        obtain ⟨_, -, hheader⟩ := Outcome.bind_eq_ok.mp hheader
        obtain ⟨_, -, hheader⟩ := Outcome.bind_eq_ok.mp hheader
        cases hheader
        exact ⟨hluts, htables⟩
  rw [Circuit.withoutLuts, ← hluts.1, ← hluts.2]

/-- The SynCirc text of a circuit without lookup tables is read back. -/
theorem parse_emitSyncirc (hc : c.Plain) {text : List UInt8}
    (htext : emitSyncirc c = .ok text) (hlines : LinesFit .syncirc text) :
  parse text .syncirc = .ok c
  := by
  rw [emitSyncirc, Emit.writeCircuit_eq hc.luts hc.fits] at htext
  obtain rfl := Outcome.ok.inj htext
  rw [parse, Parser.parseCircuit_text hc.wiresFit hc.packed hc.fits hlines, ← hc.maxWireNumber_eq]
  rfl

/-- The circuit is plain, and it is converted to the Bristol text. -/
structure HasBristol (bristol : List UInt8) (c : Circuit) : Prop where
  plain : c.Plain
  emit : ∀ memory, emitBristol memory c = .ok bristol

/-- A circuit that can be written in the Bristol format has one Bristol text, and what is read from
it has the same one. -/
theorem exists_hasBristol {text bristol : List UInt8} {format : InputFormat}
    {memory : Memory} (hportable : c.Portable) (hmax : c.maxWireNumber = c.maxMentioned)
    (hparse : parse text format = .ok c) (hemit : emitBristol memory c = .ok bristol) :
  HasBristol bristol c ∧ ∃ c₂, HasBristol bristol c₂
    ∧ (LinesFit .bristol bristol → parse bristol .bristol = .ok c₂)
  := by
  obtain ⟨L, hL⟩ := exists_hasLayout hportable hemit
  have hfree := L.lutFree_of_circuit hL.convertible.lutFree
  have hplain : c.Plain := ⟨hportable, hfree, withoutLuts_of_parse hparse hfree, hmax⟩
  have hplainL := L.circuit_plain hplain hL.convertible
  constructor
  · use hplain
    intro memory'
    rw [emitBristol, (related_run hplain.lutsCovered memory memory').eq, hL.run]
    apply hL.write
  · refine ⟨L.circuit, ⟨hplainL, ?_⟩, ?_⟩
    · intro memory'
      rw [emitBristol, L.run_circuit hplain hL.ordered hL.convertible memory']
      apply hL.write
    · intro hlines
      rw [hL.parse hlines, hplainL.withoutLuts_eq]

/-! ### Conversions -/

/-- The circuit in the text has the Bristol text, and it can be read if the lines of the text fit in
the buffer of the parser.  A Bristol text is this one, unless it is the one that was there first. -/
structure IsFormOf (bristol : List UInt8) (first : Option (List UInt8)) (format : InputFormat)
    (text : List UInt8) : Prop where
  readable : LinesFit format text → ∃ c, parse text format = .ok c
  hasBristol : ∀ c, parse text format = .ok c → HasBristol bristol c
  bristol : format = .bristol → text = bristol ∨ first = some text

/-- Conversions keep the Bristol text. -/
theorem keptFor_isFormOf (bristol : List UInt8) (first : Option (List UInt8))
    (root : List UInt8) :
  KeptFor (IsFormOf bristol first) root
  := by
  intro memory format text outputFormat text' format' htext hconvert hformat
  obtain ⟨c, hparse, hemit⟩ := Outcome.bind_eq_ok.mp hconvert
  have hc := htext.hasBristol c hparse
  cases outputFormat with
  | verilog => contradiction
  | syncirc =>
      cases hformat
      refine ⟨?_, ?_, fun h => by contradiction⟩
      · intro hlines
        use c
        apply parse_emitSyncirc hc.plain hemit hlines
      · intro c' hparse'
        rw [parse_emitSyncirc hc.plain hemit (linesFit_of_parse hparse'),
          Outcome.ok.injEq] at hparse'
        rw [← hparse']
        apply hc
  | bristol =>
      cases hformat
      have heq : emitBristol memory c = .ok text' := hemit
      rw [hc.emit memory, Outcome.ok.injEq] at heq
      obtain ⟨-, c₂, hc₂, hread⟩ :=
        exists_hasBristol hc.plain.toPortable hc.plain.maxWireNumber_eq hparse (hc.emit memory)
      rw [← heq]
      refine ⟨fun hlines => ⟨c₂, hread hlines⟩, ?_, fun _ => .inl rfl⟩
      intro c' hparse'
      rw [hread (linesFit_of_parse hparse'), Outcome.ok.injEq] at hparse'
      rw [← hparse']
      apply hc₂

/-- No conversion of these texts breaks off. -/
theorem writtenFor_isFormOf (bristol : List UInt8) (first : Option (List UInt8))
    (root : List UInt8) :
  WrittenFor (IsFormOf bristol first) root
  := by
  intro memory format text outputFormat format' c c₂ htext hparse hformat hlower
  have hc := htext.hasBristol c hparse
  cases outputFormat with
  | verilog => contradiction
  | syncirc =>
      cases hlower
      apply exists_emitSyncirc hc.plain.toPortable
  | bristol =>
      have hemit := hc.emit memory
      use bristol
      rw [lower] at hlower
      rw [emitBristol, hlower] at hemit
      apply hemit

/-- Conversions to the Bristol format are confluent: whatever conversions take place in the
directory of a circuit that can be written in this format, whether they succeed or fail, every text
of the circuit is converted to the same bytes as the circuit itself, and the only other Bristol text
is the one it was read from. -/
theorem bristol_converted {fs fs' : FileSystem} {path bristol : List UInt8} {input : Input}
    {memory : Memory} (hinput : readInput fs path = .ok input)
    (hportable : input.circuit.Portable)
    (hmax : input.circuit.maxWireNumber = input.circuit.maxMentioned)
    (honly : IsOnlyText fs path input) (hemit : emitBristol memory input.circuit = .ok bristol)
    (hconverts : Relation.ReflTransGen (Converts True) fs fs') {format : InputFormat}
    {text : List UInt8}
    (htext : fs'.dir input.dir (format.fileName (rootOf path input)) = some text)
    (hlines : LinesFit format text) :
  (∀ memory' root, convertText memory' root text format .bristol = .ok bristol)
    ∧ (format = .bristol → text = bristol ∨ fs.dir input.dir (basename path) = some text)
  := by
  have hholds : Holds (IsFormOf bristol (fs.dir input.dir (basename path))) input.dir
      (rootOf path input) fs := by
    refine holds_of_readInput hinput honly ?_
    intro text₀ htext₀ hparse
    refine ⟨fun _ => ⟨_, hparse⟩, ?_, fun _ => .inr htext₀⟩
    intro c hc
    rw [hparse, Outcome.ok.injEq] at hc
    rw [← hc]
    apply (exists_hasBristol hportable hmax hparse hemit).1
  have hform := hholds.converts_all (keptFor_isFormOf bristol _ _)
    (fun _ => writtenFor_isFormOf bristol _ _) hconverts format text htext
  obtain ⟨c, hc⟩ := hform.readable hlines
  constructor
  · intro memory' root
    rw [convertText, hc]
    apply (hform.hasBristol c hc).emit memory'
  · apply hform.bristol

theorem bristol_converted_andFiles :
  ∃ fs', Relation.ReflTransGen (Converts True) andFiles fs'
    ∧ fs'.dir 0 (bytes "and.bristol") = some andBristol
    ∧ ∀ memory root, convertText memory root andBristol .bristol .bristol = .ok andBristol
  := by
  have hroot : rootOf (bytes "and.syncirc") ⟨0, .syncirc, andCircuit⟩ = bytes "and" := by
    decide
  have hname : InputFormat.bristol.fileName (bytes "and") = bytes "and.bristol" := by decide
  have htext : andFiles₂.dir 0 (bytes "and.bristol") = some andBristol :=
    FileSystem.dir_writeFile_self ..
  have hemit : emitBristol (.filled 0) andCircuit = .ok andBristol := by
    decide +kernel
  refine ⟨andFiles₂, .single (converts_andFiles _), htext, ?_⟩
  apply (bristol_converted readInput_andFiles andCircuit_portable rfl isOnlyText_andFiles hemit
    (.single (converts_andFiles _)) _ linesFit_andBristol).1
  rw [hroot, hname]
  apply htext

end Command

end SynCirc
