import SynCirc.Builder.Read
import SynCirc.EvalCircuit
import SynCirc.RoundTrip
import Mathlib.Algebra.BigOperators.Fin
import Mathlib.Tactic.Ring

/-!
# The order of the bits of a lookup table

The parameter `LUT` of a cell has the bit of the largest index first, the truth table of a circuit
has the bit of index 0 first, and the index is given by the inputs with the least significant one
first.  The lookup table that the builder makes from a cell has the value that the parameter says
(`buildLut_bit`), in every circuit that has this lookup table and in the circuit that is read back
from its text.
-/

namespace SynCirc

open Zig EvalCircuit

namespace EvalCircuit

/-- The inputs of a lookup table are the bits of the index, the least significant one first. -/
theorem indexFrom_eq_sum (bits : List Bool) {i index : Nat} (h : index < 2 ^ i) :
  indexFrom i index bits = index + 2 ^ i * ∑ k : Fin bits.length, (bits.get k).toNat * 2 ^ k.val
  := by
  induction bits generalizing i index with
  | nil => simp [indexFrom]
  | cons bit bits ih =>
      have hor : index ||| bit.toNat <<< i = index + bit.toNat * 2 ^ i := by
        cases bit with
        | false => simp
        | true => simp [Nat.shiftLeft_eq, Nat.or_two_pow_eq_add_of_lt h]
      have hlt : index + bit.toNat * 2 ^ i < 2 ^ (i + 1) := by
        have hbit := Nat.mul_le_mul_right (2 ^ i) (Bool.toNat_le bit)
        rw [Nat.pow_succ]
        omega
      rw [indexFrom, hor, ih hlt]
      simp only [List.length_cons, Fin.sum_univ_succ, List.get_eq_getElem, Fin.val_zero,
        List.getElem_cons_zero, Fin.val_succ, List.getElem_cons_succ, Nat.pow_succ]
      rw [Nat.mul_add, Finset.mul_sum, Finset.mul_sum, Nat.pow_zero, Nat.mul_one, Nat.add_assoc]
      congr 2
      · rw [Nat.mul_comm]
      · apply Finset.sum_congr rfl
        intro k _
        ring

theorem indexIntoTable_eq_sum (bits : List Bool) :
  indexIntoTable bits = ∑ k : Fin bits.length, (bits.get k).toNat * 2 ^ k.val
  := by
  rw [indexIntoTable, indexFrom_eq_sum bits (by decide)]
  simp

/-- A lookup table is evaluated to the bit of its table that its inputs say. -/
theorem evalLut_eq_ok {c : Circuit} {wireValues : WireValues}
    {offset tableOffset arity output : Nat} {ws : List Nat} {table : List Bool}
    (hinputs : (slice c.luts offset arity : Outcome Error (List Nat)) = .ok ws)
    (htable : (slice c.lutTables tableOffset (2 ^ arity) : Outcome Error (List Bool)) = .ok table)
    (harity : arity < 64) (hws : ∀ w ∈ ws, w < wireValues.len) (houtput : output < wireValues.len) :
  evalLut c wireValues offset tableOffset arity output
    = .ok (wireValues.set output (table.getD (indexIntoTable (ws.map wireValues.cell)) false))
  := by
  have hindex : indexIntoTable (ws.map wireValues.cell) < table.length := by
    have hlt := indexIntoTable_lt (ws.map wireValues.cell)
    rw [List.length_map, length_of_slice hinputs] at hlt
    rw [length_of_slice htable]
    apply hlt
  have hbit : (index table (indexIntoTable (ws.map wireValues.cell)) : Outcome Error Bool)
      = .ok (table.getD (indexIntoTable (ws.map wireValues.cell)) false) := by
    rw [index_eq_ok, List.getD_eq_getElem _ _ hindex, List.getElem?_eq_getElem hindex]
  rw [evalLut, hinputs, Outcome.ok_bind, check_of harity, Outcome.ok_bind, Nat.one_shiftLeft,
    htable, Outcome.ok_bind, Buffer.mapM_read hws, Outcome.ok_bind, hbit, Outcome.ok_bind,
    Buffer.write_of houtput]

/-- The value of a lookup table depends on what its line says only. -/
theorem evalLut_of_nodeLine {c : Circuit} {wireValues : WireValues} {n : Node} {ws : List Nat}
    {output : Nat} {table : List Bool} (hlut : n.LutInRange c.luts c.lutTables)
    (hline : Parser.nodeLine c n = .lut ws output table) (harity : ws.length < 64)
    (hws : ∀ w ∈ ws, w < wireValues.len) (houtput : output < wireValues.len) :
  ∃ offset tableOffset, n = .lut offset tableOffset ws.length output
    ∧ evalLut c wireValues offset tableOffset ws.length output
      = .ok (wireValues.set output (table.getD (indexIntoTable (ws.map wireValues.cell)) false))
  := by
  cases n with
  | lut offset tableOffset arity output' =>
      obtain ⟨rfl, rfl, rfl⟩ := Parser.Line.lut.inj hline
      have hlength := Parser.length_lutInputs hlut
      rw [hlength] at harity ⊢
      use offset, tableOffset, rfl
      apply evalLut_eq_ok (slice_of hlut.1) (slice_of hlut.2) harity hws houtput
  | _ => cases hline

end EvalCircuit

namespace Builder

open Netlist

/-- A cell that is a lookup table: the character string of its parameter `LUT`, which has a bit for
every index, the connections of its input `A` and the label of its output `Y`. -/
structure LutCell where
  cell : List (List UInt8 × Json)
  table : List UInt8
  inputs : List Bit
  output : Nat
  fields : ∃ parameters connections width items,
    readObject cell "parameters" = some parameters
    ∧ readObject cell "connections" = some connections
    ∧ readString parameters "WIDTH" = some width ∧ readWidth width = some inputs.length
    ∧ readArray connections "A" = some items ∧ items.mapM readBit = some inputs
    ∧ readPin connections "Y" = some output
    ∧ readString parameters "LUT" = some table
  length_table : table.length = 2 ^ inputs.length
  isBit : ∀ ch ∈ table, ch = 48 ∨ ch = 49

namespace LutCell

variable (l : LutCell)

/-- The index that the inputs say, with the first one as the least significant bit. -/
def index (env : Nat → Bool) : Nat :=
  ∑ i : Fin l.inputs.length, ((l.inputs.get i).value env).toNat * 2 ^ i.val

/-- The character of the parameter `LUT` at the index, counted from the end, is 1. -/
def bit (env : Nat → Bool) : Bool :=
  l.table.getD (2 ^ l.inputs.length - 1 - l.index env) 48 == 49

variable {l}

/-- The truth table of the cell, with the bit of index 0 first. -/
def truth (l : LutCell) : List Bool := (l.table.map (· == 49)).reverse

theorem mapM_readTableBit {table : List UInt8} (h : ∀ ch ∈ table, ch = 48 ∨ ch = 49) :
  table.mapM readTableBit = some (table.map (· == 49))
  := by
  induction table with
  | nil => rfl
  | cons ch table ih =>
      rw [List.forall_mem_cons] at h
      rw [List.mapM_cons, ih h.2]
      rcases h.1 with rfl | rfl
      · rfl
      · rfl

theorem readLut_cell (l : LutCell) :
  readLut l.cell = some (.gate (.lut l.truth) l.inputs l.output)
  := by
  obtain ⟨parameters, connections, width, items, hparameters, hconnections, hwidth, harity, hitems,
    hinputs, houtput, htable⟩ := l.fields
  have hlength : items.length = l.inputs.length := (forall₂_of_mapM hinputs).length_eq
  simp [readLut, hparameters, hconnections, hwidth, harity, hitems, hinputs, houtput, htable,
    mapM_readTableBit l.isBit, hlength, l.length_table, truth]

/-- The index is the one that the evaluation computes. -/
theorem indexIntoTable_eq_index (l : LutCell) (env : Nat → Bool) :
  indexIntoTable (l.inputs.map (Bit.value env)) = l.index env
  := by
  rw [indexIntoTable_eq_sum, index]
  apply Fintype.sum_equiv (finCongr (List.length_map _))
  intro k
  simp

/-- The bit of the truth table at the index is the character of the parameter. -/
theorem truth_getD (l : LutCell) (env : Nat → Bool) :
  l.truth.getD (l.index env) false = l.bit env
  := by
  have hlt := indexIntoTable_lt (l.inputs.map (Bit.value env))
  rw [l.indexIntoTable_eq_index, List.length_map, ← l.length_table] at hlt
  have hlength : (l.table.map (· == 49)).length = l.table.length := List.length_map _
  rw [truth, List.getD_eq_getElem?_getD, List.getElem?_reverse (by rw [hlength]; apply hlt),
    hlength, List.getElem?_map, bit, List.getD_eq_getElem?_getD, ← l.length_table,
    List.getElem?_eq_getElem (by omega)]
  rfl

end LutCell

/-- The wires of the connections carry the values of the connections. -/
theorem map_bitNumber {offset : Nat} {translations : WireTranslations} {inputs : List Bit}
    {values : Nat → Bool}
    (hconstants : ∀ b, .constant b ∈ inputs → values (constantNumber b) = b) :
  (inputs.map (bitNumber offset translations)).map values
    = inputs.map (Bit.value (fun label => values (translatedWireNumber offset translations label)))
  := by
  rw [List.map_map]
  apply List.map_congr_left
  intro bit hbit
  cases bit with
  | constant b => apply hconstants b hbit
  | net label => rfl

/-- The gate is a lookup table that is evaluated to the bit that the cell says. -/
def LutCell.EvaluatedBy (l : LutCell) (offset : Nat) (translations : WireTranslations)
    (c : Circuit) (wireValues : WireValues) (n : Node) : Prop :=
  ∃ lutOffset tableOffset arity output, n = .lut lutOffset tableOffset arity output
    ∧ evalLut c wireValues lutOffset tableOffset arity output
      = .ok (wireValues.set (translatedWireNumber offset translations l.output)
          (l.bit (fun label => wireValues.cell (translatedWireNumber offset translations label))))

/-- A gate with the line of the lookup table is evaluated to the bit that the cell says. -/
theorem LutCell.evaluatedBy_of_nodeLine (l : LutCell) {offset : Nat}
    {translations : WireTranslations} {c : Circuit} {wireValues : WireValues} {n : Node}
    (hlut : n.LutInRange c.luts c.lutTables)
    (hline : Parser.nodeLine c n = .lut (l.inputs.map (bitNumber offset translations))
      (translatedWireNumber offset translations l.output) l.truth)
    (harity : l.inputs.length < 64)
    (hws : ∀ w ∈ l.inputs.map (bitNumber offset translations), w < wireValues.len)
    (houtput : translatedWireNumber offset translations l.output < wireValues.len)
    (hconstants : ∀ b, .constant b ∈ l.inputs → wireValues.cell (constantNumber b) = b) :
  l.EvaluatedBy offset translations c wireValues n
  := by
  obtain ⟨lutOffset, tableOffset, rfl, heval⟩ := evalLut_of_nodeLine hlut hline
    (by rw [List.length_map]; apply harity) hws houtput
  refine ⟨lutOffset, tableOffset, _, _, rfl, ?_⟩
  rw [heval, map_bitNumber hconstants, l.indexIntoTable_eq_index, l.truth_getD]

/-- A label whose wire is found and its offset add up to a wire number. -/
theorem fits_of_translateWireNumber {offset l w : Nat} {translations : WireTranslations}
    (h : translateWireNumber offset translations l = .ok w) :
  l + offset < 2 ^ 64
  := by
  obtain ⟨n, hn, _⟩ := Outcome.bind_eq_ok.mp h
  apply (add_eq_ok.mp hn).1

/-- The label of a connection whose wire is found and its offset add up to a wire number. -/
theorem labelsFit_of_lutInput {offset w : Nat} {translations : WireTranslations} {j : Json}
    {bit : Bit} (h : readBit j = some bit) (hok : lutInput offset translations j = .ok w) :
  LabelsFit offset (nets [bit])
  := by
  rcases readBit_eq_some h with ⟨label, rfl, rfl⟩ | ⟨b, rfl, rfl⟩
  · rw [lutInput, intCast_natCast, Outcome.ok_bind] at hok
    intro l hl
    obtain rfl := List.mem_singleton.mp hl
    apply fits_of_translateWireNumber hok
  · intro l hl
    cases hl

theorem fits_of_pin {offset l w : Nat} {translations : WireTranslations}
    {connections : List (List UInt8 × Json)} {name : String} (h : readPin connections name = some l)
    (hok : pin offset translations connections name = .ok w) :
  l + offset < 2 ^ 64
  := by
  obtain ⟨j, hj, hwire⟩ := Option.bind_eq_some_iff.mp h
  rw [pin, Json.field_eq_ok.mpr hj, Outcome.ok_bind, readWire_eq_some hwire, firstWire,
    Json.asArray, Outcome.ok_bind, index, List.getElem?_cons_zero, Outcome.ok_bind, Json.asInteger,
    Outcome.ok_bind, intCast_natCast, Outcome.ok_bind] at hok
  apply fits_of_translateWireNumber hok

/-- The builder makes a lookup table of a cell if and only if the labels of its nets and the offset
add up to wire numbers. -/
theorem LutCell.exists_buildLut_eq (l : LutCell) (offset : Nat) (translations : WireTranslations)
    (luts : List Nat) (lutTables : List Bool) :
  (∃ r, buildLut offset translations l.cell luts lutTables = .ok r)
    ↔ LabelsFit offset (nets l.inputs ++ [l.output])
  := by
  constructor
  · rintro ⟨r, h⟩
    obtain ⟨parameters, connections, width, items, hparameters, hconnections, hwidth, harity,
      hitems, hinputs, houtput, htable⟩ := l.fields
    obtain ⟨hparse, hlt⟩ := readWidth_eq_some harity
    rw [buildLut, field_object_bind hparameters, field_object_bind hconnections,
      field_string_bind hwidth, hparse] at h
    simp only [Outcome.mapError, Outcome.ok_bind, check_of hlt] at h
    rw [field_array_bind hitems] at h
    obtain ⟨_, _, h⟩ := Outcome.bind_eq_ok.mp h
    obtain ⟨ws, hws, h⟩ := Outcome.bind_eq_ok.mp h
    obtain ⟨y, hy, _⟩ := Outcome.bind_eq_ok.mp h
    rw [LabelsFit, List.forall_mem_append]
    constructor
    · intro label hlabel
      obtain ⟨j, hj, hread⟩ := exists_mem_of_forall₂ (forall₂_of_mapM hinputs) (mem_nets.mp hlabel)
      obtain ⟨w, _, hw⟩ := exists_mem_of_forall₂ (Outcome.forall₂_of_mapM_eq_ok hws).flip hj
      apply labelsFit_of_lutInput hread hw label List.mem_cons_self
    · intro label hlabel
      obtain rfl := List.mem_singleton.mp hlabel
      apply fits_of_pin houtput hy
  · intro hfits
    obtain ⟨_, _, _, _, _, _, hbuild⟩ :=
      buildLut_eq translations l.readLut_cell hfits luts lutTables
    exact ⟨_, hbuild⟩

/-- The builder makes a lookup table of a cell, after any other lookup tables, unless the label of
some net and the offset add up to more than a wire number; after the module of the cell is entered,
they do not.  In every circuit whose lookup tables begin with these, the lookup table is evaluated
to the character of the parameter `LUT` that the inputs say, counted from the end.  A circuit with
this gate has a text, and the gate at the same place of the circuit that is read back from the text
is evaluated to the same character, if the lines of the text are short enough for the parser. -/
theorem buildLut_bit (l : LutCell) (offset : Nat) (translations : WireTranslations)
    (luts : List Nat) (lutTables : List Bool) :
  ((∃ r, buildLut offset translations l.cell luts lutTables = .ok r)
      ↔ LabelsFit offset (nets l.inputs ++ [l.output]))
    ∧ ∀ luts' lutTables' n,
      buildLut offset translations l.cell luts lutTables = .ok (luts', lutTables', n) →
      ∀ (c : Circuit) (wireValues : WireValues), luts' <+: c.luts → lutTables' <+: c.lutTables →
        (∀ w ∈ n.wires c.luts, w < wireValues.len) →
        (∀ b, .constant b ∈ l.inputs → wireValues.cell (constantNumber b) = b) →
        l.EvaluatedBy offset translations c wireValues n
        ∧ ∀ k : Nat, c.nodes[k]? = some n → c.WiresFit →
          (∀ m ∈ c.nodes, m.LutInRange c.luts c.lutTables ∧ m.arityFits = true) →
          ∃ text, Emit.writeCircuit c none = .ok text
            ∧ ((∀ line ∈ lines text, line.length < Parser.maxLineLen) →
              ∃ c' n', parseCircuit text = .ok c' ∧ c'.nodes[k]? = some n'
                ∧ l.EvaluatedBy offset translations c' wireValues n')
  := by
  have hreturns := l.exists_buildLut_eq offset translations luts lutTables
  use hreturns
  intro luts' lutTables' n hbuilds
  obtain ⟨inputs, output, truth, hcell, harity, htruth, hbuild⟩ :=
    buildLut_eq translations l.readLut_cell (hreturns.mp ⟨_, hbuilds⟩) luts lutTables
  obtain ⟨hgate, rfl, rfl⟩ := Cell.gate.inj hcell
  obtain rfl := Gate.lut.inj hgate
  rw [hbuild] at hbuilds
  cases hbuilds
  intro c wireValues hluts htables hwires hconstants
  obtain ⟨hbuilt, hbuiltLine⟩ := Parser.nodeLine_of_append
    (c := ⟨[], luts ++ l.inputs.map (bitNumber offset translations), [], [], lutTables ++ l.truth,
      0⟩) rfl rfl (by rw [List.length_map]; apply htruth)
    (translatedWireNumber offset translations l.output)
  rw [List.length_map] at hbuilt hbuiltLine
  obtain ⟨hlut, hline⟩ := Parser.nodeLine_of_extends hbuilt hluts htables
  rw [hbuiltLine] at hline
  have hreads : ∀ w ∈ l.inputs.map (bitNumber offset translations), w < wireValues.len := by
    rw [← (Parser.Line.lut.inj hline).1]
    intro w hw
    apply hwires w (List.mem_append_left _ hw)
  have houtput : translatedWireNumber offset translations l.output < wireValues.len :=
    hwires _ (List.mem_append_right _ List.mem_cons_self)
  use l.evaluatedBy_of_nodeLine hlut hline harity hreads houtput hconstants
  intro k hk hfit hnodes
  have hrange := fun m hm => (hnodes m hm).1
  have hfits := fun m hm => (hnodes m hm).2
  use Emit.text c, Emit.writeCircuit_eq hrange hfits
  intro hlines
  have hread := Parser.hasLines_allLines hrange
  have hkline : (c.nodes.map (Parser.nodeLine c))[k]?
      = some (.lut (l.inputs.map (bitNumber offset translations))
        (translatedWireNumber offset translations l.output) l.truth) := by
    rw [List.getElem?_map, hk, Option.map_some, hline]
  rw [← hread.lines, List.getElem?_map, Option.map_eq_some_iff] at hkline
  obtain ⟨n', hn', hline'⟩ := hkline
  refine ⟨_, n', Parser.parseCircuit_text_eq hfit hrange hfits hlines, hn', ?_⟩
  apply l.evaluatedBy_of_nodeLine (hread.luts n' (List.mem_of_getElem? hn')) hline' harity hreads
    houtput hconstants

/-- A lookup table of two inputs, the second of which is tied to 1, with the bit 1 at index 2. -/
def tiedCell : LutCell where
  cell := [(bytes "type", .string (bytes "$lut")),
    (bytes "parameters", .object [(bytes "LUT", .string (bytes "0100")),
      (bytes "WIDTH", .string (bytes "00000000000000000000000000000010"))]),
    (bytes "connections", .object [(bytes "A", .array [.integer 2, .string (bytes "1")]),
      (bytes "Y", .array [.integer 5])])]
  table := bytes "0100"
  inputs := [.net 2, .constant true]
  output := 5
  fields := ⟨_, _, _, _, rfl, rfl, rfl, rfl, rfl, rfl, rfl, rfl⟩
  length_table := rfl
  isBit := by
    have htable : bytes "0100" = [48, 49, 48, 48] := rfl
    rw [htable]
    simp

/-- A circuit with the lookup table after another one. -/
def tiedCircuit : Circuit where
  nodes := [.one 1, .lut 0 0 1 3, .lut 1 2 2 5]
  luts := [9, 2, 1]
  inputs := [9, 2]
  outputs := [3, 5]
  lutTables := [true, false, false, false, true, false]
  maxWireNumber := 9

/-- The wire 1 carries 1, and all other wires carry 0. -/
def tiedValues : WireValues := ⟨10, fun w => w == 1⟩

theorem buildLut_bit_tied :
  tiedCell.bit tiedValues.cell = true
    ∧ buildLut 0 (fun _ => none) tiedCell.cell [9] [true, false]
      = .ok (tiedCircuit.luts, tiedCircuit.lutTables, .lut 1 2 2 5)
    ∧ tiedCell.EvaluatedBy 0 (fun _ => none) tiedCircuit tiedValues (.lut 1 2 2 5)
    ∧ ∃ text c' n', Emit.writeCircuit tiedCircuit none = .ok text ∧ parseCircuit text = .ok c'
      ∧ c'.nodes[2]? = some n' ∧ tiedCell.EvaluatedBy 0 (fun _ => none) c' tiedValues n'
  := by
  have hbuilt : buildLut 0 (fun _ => none) tiedCell.cell [9] [true, false]
      = .ok (tiedCircuit.luts, tiedCircuit.lutTables, .lut 1 2 2 5) := rfl
  obtain ⟨-, heval⟩ := buildLut_bit tiedCell 0 (fun _ => none) [9] [true, false]
  obtain ⟨hdirect, hread⟩ := heval _ _ _ hbuilt tiedCircuit tiedValues (List.prefix_refl _)
    (List.prefix_refl _) (by decide) (by decide)
  obtain ⟨text, hwrite, hparse⟩ := hread 2 rfl (by rw [Circuit.WiresFit]; decide) (by decide)
  have htext : Emit.writeCircuit tiedCircuit none
      = .ok (bytes "C 9 2\n1 1\nL 9 3 10\nL 2 1 5 0010\nO 3 5\n") := by
    decide +kernel
  obtain ⟨c', n', hc', hn', hsame⟩ := hparse (by
    rw [htext] at hwrite
    obtain rfl := Outcome.ok.inj hwrite
    decide +kernel)
  exact ⟨by decide +kernel, hbuilt, hdirect, text, c', n', hwrite, hc', hn', hsame⟩

end Builder

end SynCirc
