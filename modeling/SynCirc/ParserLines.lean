import SynCirc.Parser
import SynCirc.Zig.Scan

/-!
# The SynCirc text format: what the lines say

The parser reads every line apart from the circuit it has reached: what a line says is a `Line`, and
the circuit absorbs the lines in order (`parseCircuit_eq`).

A line is read if it is well formed (`readLine_eq_ok`), and it stops the parser at a safety check if
it is the line of a lookup table with more than 255 inputs (`readLine_eq_panic`).  All other lines
are rejected with an error.
-/

namespace SynCirc

open Zig

namespace Parser

/-- What a line says: input wires, output wires, a gate, or a lookup table with its input wires, its
output wire and its truth table. -/
inductive Line where
  | inputs (ws : List Nat)
  | outputs (ws : List Nat)
  | gate (n : Node)
  | lut (ws : List Nat) (output : Nat) (table : List Bool)
  deriving DecidableEq, Repr

/-- The circuit after a line. -/
def absorb (parser : Circuit) : Line → Circuit
  | .inputs ws => { adjustMaxWireNumber parser ws with inputs := parser.inputs ++ ws }
  | .outputs ws => { adjustMaxWireNumber parser ws with outputs := parser.outputs ++ ws }
  | .gate n => addNode (adjustMaxWireNumber parser (n.wires [])) n
  | .lut ws output table =>
      addNode (adjustMaxWireNumber
        { parser with luts := parser.luts ++ ws, lutTables := parser.lutTables ++ table }
        (ws ++ [output]))
        (.lut parser.luts.length parser.lutTables.length ws.length output)

/-- The wires a line mentions. -/
def Line.wires : Line → List Nat
  | .inputs ws => ws
  | .outputs ws => ws
  | .gate n => n.wires []
  | .lut ws output _ => ws ++ [output]

/-- The largest wire number after lines. -/
theorem maxWireNumber_foldl_absorb (ls : List Line) (parser : Circuit) :
  (ls.foldl absorb parser).maxWireNumber
    = (ls.flatMap Line.wires).foldl max parser.maxWireNumber
  := by
  induction ls generalizing parser with
  | nil => rfl
  | cons l ls ih =>
      have hmax : (absorb parser l).maxWireNumber = l.wires.foldl max parser.maxWireNumber := by
        cases l <;> rfl
      rw [List.foldl_cons, ih, hmax, List.flatMap_cons, List.foldl_append]

/-! ### Gates -/

/-- The first wire numbers of a line. -/
def nextWires : Nat → List (List UInt8) → Outcome Error (List Nat)
  | 0, _ => return []
  | count + 1, iter => do
      let (w, iter) ← nextWire iter
      let ws ← nextWires count iter
      return w :: ws

/-- The number of wires on the line of a gate that is no lookup table, and the gate with the given
wires. -/
def gateOf (lineType : List UInt8) : Option (Nat × (List Nat → Node)) :=
  if lineType = bytes "0" then some (1, fun ws => .zero (ws.getD 0 0))
  else if lineType = bytes "1" then some (1, fun ws => .one (ws.getD 0 0))
  else if lineType = bytes "I" then some (2, fun ws => .inv (ws.getD 0 0) (ws.getD 1 0))
  else if lineType = bytes "A" then
    some (3, fun ws => .and (ws.getD 0 0) (ws.getD 1 0) (ws.getD 2 0))
  else if lineType = bytes "E" then
    some (3, fun ws => .xor (ws.getD 0 0) (ws.getD 1 0) (ws.getD 2 0))
  else if lineType = bytes "3" then
    some (4, fun ws => .and3 (ws.getD 0 0) (ws.getD 1 0) (ws.getD 2 0) (ws.getD 3 0))
  else if lineType = bytes "4" then
    some (5, fun ws =>
      .and4 (ws.getD 0 0) (ws.getD 1 0) (ws.getD 2 0) (ws.getD 3 0) (ws.getD 4 0))
  else none

/-- The bit a character of a truth table stands for. -/
def parseBit (raw : UInt8) : Outcome Error Bool := do
  let bit ← (parseInt 10 2 [raw]).mapError .parseInt
  return bit == 1

/-- What the tokens after `L` say. -/
def readLut : List (List UInt8) → Outcome Error Line
  | [] => .error .atLeastOneLutEntryExpected
  | [_] => .error .expectedOneOutput
  | penultimate :: last :: iter => do
      let (ws, penultimate, last) ← slideWindow [] penultimate last iter
      check .castOutOfRange (ws.length < 256)
      let output ← parseWire penultimate
      let table ← last.mapM parseBit
      return .lut ws output table

/-- What a line with the given first token and the tokens after it says. -/
def readTokens (iter : List (List UInt8)) (lineType : List UInt8) : Outcome Error Line :=
  if lineType = bytes "C" then do return .inputs (← iter.mapM parseWire)
  else if lineType = bytes "O" then do return .outputs (← iter.mapM parseWire)
  else if lineType = bytes "L" then readLut iter
  else match gateOf lineType with
    | some (count, make) => do return .gate (make (← nextWires count iter))
    | none => .error .unsupportedType

/-- What a line says. -/
def readLine (line : List UInt8) : Outcome Error Line :=
  if maxLineLen ≤ line.length then .error .streamTooLong else
  match tokenize line with
  | [] => .error .expectedType
  | lineType :: iter => readTokens iter lineType

/-! ### Reading a line apart from the circuit -/

theorem foldl_absorb_inputs (parser : Circuit) (ws : List Nat) :
  ws.foldl (fun parser w =>
    { adjustMaxWireNumber parser [w] with inputs := parser.inputs ++ [w] }) parser
    = absorb parser (.inputs ws)
  := by
  induction ws generalizing parser with
  | nil => simp [absorb, adjustMaxWireNumber]
  | cons w ws ih =>
      rw [List.foldl_cons, ih]
      simp [absorb, adjustMaxWireNumber]

theorem foldl_absorb_outputs (parser : Circuit) (ws : List Nat) :
  ws.foldl (fun parser w =>
    { adjustMaxWireNumber parser [w] with outputs := parser.outputs ++ [w] }) parser
    = absorb parser (.outputs ws)
  := by
  induction ws generalizing parser with
  | nil => simp [absorb, adjustMaxWireNumber]
  | cons w ws ih =>
      rw [List.foldl_cons, ih]
      simp [absorb, adjustMaxWireNumber]

/-- The window appends to `luts` what it reads. -/
theorem slideWindow_append (luts : List Nat) (penultimate last : List UInt8)
    (iter : List (List UInt8)) :
  slideWindow luts penultimate last iter = (do
    let (ws, penultimate, last) ← slideWindow [] penultimate last iter
    return (luts ++ ws, penultimate, last))
  := by
  induction iter generalizing luts penultimate last with
  | nil => simp [slideWindow]
  | cons raw iter ih =>
      rw [slideWindow, slideWindow, bind_assoc]
      apply bind_congr
      intro w
      rw [ih (luts ++ [w]), ih ([] ++ [w]), bind_assoc]
      apply bind_congr
      intro r
      simp

theorem foldlM_parseTableBit_eq (lutTables : List Bool) (table : List UInt8) :
  table.foldlM parseTableBit lutTables = (do return lutTables ++ (← table.mapM parseBit))
  := by
  have happend : ∀ (bits lutTables : List Bool),
      bits.foldl (fun lutTables bit => lutTables ++ [bit]) lutTables = lutTables ++ bits := by
    intro bits
    induction bits with
    | nil => simp
    | cons bit bits ih => simp [ih]
  have hbit : ∀ lutTables raw, parseTableBit lutTables raw
      = (do return lutTables ++ [← parseBit raw]) := by
    intro lutTables raw
    simp [parseTableBit, parseBit]
  rw [Outcome.foldlM_eq_mapM hbit]
  simp only [happend]

theorem parseLut_eq_readLut (parser : Circuit) (iter : List (List UInt8)) :
  parseLut parser iter = (do return absorb parser (← readLut iter))
  := by
  match iter with
  | [] => rfl
  | [_] => rfl
  | penultimate :: last :: iter =>
      rw [parseLut, readLut]
      simp only
      rw [slideWindow_append]
      simp only [bind_assoc, pure_bind]
      apply bind_congr
      rintro ⟨ws, penultimate, last⟩
      have hcount : (parser.luts ++ ws).length - parser.luts.length = ws.length := by
        rw [List.length_append, Nat.add_sub_cancel_left]
      have hslice : (slice (parser.luts ++ ws) parser.luts.length ws.length
          : Outcome Error (List Nat)) = .ok ws := by
        rw [slice_of (Nat.le_of_eq List.length_append.symm), List.drop_left, List.take_length]
      simp only [hcount, foldlM_parseTableBit_eq, bind_assoc, pure_bind, hslice, Outcome.ok_bind]
      simp only [absorb, adjustMaxWireNumber, List.foldl_append]

section Gates

variable (parser : Circuit) (iter : List (List UInt8))

theorem parseConstant_eq (tag : Nat → Node) (htag : ∀ a, (tag a).wires [] = [a]) :
  parseConstant parser iter tag = (do
    let ws ← nextWires 1 iter
    return absorb parser (.gate (tag (ws.getD 0 0))))
  := by
  simp [parseConstant, nextWires, absorb, htag]

theorem parseOneInput_eq (tag : Nat → Nat → Node) (htag : ∀ a b, (tag a b).wires [] = [a, b]) :
  parseOneInput parser iter tag = (do
    let ws ← nextWires 2 iter
    return absorb parser (.gate (tag (ws.getD 0 0) (ws.getD 1 0))))
  := by
  simp [parseOneInput, nextWires, absorb, htag]

theorem parseTwoInput_eq (tag : Nat → Nat → Nat → Node)
    (htag : ∀ a b c, (tag a b c).wires [] = [a, b, c]) :
  parseTwoInput parser iter tag = (do
    let ws ← nextWires 3 iter
    return absorb parser (.gate (tag (ws.getD 0 0) (ws.getD 1 0) (ws.getD 2 0))))
  := by
  simp [parseTwoInput, nextWires, absorb, htag]

theorem parseThreeInput_eq (tag : Nat → Nat → Nat → Nat → Node)
    (htag : ∀ a b c d, (tag a b c d).wires [] = [a, b, c, d]) :
  parseThreeInput parser iter tag = (do
    let ws ← nextWires 4 iter
    return absorb parser
      (.gate (tag (ws.getD 0 0) (ws.getD 1 0) (ws.getD 2 0) (ws.getD 3 0))))
  := by
  simp [parseThreeInput, nextWires, absorb, htag]

theorem parseFourInput_eq (tag : Nat → Nat → Nat → Nat → Nat → Node)
    (htag : ∀ a b c d e, (tag a b c d e).wires [] = [a, b, c, d, e]) :
  parseFourInput parser iter tag = (do
    let ws ← nextWires 5 iter
    return absorb parser
      (.gate (tag (ws.getD 0 0) (ws.getD 1 0) (ws.getD 2 0) (ws.getD 3 0) (ws.getD 4 0))))
  := by
  simp [parseFourInput, nextWires, absorb, htag]

end Gates

/-- A line type stands for gates of a certain number of wires. -/
structure ReadsGate (lineType : List UInt8) (count : Nat) (make : List Nat → Node) : Prop where
  wires : ∀ luts ws, ws.length = count → (make ws).wires luts = ws
  isLut : ∀ ws, (make ws).isLut = false
  parseTokens_eq : ∀ parser iter, parseTokens parser iter lineType = (do
    let ws ← nextWires count iter
    return absorb parser (.gate (make ws)))

theorem readsGate_of_gateOf {lineType : List UInt8} {count : Nat} {make : List Nat → Node}
    (h : gateOf lineType = some (count, make)) :
  ReadsGate lineType count make
  := by
  unfold gateOf at h
  split at h
  case isTrue hline =>
    cases h
    rw [hline]
    refine ⟨?_, fun _ => rfl, fun parser iter => parseConstant_eq parser iter .zero (fun _ => rfl)⟩
    intro luts ws hws
    match ws, hws with
    | [a], _ => rfl
  split at h
  case isTrue hline =>
    cases h
    rw [hline]
    refine ⟨?_, fun _ => rfl, fun parser iter => parseConstant_eq parser iter .one (fun _ => rfl)⟩
    intro luts ws hws
    match ws, hws with
    | [a], _ => rfl
  split at h
  case isTrue hline =>
    cases h
    rw [hline]
    refine ⟨?_, fun _ => rfl, fun parser iter => parseOneInput_eq parser iter .inv (fun _ _ => rfl)⟩
    intro luts ws hws
    match ws, hws with
    | [a, b], _ => rfl
  split at h
  case isTrue hline =>
    cases h
    rw [hline]
    refine ⟨?_, fun _ => rfl,
      fun parser iter => parseTwoInput_eq parser iter .and (fun _ _ _ => rfl)⟩
    intro luts ws hws
    match ws, hws with
    | [a, b, c], _ => rfl
  split at h
  case isTrue hline =>
    cases h
    rw [hline]
    refine ⟨?_, fun _ => rfl,
      fun parser iter => parseTwoInput_eq parser iter .xor (fun _ _ _ => rfl)⟩
    intro luts ws hws
    match ws, hws with
    | [a, b, c], _ => rfl
  split at h
  case isTrue hline =>
    cases h
    rw [hline]
    refine ⟨?_, fun _ => rfl,
      fun parser iter => parseThreeInput_eq parser iter .and3 (fun _ _ _ _ => rfl)⟩
    intro luts ws hws
    match ws, hws with
    | [a, b, c, d], _ => rfl
  split at h
  case isTrue hline =>
    cases h
    rw [hline]
    refine ⟨?_, fun _ => rfl,
      fun parser iter => parseFourInput_eq parser iter .and4 (fun _ _ _ _ _ => rfl)⟩
    intro luts ws hws
    match ws, hws with
    | [a, b, c, d, e], _ => rfl
  · contradiction

theorem parseInput_eq (parser : Circuit) (raw : List UInt8) :
  parseInput parser raw = (do
    let w ← parseWire raw
    return { adjustMaxWireNumber parser [w] with inputs := parser.inputs ++ [w] })
  := rfl

theorem parseOutput_eq (parser : Circuit) (raw : List UInt8) :
  parseOutput parser raw = (do
    let w ← parseWire raw
    return { adjustMaxWireNumber parser [w] with outputs := parser.outputs ++ [w] })
  := rfl

/-- The tokens of a line are read apart from the circuit. -/
theorem parseTokens_eq (parser : Circuit) (iter : List (List UInt8)) (lineType : List UInt8) :
  parseTokens parser iter lineType = (do return absorb parser (← readTokens iter lineType))
  := by
  by_cases hinputs : lineType = bytes "C"
  · rw [parseTokens, readTokens, if_pos hinputs, if_pos hinputs,
      Outcome.foldlM_eq_mapM parseInput_eq]
    simp only [foldl_absorb_inputs, bind_assoc, pure_bind]
  by_cases houtputs : lineType = bytes "O"
  · rw [parseTokens, readTokens, if_neg hinputs, if_neg hinputs, if_pos houtputs, if_pos houtputs,
      Outcome.foldlM_eq_mapM parseOutput_eq]
    simp only [foldl_absorb_outputs, bind_assoc, pure_bind]
  by_cases hlut : lineType = bytes "L"
  · rw [readTokens, if_neg hinputs, if_neg houtputs, if_pos hlut, hlut]
    apply parseLut_eq_readLut
  rw [readTokens, if_neg hinputs, if_neg houtputs, if_neg hlut]
  split
  case h_1 count make hgate =>
    rw [(readsGate_of_gateOf hgate).parseTokens_eq]
    simp only [bind_assoc, pure_bind]
  case h_2 hgate =>
    have hnone : parseTokens parser iter lineType = .error .unsupportedType := by
      grind [parseTokens, gateOf]
    rw [hnone]
    rfl

/-- A line is read apart from the circuit. -/
theorem parseLine_eq (parser : Circuit) (line : List UInt8) :
  parseLine parser line = (do return absorb parser (← readLine line))
  := by
  rw [parseLine, readLine]
  split
  · rfl
  · cases tokenize line with
    | nil => rfl
    | cons lineType iter => apply parseTokens_eq

/-! ### The lines that are read -/

/-- The token is a wire number. -/
def IsWire (raw : List UInt8) (w : Nat) : Prop := parseWire raw = .ok w

/-- The character is a bit. -/
def IsBit (raw : UInt8) (bit : Bool) : Prop := parseBit raw = .ok bit

/-- What the tokens of a well-formed line say.  Tokens after the wires of a gate are ignored. -/
inductive Denotes : List (List UInt8) → Line → Prop where
  | inputs {ts : List (List UInt8)} {ws : List Nat} (hts : List.Forall₂ IsWire ts ws) :
      Denotes (bytes "C" :: ts) (.inputs ws)
  | outputs {ts : List (List UInt8)} {ws : List Nat} (hts : List.Forall₂ IsWire ts ws) :
      Denotes (bytes "O" :: ts) (.outputs ws)
  | gate {lineType : List UInt8} {count : Nat} {make : List Nat → Node} {ts : List (List UInt8)}
      {ws : List Nat} (hgate : gateOf lineType = some (count, make))
      (hts : List.Forall₂ IsWire ts ws) (hcount : ws.length = count) (rest : List (List UInt8)) :
      Denotes (lineType :: (ts ++ rest)) (.gate (make ws))
  | lut {ts : List (List UInt8)} {ws : List Nat} {rawOutput : List UInt8} {output : Nat}
      {rawTable : List UInt8} {table : List Bool} (hts : List.Forall₂ IsWire ts ws)
      (harity : ws.length < 256) (houtput : IsWire rawOutput output)
      (htable : List.Forall₂ IsBit rawTable table) :
      Denotes (bytes "L" :: (ts ++ [rawOutput, rawTable])) (.lut ws output table)

theorem nextWires_eq_ok {count : Nat} {iter : List (List UInt8)} {ws : List Nat} :
  nextWires count iter = .ok ws
    ↔ ∃ ts rest, iter = ts ++ rest ∧ List.Forall₂ IsWire ts ws ∧ ws.length = count
  := by
  induction count generalizing iter ws with
  | zero =>
      rw [nextWires]
      constructor
      · intro h
        obtain rfl := Outcome.ok.inj h
        exact ⟨[], iter, rfl, .nil, rfl⟩
      · rintro ⟨ts, rest, -, -, hlength⟩
        rw [List.length_eq_zero_iff.mp hlength]
        rfl
  | succ count ih =>
      cases iter with
      | nil =>
          constructor
          · intro h
            contradiction
          · rintro ⟨ts, rest, hnil, hts, hlength⟩
            obtain ⟨rfl, rfl⟩ := List.nil_eq_append_iff.mp hnil
            cases hts
            contradiction
      | cons raw iter =>
          simp only [nextWires, nextWire, bind_assoc, pure_bind]
          constructor
          · intro h
            obtain ⟨w, hw, h⟩ := Outcome.bind_eq_ok.mp h
            obtain ⟨ws', hws', h⟩ := Outcome.bind_eq_ok.mp h
            obtain rfl := Outcome.ok.inj h
            obtain ⟨ts, rest, rfl, hts, hlength⟩ := ih.mp hws'
            refine ⟨raw :: ts, rest, rfl, .cons hw hts, ?_⟩
            rw [List.length_cons, hlength]
          · rintro ⟨ts, rest, hiter, hts, hlength⟩
            cases hts with
            | nil => contradiction
            | @cons t w ts ws ht hts =>
                rw [List.cons_append] at hiter
                obtain ⟨rfl, rfl⟩ := List.cons.inj hiter
                have hwire : parseWire raw = .ok w := ht
                rw [hwire, Outcome.ok_bind, ih.mpr ⟨ts, rest, rfl, hts, Nat.succ.inj hlength⟩]
                rfl

/-- The window passes over the input wires and ends on the last two tokens. -/
theorem slideWindow_eq_mapM {ts : List (List UInt8)} {luts : List Nat}
    {t₁ t₂ output table : List UInt8} {iter : List (List UInt8)}
    (hiter : t₁ :: t₂ :: iter = ts ++ [output, table]) :
  slideWindow luts t₁ t₂ iter = (do return (luts ++ (← ts.mapM parseWire), output, table))
  := by
  induction ts generalizing luts t₁ t₂ iter with
  | nil =>
      cases hiter
      simp [slideWindow]
  | cons t ts ih =>
      rw [List.cons_append] at hiter
      obtain ⟨rfl, hrest⟩ := List.cons.inj hiter
      cases iter with
      | nil =>
          have hlength := congrArg List.length hrest
          simp at hlength
      | cons raw iter =>
          rw [slideWindow, List.mapM_cons, bind_assoc]
          apply bind_congr
          intro w
          rw [ih hrest]
          simp

/-- What the tokens of a lookup table say. -/
theorem readLut_eq (ts : List (List UInt8)) (output table : List UInt8) :
  readLut (ts ++ [output, table]) = (do
    let ws ← ts.mapM parseWire
    check .castOutOfRange (ws.length < 256)
    let output ← parseWire output
    let table ← table.mapM parseBit
    return .lut ws output table)
  := by
  match hiter : ts ++ [output, table] with
  | [] => simp at hiter
  | [_] =>
      have hlength := congrArg List.length hiter
      simp at hlength
  | t₁ :: t₂ :: iter =>
      rw [readLut, slideWindow_eq_mapM hiter.symm]
      simp

theorem exists_eq_append_pair (t₁ t₂ : List UInt8) (iter : List (List UInt8)) :
  ∃ ts output table, t₁ :: t₂ :: iter = ts ++ [output, table]
  := by
  induction iter generalizing t₁ t₂ with
  | nil => exact ⟨[], t₁, t₂, rfl⟩
  | cons t iter ih =>
      obtain ⟨ts, output, table, h⟩ := ih t₂ t
      exact ⟨t₁ :: ts, output, table, by rw [h, List.cons_append]⟩

theorem readLut_eq_ok {iter : List (List UInt8)} {l : Line} :
  readLut iter = .ok l ↔ Denotes (bytes "L" :: iter) l
  := by
  constructor
  · intro h
    match iter with
    | [] => contradiction
    | [_] => contradiction
    | t₁ :: t₂ :: iter =>
        obtain ⟨ts, rawOutput, rawTable, hiter⟩ := exists_eq_append_pair t₁ t₂ iter
        rw [hiter, readLut_eq] at h
        obtain ⟨ws, hws, h⟩ := Outcome.bind_eq_ok.mp h
        obtain ⟨_, harity, h⟩ := Outcome.bind_eq_ok.mp h
        obtain ⟨output, houtput, h⟩ := Outcome.bind_eq_ok.mp h
        obtain ⟨table, htable, h⟩ := Outcome.bind_eq_ok.mp h
        obtain rfl := Outcome.ok.inj h
        rw [hiter]
        apply Denotes.lut (Outcome.mapM_eq_ok_iff.mp hws) (check_eq_ok.mp harity) houtput
          (Outcome.mapM_eq_ok_iff.mp htable)
  · intro h
    cases h with
    | gate hgate => contradiction
    | lut hts harity houtput htable =>
        rw [readLut_eq, Outcome.mapM_eq_ok_iff.mpr hts, Outcome.ok_bind, check_of harity,
          Outcome.ok_bind, houtput, Outcome.ok_bind, Outcome.mapM_eq_ok_iff.mpr htable]
        rfl

/-- The tokens that are read are those of well-formed lines. -/
theorem readTokens_eq_ok {iter : List (List UInt8)} {lineType : List UInt8} {l : Line} :
  readTokens iter lineType = .ok l ↔ Denotes (lineType :: iter) l
  := by
  constructor
  · intro h
    rw [readTokens] at h
    split at h
    case isTrue hline =>
      obtain ⟨ws, hws, h⟩ := Outcome.bind_eq_ok.mp h
      obtain rfl := Outcome.ok.inj h
      rw [hline]
      apply Denotes.inputs (Outcome.mapM_eq_ok_iff.mp hws)
    split at h
    case isTrue hline =>
      obtain ⟨ws, hws, h⟩ := Outcome.bind_eq_ok.mp h
      obtain rfl := Outcome.ok.inj h
      rw [hline]
      apply Denotes.outputs (Outcome.mapM_eq_ok_iff.mp hws)
    split at h
    case isTrue hline =>
      rw [hline]
      apply readLut_eq_ok.mp h
    split at h
    case h_1 count make hgate =>
      obtain ⟨ws, hws, h⟩ := Outcome.bind_eq_ok.mp h
      obtain rfl := Outcome.ok.inj h
      obtain ⟨ts, rest, rfl, hts, hcount⟩ := nextWires_eq_ok.mp hws
      apply Denotes.gate hgate hts hcount
    case h_2 => contradiction
  · intro h
    cases h with
    | inputs hts =>
        rw [readTokens, if_pos rfl, Outcome.mapM_eq_ok_iff.mpr hts]
        rfl
    | outputs hts =>
        rw [readTokens, if_neg (by decide), if_pos rfl, Outcome.mapM_eq_ok_iff.mpr hts]
        rfl
    | gate hgate hts hcount rest =>
        have hother : lineType ≠ bytes "C" ∧ lineType ≠ bytes "O" ∧ lineType ≠ bytes "L" := by
          refine ⟨?_, ?_, ?_⟩
          · rintro rfl
            contradiction
          · rintro rfl
            contradiction
          · rintro rfl
            contradiction
        rw [readTokens, if_neg hother.1, if_neg hother.2.1, if_neg hother.2.2, hgate]
        simp only [nextWires_eq_ok.mpr ⟨_, rest, rfl, hts, hcount⟩, Outcome.ok_bind,
          Outcome.pure_eq]
    | lut hts harity houtput htable => apply readLut_eq_ok.mpr (.lut hts harity houtput htable)

/-- The lines that are read are the well-formed lines of less than the longest length. -/
theorem readLine_eq_ok {line : List UInt8} {l : Line} :
  readLine line = .ok l ↔ line.length < maxLineLen ∧ Denotes (tokenize line) l
  := by
  rw [readLine]
  split
  case isTrue hlen => simp [Nat.not_lt.mpr hlen]
  case isFalse hlen =>
    cases htokens : tokenize line with
    | nil =>
        constructor
        · intro h
          contradiction
        · rintro ⟨-, h⟩
          contradiction
    | cons lineType iter => simp [readTokens_eq_ok, Nat.lt_of_not_le hlen]

/-! ### The lines that stop at a safety check -/

theorem noPanic_parseWire (raw : List UInt8) :
  (parseWire raw).NoPanic
  := (noPanic_parseInt 10 (2 ^ 64) raw).mapError _

theorem noPanic_parseBit (raw : UInt8) :
  (parseBit raw).NoPanic
  := by
  apply ((noPanic_parseInt 10 2 [raw]).mapError _).bind
  intro bit
  apply Outcome.NoPanic.ok

theorem noPanic_nextWires (count : Nat) (iter : List (List UInt8)) :
  (nextWires count iter).NoPanic
  := by
  induction count generalizing iter with
  | zero => apply Outcome.NoPanic.ok
  | succ count ih =>
      cases iter with
      | nil => apply Outcome.NoPanic.error
      | cons raw iter =>
          simp only [nextWires, nextWire, bind_assoc, pure_bind]
          apply (noPanic_parseWire raw).bind
          intro w
          apply (ih iter).bind
          intro ws
          apply Outcome.NoPanic.ok

/-- The line of a lookup table with more than 255 inputs that are wire numbers. -/
def Overflows (tokens : List (List UInt8)) : Prop :=
  ∃ ts ws output table, tokens = bytes "L" :: (ts ++ [output, table])
    ∧ List.Forall₂ IsWire ts ws ∧ 256 ≤ ts.length

theorem readLut_eq_panic {iter : List (List UInt8)} {t : Trap} (h : readLut iter = .panic t) :
  Overflows (bytes "L" :: iter)
  := by
  match iter with
  | [] => contradiction
  | [_] => contradiction
  | t₁ :: t₂ :: iter =>
      obtain ⟨ts, rawOutput, rawTable, hiter⟩ := exists_eq_append_pair t₁ t₂ iter
      rw [hiter, readLut_eq] at h
      rcases Outcome.bind_eq_panic.mp h with h | ⟨ws, hws, h⟩
      · apply absurd h (Outcome.NoPanic.mapM (fun raw _ => noPanic_parseWire raw) t)
      · have hts := Outcome.mapM_eq_ok_iff.mp hws
        rw [hiter]
        refine ⟨ts, ws, rawOutput, rawTable, rfl, hts, ?_⟩
        rw [hts.length_eq]
        by_contra hlt
        rw [check_of (Nat.lt_of_not_le hlt), Outcome.ok_bind] at h
        revert h
        apply (noPanic_parseWire rawOutput).bind
        intro output
        apply (Outcome.NoPanic.mapM (fun raw _ => noPanic_parseBit raw)).bind
        intro table
        apply Outcome.NoPanic.ok

/-- The lines of other types stop at no safety check. -/
theorem noPanic_readTokens {lineType : List UInt8} (hline : lineType ≠ bytes "L")
    (iter : List (List UInt8)) :
  (readTokens iter lineType).NoPanic
  := by
  rw [readTokens, if_neg hline]
  split
  · apply (Outcome.NoPanic.mapM (fun raw _ => noPanic_parseWire raw)).bind
    intro ws
    apply Outcome.NoPanic.ok
  split
  · apply (Outcome.NoPanic.mapM (fun raw _ => noPanic_parseWire raw)).bind
    intro ws
    apply Outcome.NoPanic.ok
  split
  · apply (noPanic_nextWires _ iter).bind
    intro ws
    apply Outcome.NoPanic.ok
  · apply Outcome.NoPanic.error

theorem readLine_eq_panic {line : List UInt8} {t : Trap} (h : readLine line = .panic t) :
  Overflows (tokenize line)
  := by
  rw [readLine] at h
  split at h
  · contradiction
  cases htokens : tokenize line with
  | nil =>
      rw [htokens] at h
      contradiction
  | cons lineType iter =>
      rw [htokens] at h
      by_cases hline : lineType = bytes "L"
      · rw [hline] at h ⊢
        apply readLut_eq_panic h
      · apply absurd h (noPanic_readTokens hline iter t)

/-- A line with an overflow is not read, and not rejected. -/
theorem readLine_of_overflows {line : List UInt8} (hlen : line.length < maxLineLen)
    (h : Overflows (tokenize line)) :
  readLine line = .panic .castOutOfRange
  := by
  obtain ⟨ts, ws, output, table, htokens, hts, harity⟩ := h
  rw [hts.length_eq] at harity
  have hcheck : (check .castOutOfRange (ws.length < 256) : Outcome Error Unit)
      = .panic .castOutOfRange := by
    rw [check, if_neg (Nat.not_lt.mpr harity)]
  have hlut : readTokens (ts ++ [output, table]) (bytes "L") = readLut (ts ++ [output, table]) :=
    rfl
  rw [readLine, if_neg (Nat.not_le.mpr hlen), htokens]
  simp only
  rw [hlut, readLut_eq, Outcome.mapM_eq_ok_iff.mpr hts, Outcome.ok_bind, hcheck]
  rfl

end Parser

/-- The lines of a text are read one by one, and the circuit absorbs what they say. -/
theorem parseCircuit_eq (text : List UInt8) :
  parseCircuit text
    = (do return (← (lines text).mapM Parser.readLine).foldl Parser.absorb Parser.empty)
  := Outcome.foldlM_eq_mapM Parser.parseLine_eq (lines text) Parser.empty

end SynCirc
