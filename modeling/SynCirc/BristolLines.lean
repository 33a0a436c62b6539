import SynCirc.BristolParser
import SynCirc.Zig.Scan

/-!
# The Bristol format: what the lines say

The parser reads every gate line apart from the circuit it has reached (`parseLine_eq`), so the
text is read line by line and the gates are put together afterwards.

The parser stops at a safety check in three cases only: the two parts of the inputs in the header
add up to more than a machine word, the header has more outputs than wires, or a gate line has more
than four inputs or more than four outputs of which the first five are numbers
(`parseBristol_noPanic_iff`).  Memory is unlimited here: the source also returns an error when the
counts of the header ask for more memory than there is.
-/

namespace SynCirc

open Zig

namespace BristolParser

/-- The circuit before anything is read. -/
def empty : Circuit := ⟨[], [], [], [], [], 0⟩

/-- The token is a number of 64 bits. -/
def IsIndex (raw : List UInt8) (w : Nat) : Prop := parseIndex raw = .ok w

theorem noPanic_parseIndex (raw : List UInt8) :
  (parseIndex raw).NoPanic
  := (noPanic_parseInt 10 (2 ^ 64) raw).mapError _

/-! ### Reading wires -/

/-- The largest wire number is kept apart from the wires that are read. -/
theorem readWires_max (count maxWireNumber : Nat) (wires : List Nat) (iter : List (List UInt8)) :
  readWires count maxWireNumber wires iter = (do
    let (largest, wires, iter) ← readWires count 0 wires iter
    return (max maxWireNumber largest, wires, iter))
  := by
  induction iter generalizing maxWireNumber wires with
  | nil =>
      rw [readWires, readWires]
      split
      · rfl
      · simp
  | cons raw iter ih =>
      rw [readWires, readWires]
      split
      · rw [bind_assoc]
        apply bind_congr
        intro w
        rw [bind_assoc]
        apply bind_congr
        intro _
        rw [ih (max maxWireNumber w), ih (max 0 w), bind_assoc]
        apply bind_congr
        intro r
        simp only [pure_bind, Nat.zero_max, Nat.max_assoc]
      · simp

/-- Wires that are read are numbers, as many as are missing. -/
theorem readWires_eq_ok {count maxWireNumber largest : Nat} {wires ws : List Nat}
    {iter rest : List (List UInt8)} (hcount : wires.length ≤ count)
    (h : readWires count maxWireNumber wires iter = .ok (largest, ws, rest)) :
  ∃ ts ns, iter = ts ++ rest ∧ List.Forall₂ IsIndex ts ns ∧ wires.length + ns.length = count
    ∧ ws = wires ++ ns ∧ largest = ns.foldl max maxWireNumber
  := by
  induction iter generalizing maxWireNumber wires with
  | nil =>
      rw [readWires] at h
      split at h
      · contradiction
      case isFalse hlt =>
        cases h
        exact ⟨[], [], rfl, .nil, by simp only [List.length_nil]; omega, by simp, rfl⟩
  | cons raw iter ih =>
      rw [readWires] at h
      split at h
      case isTrue hlt =>
        obtain ⟨w, hw, h⟩ := Outcome.bind_eq_ok.mp h
        obtain ⟨_, _, h⟩ := Outcome.bind_eq_ok.mp h
        have hcount' : (wires ++ [w]).length ≤ count := by
          rw [List.length_append, List.length_singleton]
          omega
        obtain ⟨ts, ns, rfl, hts, hlength, hws, hlargest⟩ := ih hcount' h
        refine ⟨raw :: ts, w :: ns, rfl, .cons hw hts, ?_, ?_, hlargest⟩
        · rw [List.length_append, List.length_singleton] at hlength
          rw [List.length_cons]
          omega
        · rw [hws, List.append_assoc, List.singleton_append]
      case isFalse hlt =>
        cases h
        exact ⟨[], [], rfl, .nil, by simp only [List.length_nil]; omega, by simp, rfl⟩

/-- Numbers are read as wires, if there are at most four. -/
theorem readWires_of_forall₂ {ts : List (List UInt8)} {ns : List Nat}
    (hts : List.Forall₂ IsIndex ts ns) {count : Nat} {wires : List Nat}
    (hcount : wires.length + ns.length = count) (hfour : count ≤ 4) (maxWireNumber : Nat)
    (rest : List (List UInt8)) :
  readWires count maxWireNumber wires (ts ++ rest)
    = .ok (ns.foldl max maxWireNumber, wires ++ ns, rest)
  := by
  induction hts generalizing maxWireNumber wires with
  | nil =>
      have hdone : ¬ wires.length < count := by
        rw [List.length_nil] at hcount
        omega
      cases rest with
      | nil =>
          rw [List.nil_append, readWires, if_neg hdone]
          simp
      | cons raw rest =>
          rw [List.nil_append, readWires, if_neg hdone]
          simp
  | @cons t n ts ns ht _ ih =>
      rw [List.length_cons] at hcount
      have hmore : wires.length < count := by omega
      have hroom : wires.length < 4 := by omega
      have hindex : parseIndex t = .ok n := ht
      rw [List.cons_append, readWires, if_pos hmore, hindex, Outcome.ok_bind, check_of hroom,
        Outcome.ok_bind, ih (by rw [List.length_append, List.length_singleton]; omega),
        List.append_assoc, List.singleton_append, List.foldl_cons]

/-- The tokens run over the end of an array of four elements, of which `filled` are written, when
`count` wires are read. -/
def Overruns (count filled : Nat) (iter : List (List UInt8)) : Prop :=
  4 < count ∧ 4 - filled < iter.length ∧ ∀ t ∈ iter.take (4 - filled + 1), ∃ w, IsIndex t w

/-- Reading wires stops at a safety check exactly if they run over the end of the array. -/
theorem readWires_eq_panic {count maxWireNumber : Nat} {wires : List Nat}
    {iter : List (List UInt8)} {t : Trap} (hwires : wires.length ≤ 4) :
  readWires count maxWireNumber wires iter = .panic t
    ↔ t = .indexOutOfBounds ∧ Overruns count wires.length iter
  := by
  induction iter generalizing maxWireNumber wires with
  | nil =>
      rw [readWires]
      split
      · simp [Overruns]
      · simp [Overruns]
  | cons raw iter ih =>
      rw [readWires]
      split
      case isTrue hlt =>
        rcases hraw : parseIndex raw with w | e | t'
        · rw [Outcome.ok_bind]
          have hindex : ∃ w, IsIndex raw w := ⟨w, hraw⟩
          by_cases hroom : wires.length < 4
          · have hlength : (wires ++ [w]).length = wires.length + 1 := by simp
            have hstep : 4 - wires.length = 4 - (wires.length + 1) + 1 := by omega
            rw [check_of hroom, Outcome.ok_bind, ih (by omega), hlength, Overruns, Overruns,
              hstep, List.take_succ_cons, List.forall_mem_cons, List.length_cons]
            simp only [hindex, true_and, Nat.add_lt_add_iff_right]
          · have hfour : wires.length = 4 := by omega
            have hcount : 4 < count := by omega
            rw [check_not hroom, Outcome.panic_bind, Overruns, hfour]
            simp [hcount, hindex, eq_comm]
        · rw [Outcome.error_bind, Overruns, List.take_succ_cons, List.forall_mem_cons]
          have hindex : ¬ ∃ w, IsIndex raw w := by
            rintro ⟨w, hw⟩
            rw [IsIndex, hraw] at hw
            contradiction
          simp [hindex]
        · apply absurd hraw (noPanic_parseIndex raw t')
      case isFalse hlt =>
        have hcount : ¬ 4 < count := by omega
        simp [Overruns, hcount]

/-! ### Gates -/

theorem readElement_eq_ok {wires : List Nat} {i w : Nat}
    (h : readElement wires i = .ok w) :
  w ∈ wires
  := by
  unfold readElement at h
  split at h
  case h_1 wire hwire =>
    obtain rfl := Outcome.ok.inj h
    apply List.mem_of_getElem? hwire
  case h_2 => contradiction

theorem noPanic_readElement {wires : List Nat} {i : Nat} (hi : i < wires.length) :
  (readElement wires i).NoPanic
  := by
  rw [readElement, List.getElem?_eq_getElem hi]
  apply Outcome.NoPanic.ok

theorem checkCounts_eq_ok {expectedInputs numInputs numOutputs : Nat} {u : Unit} :
  checkCounts expectedInputs numInputs numOutputs = .ok u
    ↔ numInputs = expectedInputs ∧ numOutputs = 1
  := by
  rw [checkCounts]
  split
  case isTrue h => simp [h]
  case isFalse h =>
    split
    case isTrue h' => simp [h']
    case isFalse h' => simp [of_not_not h, of_not_not h']

/-- The function makes a gate of a given number of inputs and an output. -/
structure MakesGate (arity : Nat) (make : List Nat → Nat → Node) : Prop where
  wires : ∀ luts inputs output, inputs.length = arity →
    (make inputs output).wires luts = inputs ++ [output]
  isLut : ∀ inputs output, (make inputs output).isLut = false
  isConstant : ∀ inputs output, (make inputs output).isConstant = false

/-- A line type is not supported, or stands for gates of a certain number of inputs. -/
theorem parseGate_eq_make (lineType : List UInt8) :
  (∀ numInputs numOutputs inputs outputs,
    parseGate lineType numInputs numOutputs inputs outputs = .error .unsupportedType)
  ∨ ∃ arity make, MakesGate arity make ∧ ∀ numInputs numOutputs inputs outputs,
    parseGate lineType numInputs numOutputs inputs outputs = (do
      checkCounts arity numInputs numOutputs
      let wires ← (List.range arity).mapM (readElement inputs)
      return make wires (← readElement outputs 0))
  := by
  unfold parseGate
  by_cases hxor : lineType = bytes "XOR"
  · right
    refine ⟨2, fun xs o => .xor (xs.getD 0 0) (xs.getD 1 0) o,
      ⟨?_, fun _ _ => rfl, fun _ _ => rfl⟩, ?_⟩
    · intro luts inputs output hlength
      match inputs, hlength with
      | [a, b], _ => rfl
    · intro numInputs numOutputs inputs outputs
      rw [if_pos hxor, List.range_eq_range']
      simp [List.range']
  by_cases hand : lineType = bytes "AND"
  · right
    refine ⟨2, fun xs o => .and (xs.getD 0 0) (xs.getD 1 0) o,
      ⟨?_, fun _ _ => rfl, fun _ _ => rfl⟩, ?_⟩
    · intro luts inputs output hlength
      match inputs, hlength with
      | [a, b], _ => rfl
    · intro numInputs numOutputs inputs outputs
      rw [if_neg hxor, if_pos hand, List.range_eq_range']
      simp [List.range']
  by_cases hand3 : lineType = bytes "AND3"
  · right
    refine ⟨3, fun xs o => .and3 (xs.getD 0 0) (xs.getD 1 0) (xs.getD 2 0) o,
      ⟨?_, fun _ _ => rfl, fun _ _ => rfl⟩, ?_⟩
    · intro luts inputs output hlength
      match inputs, hlength with
      | [a, b, c], _ => rfl
    · intro numInputs numOutputs inputs outputs
      rw [if_neg hxor, if_neg hand, if_pos hand3, List.range_eq_range']
      simp [List.range']
  by_cases hand4 : lineType = bytes "AND4"
  · right
    refine ⟨4, fun xs o => .and4 (xs.getD 0 0) (xs.getD 1 0) (xs.getD 2 0) (xs.getD 3 0) o,
      ⟨?_, fun _ _ => rfl, fun _ _ => rfl⟩, ?_⟩
    · intro luts inputs output hlength
      match inputs, hlength with
      | [a, b, c, d], _ => rfl
    · intro numInputs numOutputs inputs outputs
      rw [if_neg hxor, if_neg hand, if_neg hand3, if_pos hand4, List.range_eq_range']
      simp [List.range']
  by_cases hinv : lineType = bytes "INV"
  · right
    refine ⟨1, fun xs o => .inv (xs.getD 0 0) o, ⟨?_, fun _ _ => rfl, fun _ _ => rfl⟩, ?_⟩
    · intro luts inputs output hlength
      match inputs, hlength with
      | [a], _ => rfl
    · intro numInputs numOutputs inputs outputs
      rw [if_neg hxor, if_neg hand, if_neg hand3, if_neg hand4, if_pos hinv, List.range_eq_range']
      simp [List.range']
  · left
    intro numInputs numOutputs inputs outputs
    simp [hxor, hand, hand3, hand4, hinv]

/-- No element is read that has not been written. -/
theorem noPanic_parseGate (lineType : List UInt8) (inputs outputs : List Nat) :
  (parseGate lineType inputs.length outputs.length inputs outputs).NoPanic
  := by
  rcases parseGate_eq_make lineType with h | ⟨arity, make, -, h⟩
  · rw [h]
    apply Outcome.NoPanic.error
  · rw [h]
    intro t hpanic
    rcases Outcome.bind_eq_panic.mp hpanic with hcheck | ⟨_, hcheck, hpanic⟩
    · rw [checkCounts] at hcheck
      split at hcheck
      · contradiction
      · split at hcheck
        · contradiction
        · contradiction
    · obtain ⟨rfl, houtputs⟩ := checkCounts_eq_ok.mp hcheck
      revert hpanic
      apply Outcome.NoPanic.bind
      · apply Outcome.NoPanic.mapM
        intro i hi
        apply noPanic_readElement (List.mem_range.mp hi)
      · intro wires
        apply Outcome.NoPanic.bind (noPanic_readElement (by omega))
        intro output
        apply Outcome.NoPanic.ok

/-- The wires of a gate are read from its line. -/
theorem parseGate_eq_ok {lineType : List UInt8} {numInputs numOutputs : Nat}
    {inputs outputs : List Nat} {n : Node}
    (h : parseGate lineType numInputs numOutputs inputs outputs = .ok n) :
  n.isLut = false ∧ n.isConstant = false ∧ ∀ luts, ∀ w ∈ n.wires luts, w ∈ inputs ++ outputs
  := by
  rcases parseGate_eq_make lineType with hgate | ⟨arity, make, hmake, hgate⟩
  · rw [hgate] at h
    contradiction
  · rw [hgate] at h
    obtain ⟨_, _, h⟩ := Outcome.bind_eq_ok.mp h
    obtain ⟨wires, hwires, h⟩ := Outcome.bind_eq_ok.mp h
    obtain ⟨output, houtput, h⟩ := Outcome.bind_eq_ok.mp h
    obtain rfl := Outcome.ok.inj h
    refine ⟨hmake.isLut wires output, hmake.isConstant wires output, ?_⟩
    intro luts w hw
    have hread := Outcome.forall₂_of_mapM_eq_ok hwires
    have hlength : wires.length = arity := by
      rw [← hread.length_eq, List.length_range]
    rw [hmake.wires luts wires output hlength, List.mem_append, List.mem_singleton] at hw
    rw [List.mem_append]
    rcases hw with hw | rfl
    · left
      obtain ⟨i, hi, hread⟩ := exists_mem_of_forall₂ hread hw
      apply readElement_eq_ok hread
    · right
      apply readElement_eq_ok houtput

/-! ### Lines -/

/-- The circuit with the gates of another one added to it. -/
def join (parser gates : Circuit) : Circuit :=
  { parser with
    nodes := parser.nodes ++ gates.nodes
    maxWireNumber := max parser.maxWireNumber gates.maxWireNumber }

/-- The tokens of a gate are read apart from the circuit. -/
theorem parseGateTokens_eq (parser : Circuit) (iter : List (List UInt8)) :
  parseGateTokens parser iter = (do return join parser (← parseGateTokens empty iter))
  := by
  simp only [parseGateTokens, bind_assoc]
  apply bind_congr
  rintro ⟨rawInputs, iter⟩
  apply bind_congr
  rintro ⟨rawOutputs, iter⟩
  apply bind_congr
  intro numInputs
  apply bind_congr
  intro numOutputs
  rw [readWires_max numInputs parser.maxWireNumber, bind_assoc]
  apply bind_congr
  rintro ⟨largest, inputs, iter⟩
  simp only [pure_bind]
  rw [readWires_max numOutputs (max parser.maxWireNumber largest),
    readWires_max numOutputs largest, bind_assoc, bind_assoc]
  apply bind_congr
  rintro ⟨largest', outputs, iter⟩
  simp only [pure_bind]
  apply bind_congr
  rintro ⟨lineType, iter⟩
  apply bind_congr
  intro node
  by_cases hiter : iter ≠ []
  · simp only [if_pos hiter]
    rfl
  · simp only [if_neg hiter, pure_bind, addNode, join, empty, Nat.max_assoc, List.nil_append]

/-- A line is read apart from the circuit. -/
theorem parseLine_eq (parser : Circuit) (line : List UInt8) :
  parseLine parser line = (do return join parser (← parseLine empty line))
  := by
  simp only [parseLine, bind_assoc]
  apply bind_congr
  intro iter
  by_cases hline : line.length = 0
  · simp only [if_pos hline, pure_bind]
    simp [join, empty]
  · simp only [if_neg hline]
    apply parseGateTokens_eq

/-- The tokens of a gate line run over the end of one of its arrays. -/
def GateOverruns : List (List UInt8) → Prop
  | rawInputs :: rawOutputs :: iter => ∃ numInputs numOutputs, IsIndex rawInputs numInputs
      ∧ IsIndex rawOutputs numOutputs
      ∧ (Overruns numInputs 0 iter
        ∨ (numInputs ≤ 4 ∧ numInputs ≤ iter.length
          ∧ (∀ t ∈ iter.take numInputs, ∃ w, IsIndex t w)
          ∧ Overruns numOutputs 0 (iter.drop numInputs)))
  | _ => False

/-- The tokens that are numbers, and the numbers. -/
theorem exists_forall₂ {ts : List (List UInt8)} (h : ∀ t ∈ ts, ∃ w, IsIndex t w) :
  ∃ ns, List.Forall₂ IsIndex ts ns
  := by
  induction ts with
  | nil => exact ⟨[], .nil⟩
  | cons t ts ih =>
      rw [List.forall_mem_cons] at h
      obtain ⟨w, hw⟩ := h.1
      obtain ⟨ns, hns⟩ := ih h.2
      exact ⟨w :: ns, .cons hw hns⟩

theorem readWires_nil_eq_panic {count maxWireNumber : Nat} {iter : List (List UInt8)} {t : Trap} :
  readWires count maxWireNumber [] iter = .panic t
    ↔ t = .indexOutOfBounds ∧ Overruns count 0 iter
  := @readWires_eq_panic count maxWireNumber [] iter t (Nat.zero_le 4)

/-- Wires that are read fit into the array. -/
theorem readWires_nil_eq_ok {count maxWireNumber largest : Nat} {ws : List Nat}
    {iter rest : List (List UInt8)}
    (h : readWires count maxWireNumber [] iter = .ok (largest, ws, rest)) :
  count ≤ 4 ∧ count ≤ iter.length ∧ (∀ t ∈ iter.take count, ∃ w, IsIndex t w)
    ∧ rest = iter.drop count ∧ ws.length = count
  := by
  obtain ⟨ts, ns, rfl, hts, hlength, rfl, -⟩ := readWires_eq_ok (Nat.zero_le count) h
  rw [List.length_nil, Nat.zero_add] at hlength
  have htslength : ts.length = count := hts.length_eq.trans hlength
  have hindex : ∀ t ∈ ts, ∃ w, IsIndex t w := by
    intro t ht
    obtain ⟨w, -, hw⟩ := exists_mem_of_forall₂ hts.flip ht
    use w
    apply hw
  refine ⟨?_, ?_, ?_, ?_, ?_⟩
  · by_contra hfour
    have hpanic : readWires count maxWireNumber [] (ts ++ rest) = .panic .indexOutOfBounds := by
      rw [readWires_nil_eq_panic]
      refine ⟨rfl, by omega, ?_, ?_⟩
      · rw [List.length_append]
        omega
      · intro t ht
        rw [List.take_append_of_le_length (by omega)] at ht
        apply hindex t (List.mem_of_mem_take ht)
    rw [hpanic] at h
    contradiction
  · rw [List.length_append]
    omega
  · rw [← htslength, List.take_left]
    apply hindex
  · rw [← htslength, List.drop_left]
  · apply hlength

/-- At most four numbers are read as wires. -/
theorem readWires_of_take {count : Nat} {iter : List (List UInt8)} (hfour : count ≤ 4)
    (hlength : count ≤ iter.length) (hindex : ∀ t ∈ iter.take count, ∃ w, IsIndex t w)
    (maxWireNumber : Nat) :
  ∃ r, readWires count maxWireNumber [] iter = .ok r
  := by
  obtain ⟨ns, hns⟩ := exists_forall₂ hindex
  have hcount : ns.length = count := by
    rw [← hns.length_eq, List.length_take]
    omega
  have hlength' : ([] : List Nat).length + ns.length = count := by
    rw [List.length_nil, Nat.zero_add, hcount]
  have hread := readWires_of_forall₂ hns hlength' hfour maxWireNumber (iter.drop count)
  rw [List.take_append_drop] at hread
  exact ⟨_, hread⟩

theorem gateOverruns_cons {rawInputs rawOutputs : List UInt8} {iter : List (List UInt8)}
    {numInputs numOutputs : Nat} (hinputs : parseIndex rawInputs = .ok numInputs)
    (houtputs : parseIndex rawOutputs = .ok numOutputs) :
  GateOverruns (rawInputs :: rawOutputs :: iter)
    ↔ Overruns numInputs 0 iter
      ∨ (numInputs ≤ 4 ∧ numInputs ≤ iter.length
        ∧ (∀ t ∈ iter.take numInputs, ∃ w, IsIndex t w)
        ∧ Overruns numOutputs 0 (iter.drop numInputs))
  := by
  simp only [GateOverruns, IsIndex, hinputs, houtputs, Outcome.ok.injEq]
  constructor
  · rintro ⟨_, _, rfl, rfl, h⟩
    apply h
  · intro h
    exact ⟨_, _, rfl, rfl, h⟩

/-- After the wires, no safety check stops the parser. -/
theorem noPanic_afterWires (parser : Circuit) (maxWireNumber : Nat) (inputs outputs : List Nat)
    (iter : List (List UInt8)) :
  (do
    let (lineType, iter) ← next .expectedType iter
    let node ← parseGate lineType inputs.length outputs.length inputs outputs
    if iter ≠ [] then .error .unexpectedExtraData else
    return addNode { parser with maxWireNumber := maxWireNumber } node
      : Outcome Error Circuit).NoPanic
  := by
  cases iter with
  | nil => apply Outcome.NoPanic.error
  | cons lineType iter =>
      apply (noPanic_parseGate lineType inputs outputs).bind
      intro node
      split
      · apply Outcome.NoPanic.error
      · apply Outcome.NoPanic.ok

/-- Reading the tokens of a gate line stops at a safety check exactly if they run over the end of
one of the arrays. -/
theorem parseGateTokens_eq_panic {parser : Circuit} {iter : List (List UInt8)} {t : Trap} :
  parseGateTokens parser iter = .panic t ↔ t = .indexOutOfBounds ∧ GateOverruns iter
  := by
  match iter with
  | [] => simp [parseGateTokens, next, GateOverruns]
  | [_] => simp [parseGateTokens, next, GateOverruns]
  | rawInputs :: rawOutputs :: iter =>
      simp only [parseGateTokens, next, Outcome.ok_bind]
      rcases hinputs : parseIndex rawInputs with numInputs | e | t'
      · rcases houtputs : parseIndex rawOutputs with numOutputs | e | t'
        · rw [gateOverruns_cons hinputs houtputs, Outcome.ok_bind, Outcome.ok_bind]
          rw [Outcome.bind_eq_panic, readWires_nil_eq_panic, and_or_left]
          apply or_congr_right
          constructor
          · rintro ⟨⟨largest, inputs, rest⟩, hread, h⟩
            obtain ⟨hfour, hlength, hindex, rfl, rfl⟩ := readWires_nil_eq_ok hread
            rcases Outcome.bind_eq_panic.mp h with h | ⟨⟨largest', outputs, rest⟩, hread', h⟩
            · obtain ⟨rfl, hover⟩ := readWires_nil_eq_panic.mp h
              exact ⟨rfl, hfour, hlength, hindex, hover⟩
            · obtain ⟨-, -, -, -, rfl⟩ := readWires_nil_eq_ok hread'
              apply absurd h (noPanic_afterWires parser largest' inputs outputs rest t)
          · rintro ⟨rfl, hfour, hlength, hindex, hover⟩
            obtain ⟨⟨largest, inputs, rest⟩, hread⟩ :=
              readWires_of_take hfour hlength hindex parser.maxWireNumber
            obtain ⟨-, -, -, rfl, -⟩ := readWires_nil_eq_ok hread
            refine ⟨_, hread, ?_⟩
            rw [Outcome.bind_eq_panic, readWires_nil_eq_panic]
            exact .inl ⟨rfl, hover⟩
        · simp [GateOverruns, IsIndex, houtputs]
        · apply absurd houtputs (noPanic_parseIndex rawOutputs t')
      · simp [GateOverruns, IsIndex, hinputs]
      · apply absurd hinputs (noPanic_parseIndex rawInputs t')

/-- The line is a gate line whose tokens run over the end of one of the arrays. -/
def LineOverruns (line : List UInt8) : Prop :=
  line.length < bufLen ∧ GateOverruns (tokenize line)

theorem readLine_eq_ok {line : List UInt8} {iter : List (List UInt8)} :
  readLine line = .ok iter ↔ line.length < bufLen ∧ tokenize line = iter
  := by
  rw [readLine]
  split
  case isTrue h => simp [Nat.not_lt.mpr h]
  case isFalse h => simp [Nat.lt_of_not_le h]

theorem noPanic_readLine (line : List UInt8) :
  (readLine line).NoPanic
  := by
  rw [readLine]
  split
  · apply Outcome.NoPanic.error
  · apply Outcome.NoPanic.ok

theorem parseLine_eq_panic {parser : Circuit} {line : List UInt8} {t : Trap} :
  parseLine parser line = .panic t ↔ t = .indexOutOfBounds ∧ LineOverruns line
  := by
  have hread : readLine line ≠ .panic t := noPanic_readLine line t
  rw [parseLine, Outcome.bind_eq_panic]
  simp only [hread, readLine_eq_ok, false_or, LineOverruns]
  constructor
  · rintro ⟨iter, ⟨hlength, rfl⟩, h⟩
    split at h
    · contradiction
    · obtain ⟨rfl, hover⟩ := parseGateTokens_eq_panic.mp h
      exact ⟨rfl, hlength, hover⟩
  · rintro ⟨rfl, hlength, hover⟩
    refine ⟨tokenize line, ⟨hlength, rfl⟩, ?_⟩
    have hline : line.length ≠ 0 := by
      intro hline
      rw [List.length_eq_zero_iff.mp hline] at hover
      apply hover
    rw [if_neg hline]
    apply parseGateTokens_eq_panic.mpr ⟨rfl, hover⟩

/-! ### The header -/

/-- The second token of the first line is the number of wires. -/
def WireCountIs : List (List UInt8) → Nat → Prop
  | _ :: raw :: _, numWires => IsIndex raw numWires
  | _, _ => False

/-- The tokens of the second line have two parts of the inputs that add up to more than a machine
word, or more outputs than wires. -/
def PortsOverflow (numWires : Nat) : List (List UInt8) → Prop
  | field1 :: field2 :: field3 :: _ => ∃ numInputWiresA numInputWiresB,
      IsIndex field1 numInputWiresA ∧ IsIndex field2 numInputWiresB
      ∧ (2 ^ 64 ≤ numInputWiresA + numInputWiresB
        ∨ ∃ numOutputWires, IsIndex field3 numOutputWires ∧ numWires < numOutputWires)
  | [field1, field2] => ∃ numInputWires numOutputWires, IsIndex field1 numInputWires
      ∧ IsIndex field2 numOutputWires ∧ numWires < numOutputWires
  | _ => False

/-- The counts of the header overflow. -/
def HeaderOverflows : List (List UInt8) → Prop
  | first :: second :: _ => first.length < bufLen ∧ second.length < bufLen
      ∧ ∃ numWires, WireCountIs (tokenize first) numWires ∧ PortsOverflow numWires (tokenize second)
  | _ => False

theorem parseWireCount_eq_ok {iter : List (List UInt8)} {numWires : Nat} :
  parseWireCount iter = .ok numWires ↔ WireCountIs iter numWires
  := by
  match iter with
  | [] => simp [parseWireCount, next, WireCountIs]
  | [_] => simp [parseWireCount, next, WireCountIs]
  | _ :: raw :: _ => rfl

theorem noPanic_parseWireCount (iter : List (List UInt8)) :
  (parseWireCount iter).NoPanic
  := by
  match iter with
  | [] => apply Outcome.NoPanic.error
  | [_] => apply Outcome.NoPanic.error
  | _ :: raw :: _ => apply noPanic_parseIndex

/-- Reading the second line and the subtraction of its outputs from the wires stop at a safety
check exactly if the counts overflow. -/
theorem parsePorts_eq_panic {numWires : Nat} {iter : List (List UInt8)} {t : Trap} :
  (parsePortCounts iter = .panic t ∨ ∃ counts, parsePortCounts iter = .ok counts
      ∧ (sub numWires counts.2 : Outcome Error Nat) = .panic t)
    ↔ t = .integerOverflow ∧ PortsOverflow numWires iter
  := by
  match iter with
  | [] => simp [parsePortCounts, next, PortsOverflow]
  | [_] => simp [parsePortCounts, next, PortsOverflow]
  | [field1, field2] =>
      simp only [parsePortCounts, next, Outcome.ok_bind, PortsOverflow, IsIndex]
      rcases h₁ : parseIndex field1 with numInputWires | e | t'
      · rcases h₂ : parseIndex field2 with numOutputWires | e | t'
        · simp [sub_eq_panic]
        · simp
        · apply absurd h₂ (noPanic_parseIndex field2 t')
      · simp
      · apply absurd h₁ (noPanic_parseIndex field1 t')
  | field1 :: field2 :: field3 :: _ =>
      unfold parsePortCounts PortsOverflow
      generalize 2 ^ 64 = bound
      simp only [next, Outcome.ok_bind, IsIndex]
      rcases h₁ : parseIndex field1 with numInputWiresA | e | t'
      · rcases h₂ : parseIndex field2 with numInputWiresB | e | t'
        · by_cases hsum : numInputWiresA + numInputWiresB < bound
          · rcases h₃ : parseIndex field3 with numOutputWires | e | t'
            · simp [check_of hsum, sub_eq_panic, Nat.not_le.mpr hsum]
            · simp [check_of hsum, Nat.not_le.mpr hsum]
            · apply absurd h₃ (noPanic_parseIndex field3 t')
          · simp [Nat.le_of_not_lt hsum, eq_comm]
        · simp
        · apply absurd h₂ (noPanic_parseIndex field2 t')
      · simp
      · apply absurd h₁ (noPanic_parseIndex field1 t')

/-- The second line and the ports. -/
theorem parsePortLine_eq_panic {parser : Circuit} {numWires : Nat} {stream : List (List UInt8)}
    {t : Trap} :
  (do
    let (iter, stream) ← nextLine stream
    let (numInputWires, numOutputWires) ← parsePortCounts iter
    let firstOutput ← sub numWires numOutputWires
    let parser := { parser with
      inputs := parser.inputs ++ List.range numInputWires
      outputs := parser.outputs ++ List.range' firstOutput numOutputWires }
    return (parser, stream) : Outcome Error (Circuit × List (List UInt8))) = .panic t
  ↔ t = .integerOverflow ∧ ∃ second rest, stream = second :: rest ∧ second.length < bufLen
    ∧ PortsOverflow numWires (tokenize second)
  := by
  cases stream with
  | nil => simp [nextLine]
  | cons second rest =>
      rcases hsecond : readLine second with iter | e | t'
      · obtain ⟨hlength, rfl⟩ := readLine_eq_ok.mp hsecond
        simp only [nextLine, hsecond, Outcome.ok_bind, Outcome.pure_eq, Outcome.bind_eq_panic,
          reduceCtorEq, and_false, exists_false, or_false, parsePorts_eq_panic,
          List.cons.injEq, existsAndEq, and_true, hlength, true_and]
      · have hlength : ¬ second.length < bufLen := by
          intro hlength
          rw [readLine_eq_ok.mpr ⟨hlength, rfl⟩] at hsecond
          contradiction
        simp [nextLine, hsecond, hlength]
      · apply absurd hsecond (noPanic_readLine second t')

/-- Reading the header stops at a safety check exactly if its counts overflow. -/
theorem parseHeader_eq_panic {parser : Circuit} {stream : List (List UInt8)} {t : Trap} :
  parseHeader parser stream = .panic t ↔ t = .integerOverflow ∧ HeaderOverflows stream
  := by
  have hoverflows : ∀ first rest, HeaderOverflows (first :: rest) ↔ first.length < bufLen
      ∧ ∃ numWires, WireCountIs (tokenize first) numWires
        ∧ ∃ second rest', rest = second :: rest' ∧ second.length < bufLen
          ∧ PortsOverflow numWires (tokenize second) := by
    intro first rest
    cases rest with
    | nil => simp [HeaderOverflows]
    | cons second rest =>
        simp only [HeaderOverflows, List.cons.injEq, existsAndEq, and_true]
        tauto
  cases stream with
  | nil => simp [parseHeader, nextLine, HeaderOverflows]
  | cons first rest =>
      rw [hoverflows]
      rcases hfirst : readLine first with iter | e | t'
      · obtain ⟨hlength, rfl⟩ := readLine_eq_ok.mp hfirst
        simp only [parseHeader, nextLine, hfirst, Outcome.ok_bind, Outcome.pure_eq]
        rw [Outcome.bind_eq_panic]
        simp only [parseWireCount_eq_ok, noPanic_parseWireCount (tokenize first) t, false_or,
          hlength, true_and]
        constructor
        · rintro ⟨numWires, hnumWires, h⟩
          obtain ⟨rfl, hports⟩ := parsePortLine_eq_panic.mp h
          exact ⟨rfl, numWires, hnumWires, hports⟩
        · rintro ⟨rfl, numWires, hnumWires, hports⟩
          exact ⟨numWires, hnumWires, parsePortLine_eq_panic.mpr ⟨rfl, hports⟩⟩
      · have hlength : ¬ first.length < bufLen := by
          intro hlength
          rw [readLine_eq_ok.mpr ⟨hlength, rfl⟩] at hfirst
          contradiction
        simp [parseHeader, nextLine, hfirst, hlength]
      · apply absurd hfirst (noPanic_readLine first t')

end BristolParser

open BristolParser

/-- The text is read line by line, and the gates are put together afterwards. -/
theorem parseBristol_eq (text : List UInt8) :
  parseBristol text = (do
    let (parser, stream) ← parseHeader empty (lines text)
    return (← stream.mapM (parseLine empty)).foldl join parser)
  := by
  rw [parseBristol]
  apply bind_congr
  rintro ⟨parser, stream⟩
  apply Outcome.foldlM_eq_mapM parseLine_eq

/-- The header and the gate lines before some gate line are accepted, and that line runs over the
end of one of its arrays. -/
def BristolParser.OverrunIsReached (text : List UInt8) : Prop :=
  ∃ parser pre line post, parseHeader empty (lines text) = .ok (parser, pre ++ line :: post)
    ∧ (∀ l ∈ pre, ∃ gates, parseLine empty l = .ok gates) ∧ LineOverruns line

/-- The parser returns a circuit or an error exactly if the counts of the header do not overflow
and no gate line that is reached has more than four inputs, or more than four outputs, of which the
first five are numbers.  It never reads an element that has not been written.  Memory is unlimited:
for counts from about `2 ^ 61` on, the source returns the error that it is out of memory, before it
subtracts the number of outputs or reaches a gate line. -/
theorem parseBristol_noPanic_iff (text : List UInt8) :
  ((∀ t, parseBristol text ≠ .panic t)
    ↔ ¬ HeaderOverflows (lines text) ∧ ¬ OverrunIsReached text)
  ∧ parseBristol text ≠ .panic .undefinedRead
  := by
  have hpanic : ∀ t, parseBristol text = .panic t
      ↔ (t = .integerOverflow ∧ HeaderOverflows (lines text))
        ∨ (t = .indexOutOfBounds ∧ OverrunIsReached text) := by
    intro t
    rw [parseBristol_eq, Outcome.bind_eq_panic, parseHeader_eq_panic]
    apply or_congr_right
    constructor
    · rintro ⟨⟨parser, stream⟩, hheader, h⟩
      rcases Outcome.bind_eq_panic.mp h with h | ⟨_, _, h⟩
      · obtain ⟨pre, line, post, rfl, hpre, hline⟩ := Outcome.mapM_eq_panic.mp h
        obtain ⟨rfl, hoverruns⟩ := parseLine_eq_panic.mp hline
        exact ⟨rfl, parser, pre, line, post, hheader, hpre, hoverruns⟩
      · contradiction
    · rintro ⟨rfl, parser, pre, line, post, hheader, hpre, hline⟩
      refine ⟨_, hheader, ?_⟩
      apply Outcome.bind_eq_panic.mpr
      left
      apply Outcome.mapM_eq_panic.mpr
      exact ⟨pre, line, post, rfl, hpre, parseLine_eq_panic.mpr ⟨rfl, hline⟩⟩
  constructor
  · constructor
    · intro h
      constructor
      · intro hheader
        apply h _ ((hpanic _).mpr (.inl ⟨rfl, hheader⟩))
      · intro hoverrun
        apply h _ ((hpanic _).mpr (.inr ⟨rfl, hoverrun⟩))
    · rintro ⟨hheader, hoverrun⟩ t h
      rcases (hpanic t).mp h with ⟨-, h⟩ | ⟨-, h⟩
      · apply hheader h
      · apply hoverrun h
  · intro h
    rcases (hpanic _).mp h with ⟨h, -⟩ | ⟨h, -⟩
    · contradiction
    · contradiction

/-- A gate line with five inputs runs over the end of the array, more outputs than wires underflow
and two parts of the inputs can overflow. -/
theorem parseBristol_faults :
  parseBristol (bytes "1 6\n5 1\n\n5 1 0 1 2 3 4 5 AND\n") = .panic .indexOutOfBounds
    ∧ parseBristol (bytes "0 1\n1 2\n") = .panic .integerOverflow
    ∧ parseBristol (bytes "0 1\n18446744073709551615 1 1\n") = .panic .integerOverflow
  := by
  decide +kernel

end SynCirc
