import SynCirc.EvalCircuit

/-!
# The order of the gates

Two circuits that differ only in the order of their gates, and whose gates are in topological
order in both, have the same wire values on every input (`values_perm`).  These values solve
all gate equations and give the input wires their bits.
-/

namespace SynCirc

open Zig StraightLine

/-- A topological order of gates is an order of their assignments. -/
theorem Node.ReadFrom.inOrder {luts : List Nat} (lutTables : List Bool) {known : List Nat}
    {nodes : List Node} (h : ReadFrom luts known nodes) :
  InOrder {w | w ∈ known} (nodes.map (Node.assignment luts lutTables))
  := by
  induction nodes generalizing known with
  | nil => trivial
  | cons n nodes ih =>
      obtain ⟨hreads, h⟩ := h
      use hreads
      have hknown : insert n.output {w | w ∈ known} = {w | w ∈ n.output :: known} := by
        ext w
        simp
      rw [Node.assignment, hknown]
      apply ih h

/-- The bits of the wires of a list that are assigned one after the other. -/
theorem foldl_update_of_notMem {ws : List Nat} {w : Nat} (hw : w ∉ ws) (bits : List Bool)
    (v : Nat → Bool) :
  (ws.zip bits).foldl (fun v p => Function.update v p.1 p.2) v w = v w
  := by
  induction ws generalizing bits v with
  | nil => rfl
  | cons x ws ih =>
      rw [List.mem_cons, not_or] at hw
      cases bits with
      | nil => rfl
      | cons b bits =>
          rw [List.zip_cons_cons, List.foldl_cons, ih hw.2, Function.update_of_ne hw.1]

/-- The wire at a position of a list has the bit at this position, unless the wire is listed
again later. -/
theorem foldl_update_getElem? {ws : List Nat} {i w : Nat} {bits : List Bool} {b : Bool}
    (hw : ws[i]? = some w) (hlast : w ∉ ws.drop (i + 1)) (hb : bits[i]? = some b)
    (v : Nat → Bool) :
  (ws.zip bits).foldl (fun v p => Function.update v p.1 p.2) v w = b
  := by
  induction ws generalizing i bits v with
  | nil => contradiction
  | cons x ws ih =>
      cases bits with
      | nil => contradiction
      | cons b' bits =>
          rw [List.zip_cons_cons, List.foldl_cons]
          cases i with
          | zero =>
              obtain rfl := Option.some.inj hw
              obtain rfl := Option.some.inj hb
              have hnotMem : x ∉ ws := hlast
              rw [foldl_update_of_notMem hnotMem, Function.update_self]
          | succ i => apply ih hw hlast hb

namespace Circuit

variable {c : Circuit}

/-- The valuation gives the gate its value. -/
def GateHolds (c : Circuit) (v : Nat → Bool) (n : Node) : Prop :=
  v n.output = n.fn c.lutTables ((n.reads c.luts).map v)

/-- The wire of every input has the bit of the input, unless the wire is listed again as a
later input. -/
def InputsHold (c : Circuit) (v : Nat → Bool) (inputs : List Bool) : Prop :=
  ∀ i w, c.inputs[i]? = some w → w ∉ c.inputs.drop (i + 1) → inputs[i]? = some (v w)

/-- The outputs of the gates are distinct and are not inputs. -/
theorem SingleDriver.freshTargets (h : c.SingleDriver) :
  FreshTargets {w | w ∈ c.inputs} c.program
  := by
  constructor
  · rw [program, List.map_map]
    apply h.outputs_nodup
  · intro a ha
    obtain ⟨n, hn, rfl⟩ := List.mem_map.mp ha
    apply h.inputs_undriven n hn

/-- The values of the wires solve the gate equations. -/
theorem values_gateHolds (hsingle : c.SingleDriver) (htopological : c.Topological)
    (inputs : List Bool) :
  ∀ n ∈ c.nodes, c.GateHolds (c.values inputs) n
  := by
  intro n hn
  apply run_solves (htopological.inOrder c.lutTables) hsingle.freshTargets (c.initial inputs)
    (n.assignment c.luts c.lutTables) (List.mem_map_of_mem hn)

/-- The values of the input wires are the input bits. -/
theorem values_inputsHold (hsingle : c.SingleDriver) {inputs : List Bool}
    (hlength : inputs.length = c.inputs.length) :
  c.InputsHold (c.values inputs) inputs
  := by
  intro i w hw hlast
  have hi : i < inputs.length := by
    rw [hlength]
    apply (List.getElem?_eq_some_iff.mp hw).1
  have hundriven : ∀ a ∈ c.program, w ≠ a.target := by
    intro a ha heq
    apply hsingle.freshTargets.notMem a ha
    rw [← heq]
    apply List.mem_of_getElem? hw
  rw [values, run_of_not_target hundriven, initial,
    foldl_update_getElem? hw hlast (List.getElem?_eq_getElem hi), List.getElem?_eq_getElem hi]

variable {nodes : List Node}

/-- The values of the wires do not depend on the order of the gates. -/
theorem values_perm (hperm : c.nodes.Perm nodes) (hsingle : c.SingleDriver)
    (htopological : c.Topological) (htopological' : { c with nodes := nodes }.Topological)
    (inputs : List Bool) :
  { c with nodes := nodes }.values inputs = c.values inputs
  := by
  apply Eq.symm
  apply run_perm (hperm.map _) (htopological.inOrder c.lutTables)
    (htopological'.inOrder c.lutTables) hsingle.freshTargets

/-- Whether the circuit can be evaluated does not depend on the order of the gates. -/
theorem evaluable_perm (hperm : c.nodes.Perm nodes) :
  { c with nodes := nodes }.Evaluable ↔ c.Evaluable
  := by
  have hnode : ∀ n : Node, n.Evaluable { c with nodes := nodes } (c.maxWireNumber + 1)
      ↔ n.Evaluable c (c.maxWireNumber + 1) := by
    intro n
    exact ⟨fun h => ⟨h.wires, h.lut, h.fits⟩, fun h => ⟨h.wires, h.lut, h.fits⟩⟩
  constructor
  · rintro ⟨htable, hinputs, hnodes⟩
    use htable, hinputs
    intro n hn
    apply (hnode n).mp (hnodes n (hperm.mem_iff.mp hn))
  · rintro ⟨htable, hinputs, hnodes⟩
    use htable, hinputs
    intro n hn
    apply (hnode n).mpr (hnodes n (hperm.mem_iff.mpr hn))

end Circuit

open EvalCircuit in
/-- The evaluation of a circuit does not depend on the topological order its gates are in: it
returns the same bits in both orders, and rejects the same inputs.  The final values of the
wires are the same too; they solve the gate equations and give the input wires their bits. -/
theorem evaluateCircuit_perm {c : Circuit} {nodes : List Node} (hperm : c.nodes.Perm nodes)
    (hsingle : c.SingleDriver) (htopological : c.Topological)
    (htopological' : { c with nodes := nodes }.Topological) (inputs : List Bool) :
  (∀ outputs, evaluateCircuit { c with nodes := nodes } inputs = .ok outputs
    ↔ evaluateCircuit c inputs = .ok outputs)
  ∧ (∀ e, evaluateCircuit { c with nodes := nodes } inputs = .error e
    ↔ evaluateCircuit c inputs = .error e)
  ∧ ∀ wireValues, evalWires c inputs = .ok wireValues →
    evalWires { c with nodes := nodes } inputs = .ok wireValues
    ∧ (∀ n ∈ c.nodes, c.GateHolds wireValues.cell n) ∧ c.InputsHold wireValues.cell inputs
  := by
  have hvalues := Circuit.values_perm hperm hsingle htopological htopological' inputs
  refine ⟨?_, ?_, ?_⟩
  · intro outputs
    rw [evaluateCircuit_eq_ok, evaluateCircuit_eq_ok, Circuit.evaluable_perm hperm, hvalues]
  · intro e
    rw [evaluateCircuit_eq_error, evaluateCircuit_eq_error]
  · intro wireValues heval
    rw [evalWires_eq_ok, Circuit.evaluable_perm hperm, hvalues]
    obtain ⟨hlength, hc, rfl⟩ := evalWires_eq_ok.mp heval
    exact ⟨⟨hlength, hc, rfl⟩, Circuit.values_gateHolds hsingle htopological inputs,
      Circuit.values_inputsHold hsingle hlength⟩

/-- A circuit whose first two gates can be in either order. -/
def Circuit.diamond : Circuit where
  nodes := [.inv 0 2, .and 0 1 3, .xor 2 3 4]
  luts := []
  inputs := [0, 1]
  outputs := [4]
  lutTables := []
  maxWireNumber := 4

theorem evaluateCircuit_perm_diamond :
  Circuit.diamond.SingleDriver ∧ Circuit.diamond.Topological
    ∧ { Circuit.diamond with nodes := [.and 0 1 3, .inv 0 2, .xor 2 3 4] }.Topological
    ∧ ∀ outputs, evaluateCircuit
        { Circuit.diamond with nodes := [.and 0 1 3, .inv 0 2, .xor 2 3 4] } [true, true]
          = .ok outputs
      ↔ evaluateCircuit Circuit.diamond [true, true] = .ok outputs
  := by
  have hsingle : Circuit.diamond.SingleDriver := ⟨by decide, by decide⟩
  have htopological : Circuit.diamond.Topological :=
    ⟨by decide, by decide, by decide, trivial⟩
  have htopological' :
      { Circuit.diamond with nodes := [.and 0 1 3, .inv 0 2, .xor 2 3 4] }.Topological :=
    ⟨by decide, by decide, by decide, trivial⟩
  use hsingle, htopological, htopological'
  apply (evaluateCircuit_perm (List.Perm.swap ..) hsingle htopological htopological' _).1

end SynCirc
