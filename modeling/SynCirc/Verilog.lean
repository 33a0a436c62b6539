import SynCirc.EvalCircuit
import SynCirc.EmitVerilog
import Mathlib.Data.List.Nodup

/-!
# The meaning of the Verilog text

The assignments of the module are executed in the order they are written.  For gates with at
most two inputs an assignment computes what `evaluateCircuit` computes.  The gates with three
and four inputs are written with the operator `^` instead of `&`, so their wires are right
only for some values of their inputs (`values_iff`).  The assignments of the outputs go from
the output bits to the wires (`properlyDriven_iff`).
-/

namespace SynCirc

open Zig StraightLine

namespace EmitVerilog

/-! ### Execution -/

def BinOp.eval : BinOp → Bool → Bool → Bool
  | .and => (· && ·)
  | .xor => (· != ·)

namespace Expr

/-- The nets an expression reads. -/
def reads : Expr → List Net
  | .net n => [n]
  | .literal _ => []
  | .inv n => [n]
  | .chain _ first rest => first :: rest

/-- The value of an expression from the values of the nets it reads. -/
def eval : Expr → List Bool → Bool
  | .net _, [a] => a
  | .literal value, _ => value
  | .inv _, [a] => !a
  | .chain op _ _, a :: bits => bits.foldl op.eval a
  | _, _ => false

end Expr

/-- An assignment statement as an assignment. -/
def Assign.assignment (a : Assign) : Assignment Net Bool := ⟨a.value.reads, a.value.eval, a.target⟩

/-- The values of the nets after executing the assignments in order. -/
def execute (v : Net → Bool) (assigns : List Assign) : Net → Bool :=
  run v (assigns.map Assign.assignment)

/-- The bits of `__spfe_input` have the given values. -/
def InputsAre (v : Net → Bool) (x : List Bool) : Prop :=
  ∀ i bit, x[i]? = some bit → v (.input i) = bit

/-! ### The gates -/

end EmitVerilog

/-- On the values of its inputs, the operator written for the gate computes what the gate
computes: a gate with three inputs does not have exactly one at 1, and a gate with four inputs
has none or exactly two at 1. -/
def Node.OperatorOk (bits : List Bool) : Node → Prop
  | .and3 _ _ _ _ => bits.count true ≠ 1
  | .and4 _ _ _ _ _ => bits.count true = 0 ∨ bits.count true = 2
  | _ => True

/-- In an evaluation that starts at the valuation `v`, every gate is reached with values for
which the operator written for it is right. -/
def Circuit.OperatorsOk (c : Circuit) (v : Nat → Bool) : List Node → Prop
  | [] => True
  | n :: ns => n.OperatorOk ((n.reads c.luts).map v)
      ∧ c.OperatorsOk (exec v (n.assignment c.luts c.lutTables)) ns

namespace EmitVerilog

/-- The assignment written for a gate. -/
def nodeAssign : Node → Assign
  | .zero output => emitConstant false output
  | .one output => emitConstant true output
  | .inv input output => emitOneInput input output
  | .and inputA inputB output => emitTwoInput .and inputA inputB output
  | .xor inputA inputB output => emitTwoInput .xor inputA inputB output
  | .and3 inputA inputB inputC output => emitThreeInput .xor inputA inputB inputC output
  | .and4 inputA inputB inputC inputD output =>
      emitFourInput .xor inputA inputB inputC inputD output
  | .lut _ _ _ output => emitConstant false output

variable {c : Circuit}

theorem emitNode_eq {n : Node} (hlut : n.isLut = false) :
  emitNode n = .ok (nodeAssign n)
  := by
  cases n with
  | lut offset tableOffset arity output => contradiction
  | _ => rfl

theorem emitNodes_eq (hfree : c.LutFree) :
  emitNodes c = .ok (c.nodes.map nodeAssign)
  := by
  apply Outcome.mapM_eq_ok
  intro n hn
  apply emitNode_eq (hfree n hn)

theorem target_nodeAssign (n : Node) :
  (nodeAssign n).target = .wire n.output
  := by
  cases n <;> rfl

theorem reads_nodeAssign {n : Node} (hlut : n.isLut = false) (luts : List Nat) :
  (nodeAssign n).value.reads = (n.reads luts).map Net.wire
  := by
  cases n with
  | lut offset tableOffset arity output => contradiction
  | _ => rfl

/-- The exclusive or of three bits is their conjunction unless exactly one is 1. -/
theorem xor_eq_and_three (a b c : Bool) :
  ((a != b) != c) = (a && b && c) ↔ [a, b, c].count true ≠ 1
  := by
  revert a b c
  decide

/-- The exclusive or of four bits is their conjunction if none or exactly two are 1. -/
theorem xor_eq_and_four (a b c d : Bool) :
  (((a != b) != c) != d) = (a && b && c && d)
    ↔ [a, b, c, d].count true = 0 ∨ [a, b, c, d].count true = 2
  := by
  revert a b c d
  decide

/-- The operator written for a gate computes what the gate computes, exactly for the values
for which it is right. -/
theorem eval_nodeAssign_iff {n : Node} (hlut : n.isLut = false) (luts : List Nat)
    (lutTables : List Bool) (v : Nat → Bool) :
  (nodeAssign n).value.eval ((n.reads luts).map v) = n.fn lutTables ((n.reads luts).map v)
    ↔ n.OperatorOk ((n.reads luts).map v)
  := by
  cases n with
  | lut offset tableOffset arity output => contradiction
  | and3 inputA inputB inputC output =>
      apply xor_eq_and_three
  | and4 inputA inputB inputC inputD output =>
      apply xor_eq_and_four
  | _ => exact ⟨fun _ => trivial, fun _ => rfl⟩

/-! ### The whole module -/

theorem wire_injective :
  Function.Injective Net.wire
  := by
  intro k k' h
  apply Net.wire.inj h

/-- The output wire of a gate keeps its value if no later gate drives it. -/
theorem run_head (c : Circuit) (v : Nat → Bool) {n : Node} {ns : List Node}
    (h : n.output ∉ ns.map Node.output) :
  run (exec v (n.assignment c.luts c.lutTables)) (ns.map (Node.assignment c.luts c.lutTables))
      n.output
    = n.fn c.lutTables ((n.reads c.luts).map v)
  := by
  rw [run_of_not_target]
  · apply exec_target
  · intro a ha heq
    obtain ⟨m, hm, rfl⟩ := List.mem_map.mp ha
    apply h
    rw [heq]
    apply List.mem_map_of_mem hm

/-- The net of a gate keeps its value if no later gate drives it. -/
theorem execute_head (v' : Net → Bool) {n : Node} {ns : List Node}
    (h : n.output ∉ ns.map Node.output) :
  execute (exec v' (nodeAssign n).assignment) (ns.map nodeAssign) (.wire n.output)
    = (nodeAssign n).value.eval ((nodeAssign n).value.reads.map v')
  := by
  rw [execute, run_of_not_target]
  · rw [← target_nodeAssign]
    apply exec_target v' (nodeAssign n).assignment
  · intro a ha heq
    rw [List.map_map] at ha
    obtain ⟨m, hm, rfl⟩ := List.mem_map.mp ha
    apply h
    have htarget : Net.wire n.output = Net.wire m.output := by
      rw [heq]
      apply target_nodeAssign
    rw [wire_injective htarget]
    apply List.mem_map_of_mem hm

/-- The assignments of the gates give the outputs of the gates the right values exactly when
every gate is reached with values for which its operator is right. -/
theorem execute_nodes_iff {known : List Nat} {ns : List Node} {v : Nat → Bool} {v' : Net → Bool}
    (hfree : ∀ n ∈ ns, n.isLut = false) (hreads : Node.ReadFrom c.luts known ns)
    (hnodup : (ns.map Node.output).Nodup) (hnew : ∀ n ∈ ns, n.output ∉ known)
    (hagree : Agree {w | w ∈ known} Net.wire v v') :
  Agree {w | w ∈ known ∨ w ∈ ns.map Node.output} Net.wire
      (run v (ns.map (Node.assignment c.luts c.lutTables))) (execute v' (ns.map nodeAssign))
    ↔ c.OperatorsOk v ns
  := by
  induction ns generalizing known v v' with
  | nil =>
      refine ⟨fun _ => trivial, fun _ w hw => hagree w (hw.resolve_right ?_)⟩
      simp
  | cons n ns ih =>
      rw [List.forall_mem_cons] at hfree hnew
      obtain ⟨hread, hrest⟩ := hreads
      rw [List.map_cons, List.nodup_cons] at hnodup
      have hok := eval_nodeAssign_iff hfree.1 c.luts c.lutTables v
      have hnew' : ∀ m ∈ ns, m.output ∉ n.output :: known := by
        intro m hm hmem
        rcases List.mem_cons.mp hmem with heq | hmem
        · apply hnodup.1
          rw [← heq]
          apply List.mem_map_of_mem hm
        · apply hnew.2 m hm hmem
      have hstep : n.OperatorOk ((n.reads c.luts).map v) →
          Agree {w | w ∈ n.output :: known} Net.wire
            (exec v (n.assignment c.luts c.lutTables)) (exec v' (nodeAssign n).assignment) := by
        intro h
        have hinsert :
            Agree (insert (n.assignment c.luts c.lutTables).target {w | w ∈ known}) Net.wire
            (exec v (n.assignment c.luts c.lutTables)) (exec v' (nodeAssign n).assignment) :=
          hagree.exec_insert wire_injective (reads_nodeAssign hfree.1 c.luts) hread
            (target_nodeAssign n) (hok.mpr h)
        intro w hw
        apply hinsert w (List.mem_cons.mp hw)
      have hdomain : {w | w ∈ known ∨ w ∈ (n :: ns).map Node.output}
          = {w | w ∈ n.output :: known ∨ w ∈ ns.map Node.output} := by
        ext w
        simp only [Set.mem_ofPred_eq, List.map_cons, List.mem_cons]
        tauto
      rw [hdomain]
      constructor
      · intro h
        have hhead : n.OperatorOk ((n.reads c.luts).map v) := by
          have hfinal := h n.output (.inl List.mem_cons_self)
          have hrun := run_head c v hnodup.1
          have hexecute := execute_head v' hnodup.1
          rw [reads_nodeAssign hfree.1 c.luts, hagree.map_eq hread] at hexecute
          apply hok.mp
          rw [← hrun, ← hexecute]
          apply hfinal
        exact ⟨hhead, (ih hfree.2 hrest hnodup.2 hnew' (hstep hhead)).mp h⟩
      · rintro ⟨hhead, htail⟩
        apply (ih hfree.2 hrest hnodup.2 hnew' (hstep hhead)).mpr htail

/-- The assignments of the inputs give the input wires their bits. -/
theorem execute_inputs {D : Set Nat} {ws : List Nat} {x : List Bool} {k : Nat} {v : Nat → Bool}
    {v' : Net → Bool} (hlength : x.length = ws.length)
    (hinputs : ∀ i bit, x[i]? = some bit → v' (.input (k + i)) = bit)
    (hagree : Agree D Net.wire v v') :
  Agree (D ∪ {w | w ∈ ws}) Net.wire
    ((ws.zip x).foldl (fun v p => Function.update v p.1 p.2) v)
    (execute v' ((ws.zipIdx k).map (fun p => ⟨.wire p.1, .net (.input p.2)⟩)))
  := by
  induction ws generalizing D x k v v' with
  | nil =>
      intro w hw
      apply hagree w
      simpa using hw
  | cons w ws ih =>
      cases x with
      | nil => contradiction
      | cons bit x =>
          have hbit : v' (.input k) = bit := hinputs 0 bit rfl
          have hstep : Agree (D ∪ {w}) Net.wire (Function.update v w bit)
              (exec v' (Assign.assignment ⟨.wire w, .net (.input k)⟩)) := by
            intro w' hw'
            by_cases heq : w' = w
            · rw [heq, Function.update_self]
              apply Eq.trans (exec_target ..) hbit
            · rw [Function.update_of_ne heq]
              apply Eq.trans (exec_of_ne (fun h => heq (wire_injective h)))
              apply hagree w' (hw'.resolve_right heq)
          have hinputs' : ∀ i bit', x[i]? = some bit' →
              exec v' (Assign.assignment ⟨.wire w, .net (.input k)⟩) (.input (k + 1 + i))
                = bit' := by
            intro i bit' hi
            apply Eq.trans (exec_of_ne Net.noConfusion)
            rw [Nat.add_right_comm, Nat.add_assoc]
            apply hinputs (i + 1) bit' hi
          have hrest := ih (Nat.succ.inj hlength) hinputs' hstep
          have hdomain : D ∪ {w' | w' ∈ w :: ws} = D ∪ {w} ∪ {w' | w' ∈ ws} := by
            ext w'
            simp only [Set.mem_union, Set.mem_ofPred_eq, List.mem_cons, Set.mem_singleton_iff]
            tauto
          rw [hdomain]
          apply hrest

/-- For a circuit without lookup tables with one driver per wire and its gates in topological
order, executing the assignments of the inputs and the gates gives every driven wire the value
`evaluateCircuit` computes for it, exactly when every gate is reached with values for which
the operator written for it is right. -/
theorem values_iff (hfree : c.LutFree) (hsingle : c.SingleDriver) (htopological : c.Topological)
    {x : List Bool} {wireValues : EvalCircuit.WireValues}
    (heval : EvalCircuit.evalWires c x = .ok wireValues)
    {v : Net → Bool} (hinputs : InputsAre v x) :
  ∃ gates, emitNodes c = .ok gates
    ∧ ((∀ w, c.Driven w →
        execute v (emitInputAssignments c ++ gates) (.wire w) = wireValues.cell w)
      ↔ c.OperatorsOk (c.initial x) c.nodes)
  := by
  obtain ⟨hlength, -, hcells⟩ := EvalCircuit.evalWires_eq_ok.mp heval
  have hvalues : wireValues.cell = c.values x := by
    rw [← hcells]
  refine ⟨_, emitNodes_eq hfree, ?_⟩
  have hstart : Agree {w | w ∈ c.inputs} Net.wire (c.initial x)
      (execute v (emitInputAssignments c)) := by
    have hnone : Agree ∅ Net.wire (fun _ => false) v := fun w hw => hw.elim
    have hagree := execute_inputs (k := 0) hlength
      (fun i bit hi => by
        rw [Nat.zero_add]
        apply hinputs i bit hi) hnone
    intro w hw
    apply hagree w (.inr hw)
  have happend : execute v (emitInputAssignments c ++ c.nodes.map nodeAssign)
      = execute (execute v (emitInputAssignments c)) (c.nodes.map nodeAssign) := by
    rw [execute, List.map_append, run_append]
    rfl
  rw [← execute_nodes_iff hfree htopological hsingle.outputs_nodup hsingle.inputs_undriven hstart,
    happend, hvalues]
  rfl

/-- A gate with three inputs. -/
def threeInputs : Circuit where
  nodes := [.and3 0 1 2 3]
  luts := []
  inputs := [0, 1, 2]
  outputs := [3]
  lutTables := []
  maxWireNumber := 3

/-- The nets at the beginning, with the bits of `__spfe_input` set. -/
def startAt (x : List Bool) : Net → Bool
  | .input i => x.getD i false
  | _ => false

theorem inputsAre_startAt (x : List Bool) :
  InputsAre (startAt x) x
  := by
  intro i bit hi
  rw [startAt, List.getD_eq_getElem?_getD, hi]
  rfl

theorem threeInputs_wired :
  threeInputs.Wired
  := by
  refine ⟨⟨by decide, by decide⟩, ⟨by decide, trivial⟩, ?_⟩
  simp only [Circuit.Driven]
  decide

/-- On three bits at 1, the operator is right. -/
theorem values_iff_threeInputs :
  ∃ gates, emitNodes threeInputs = .ok gates
    ∧ ∀ w, threeInputs.Driven w →
      execute (startAt [true, true, true]) (emitInputAssignments threeInputs ++ gates) (.wire w)
        = threeInputs.values [true, true, true] w
  := by
  have hfree : threeInputs.LutFree := by
    rw [Circuit.LutFree]
    decide
  have heval : EvalCircuit.evalWires threeInputs [true, true, true]
      = .ok ⟨4, threeInputs.values [true, true, true]⟩ := rfl
  obtain ⟨gates, hgates, hiff⟩ := values_iff hfree threeInputs_wired.toSingleDriver
    threeInputs_wired.topological heval (inputsAre_startAt _)
  use gates, hgates
  apply hiff.mpr
  refine ⟨?_, trivial⟩
  rw [Node.OperatorOk]
  decide

/-- On one bit at 1, the module computes 1 for the gate where `evaluateCircuit` computes 0. -/
theorem not_values_threeInputs :
  threeInputs.LutFree ∧ threeInputs.inputs.Nodup ∧ threeInputs.Wired
    ∧ InputsAre (startAt [true, false, false]) [true, false, false]
    ∧ evaluateCircuit threeInputs [true, false, false] = .ok [false]
    ∧ ∃ gates, emitNodes threeInputs = .ok gates
      ∧ execute (startAt [true, false, false]) (emitInputAssignments threeInputs ++ gates)
        (.wire 3) = true
  := by
  refine ⟨?_, by decide, threeInputs_wired, inputsAre_startAt _, by decide, _, rfl, by decide⟩
  rw [Circuit.LutFree]
  decide

/-! ### Drivers -/

/-- Every declared wire is the target of exactly one assignment, every output bit is the target
of exactly one assignment, from the wire of the output, and no assignment reads an output
bit. -/
structure ProperlyDriven (c : Circuit) (m : Module) : Prop where
  wires : ∀ k ∈ m.wires, m.assigns.countP (fun a => a.target = .wire k) = 1
  outputs : ∀ i o, c.outputs[i]? = some o →
    m.assigns.filter (fun a => a.target = .output i) = [⟨.output i, .net (.wire o)⟩]
  no_output_reads : ∀ a ∈ m.assigns, ∀ i, .output i ∉ a.value.reads

theorem emitModule_eq (hfree : c.LutFree) :
  emitModule c = .ok ⟨c.inputs ++ c.nodes.map Node.output,
    emitInputAssignments c ++ c.nodes.map nodeAssign ++ emitOutputAssignments c⟩
  := by
  have hwires : c.nodes.mapM nodeDefinition = .ok (c.nodes.map Node.output) := by
    apply Outcome.mapM_eq_ok
    intro n hn
    have hlut := hfree n hn
    cases n with
    | lut offset tableOffset arity output => contradiction
    | _ => rfl
  rw [emitModule, emitWireDefinitions, hwires, emitNodes_eq hfree]
  rfl

/-- The targets of the assignments of the inputs and the gates. -/
theorem targets_eq (c : Circuit) :
  (emitInputAssignments c ++ c.nodes.map nodeAssign).map Assign.target
    = (c.inputs ++ c.nodes.map Node.output).map Net.wire
  := by
  have hinputs : (emitInputAssignments c).map Assign.target = c.inputs.map Net.wire := by
    rw [emitInputAssignments, List.map_map]
    conv_rhs => rw [← List.zipIdx_map_fst 0 c.inputs, List.map_map]
    rfl
  have hnodes : (c.nodes.map nodeAssign).map Assign.target
      = (c.nodes.map Node.output).map Net.wire := by
    rw [List.map_map, List.map_map]
    apply List.map_congr_left
    intro n hn
    apply target_nodeAssign
  rw [List.map_append, hinputs, hnodes, List.map_append]

/-- The assignments of the inputs and the gates read no output bit. -/
theorem output_notMem_reads (hfree : c.LutFree) {a : Assign}
    (ha : a ∈ emitInputAssignments c ++ c.nodes.map nodeAssign) (i : Nat) :
  .output i ∉ a.value.reads
  := by
  rcases List.mem_append.mp ha with ha | ha
  · obtain ⟨p, hp, rfl⟩ := List.mem_map.mp ha
    simp [Expr.reads]
  · obtain ⟨n, hn, rfl⟩ := List.mem_map.mp ha
    rw [reads_nodeAssign (hfree n hn) c.luts]
    simp

/-- The module of a circuit without lookup tables, with distinct inputs and one driver per
wire, is properly driven exactly when the circuit has no outputs: the assignment of every
output goes from the output bit to the wire. -/
theorem properlyDriven_iff (hfree : c.LutFree) (hinputs : c.inputs.Nodup)
    (hsingle : c.SingleDriver) :
  ∃ m, emitModule c = .ok m ∧ (ProperlyDriven c m ↔ c.outputs = [])
  := by
  refine ⟨_, emitModule_eq hfree, ?_⟩
  constructor
  · intro h
    rcases houtputs : c.outputs with _ | ⟨o, os⟩
    · rfl
    · have hmem : (⟨.wire o, .net (.output 0)⟩ : Assign) ∈ emitOutputAssignments c := by
        rw [emitOutputAssignments, houtputs]
        apply List.mem_cons_self
      have hread := h.no_output_reads _ (List.mem_append_right _ hmem) 0
      simp [Expr.reads] at hread
  · intro houtputs
    have hnone : emitOutputAssignments c = [] := by
      rw [emitOutputAssignments, houtputs]
      rfl
    rw [hnone, List.append_nil]
    constructor
    · intro k hk
      have hnodup : (c.inputs ++ c.nodes.map Node.output).Nodup := by
        rw [List.nodup_append]
        refine ⟨hinputs, hsingle.outputs_nodup, ?_⟩
        intro w hw w' hw' heq
        obtain ⟨n, hn, rfl⟩ := List.mem_map.mp hw'
        apply hsingle.inputs_undriven n hn (heq ▸ hw)
      have hcount := List.count_eq_one_of_mem (hnodup.map wire_injective)
        (List.mem_map_of_mem hk)
      rw [← targets_eq, List.count, List.countP_map] at hcount
      rw [← hcount]
      apply List.countP_congr
      intro a ha
      simp only [decide_eq_true_eq, Function.comp_apply, beq_iff_eq]
    · intro i o ho
      rw [houtputs] at ho
      contradiction
    · intro a ha
      apply output_notMem_reads hfree ha

theorem properlyDriven_iff_threeInputs :
  ∃ m, emitModule { threeInputs with outputs := [] } = .ok m
    ∧ ProperlyDriven { threeInputs with outputs := [] } m
  := by
  have hfree : ({ threeInputs with outputs := [] } : Circuit).LutFree := by
    rw [Circuit.LutFree]
    decide
  obtain ⟨m, hm, hiff⟩ := properlyDriven_iff hfree (by decide) ⟨by decide, by decide⟩
  exact ⟨m, hm, hiff.mpr rfl⟩

/-- With its output, the module assigns the output bit to the wire of the gate, which has two
drivers then, while the output bit has none. -/
theorem not_properlyDriven_threeInputs :
  threeInputs.LutFree ∧ threeInputs.inputs.Nodup ∧ threeInputs.Wired
    ∧ ∃ m, emitModule threeInputs = .ok m
      ∧ m.assigns.countP (fun a => a.target = .wire 3) = 2
      ∧ m.assigns.countP (fun a => a.target = .output 0) = 0
      ∧ ¬ ProperlyDriven threeInputs m
  := by
  refine ⟨?_, by decide, threeInputs_wired, _, rfl, by decide, by decide, ?_⟩
  · rw [Circuit.LutFree]
    decide
  · intro h
    have hcount := h.wires 3 (by decide)
    revert hcount
    decide

end EmitVerilog

end SynCirc
