import SynCirc.EvalCircuit
import SynCirc.Linearize.Run
import SynCirc.Zig.Loops

/-!
# The pass preserves the function of the circuit

The linearized circuit simulates the circuit: at the new number of every mentioned wire it
computes the value of the wire.  A constant is computed from the first input and its
negation, and a copied output gets the value of its wire by two negations.
-/

namespace SynCirc

open Zig StraightLine Linearize

theorem Node.fn_rename (ρ : Nat → Nat) (lutTables : List Bool) (n : Node) :
  (n.rename ρ).fn lutTables = n.fn lutTables
  := by
  funext bits
  cases n <;> rcases bits with _ | ⟨b₁, _ | ⟨b₂, _ | ⟨b₃, _ | ⟨b₄, _ | ⟨b₅, bits⟩⟩⟩⟩⟩ <;> rfl

theorem Node.isConstant_rename (ρ : Nat → Nat) (n : Node) :
  (n.rename ρ).isConstant = n.isConstant
  := by
  cases n <;> rfl

theorem Node.isLut_rename (ρ : Nat → Nat) (n : Node) :
  (n.rename ρ).isLut = n.isLut
  := by
  cases n <;> rfl

theorem Node.isLut_of_isConstant {n : Node} (h : n.isConstant = true) :
  n.isLut = false
  := by
  cases n <;> first | rfl | contradiction

theorem Node.arityFits_rename (ρ : Nat → Nat) (n : Node) :
  (n.rename ρ).arityFits = n.arityFits
  := by
  cases n <;> rfl

namespace Layout

variable {c : Circuit} (L : Layout c)

/-- The mentioned wires. -/
def domain (c : Circuit) : Set Nat := {w | w ∈ c.mentioned}

/-- The assignments of gates of the linearized circuit. -/
def assignments (nodes : List Node) : List (Assignment Nat Bool) :=
  nodes.map (Node.assignment L.luts c.lutTables)

/-! ### Facts about the numbers -/

theorem mem_nodes {g : Node × Nat} (hg : g ∈ L.gates) :
  g.1 ∈ c.nodes
  := by
  rw [← L.gates_nodes]
  apply List.mem_map_of_mem hg

theorem rename_lt_of_input {w : Nat} (hw : w ∈ c.inputs) :
  L.rename w < c.inputs.length
  := by
  rw [← List.mem_range, ← L.rename_inputs]
  apply List.mem_map_of_mem hw

/-- A copy is made for the output at some position that is to be copied. -/
theorem exists_of_copy {k : Copy} (hk : k ∈ L.copies) :
  ∃ i, c.outputs[i]? = some k.source ∧ c.isCopy (k.source, i) = true ∧ k.slot = c.slot i
  := by
  have hmem : (k.source, k.slot) ∈ L.copies.map (fun k => (k.source, k.slot)) :=
    List.mem_map_of_mem hk
  rw [L.copies_eq] at hmem
  obtain ⟨p, hp, heq⟩ := List.mem_map.mp hmem
  obtain ⟨hp, hcopy⟩ := List.mem_filter.mp hp
  obtain ⟨hsource, hslot⟩ := Prod.mk.inj heq
  use p.2
  rw [← hsource, ← hslot]
  exact ⟨List.mem_zipIdx_iff_getElem?.mp hp, hcopy, rfl⟩

/-- Every output that is to be copied has its copy. -/
theorem exists_copy {i w : Nat} (hw : c.outputs[i]? = some w) (hcopy : c.isCopy (w, i) = true) :
  ∃ k ∈ L.copies, k.source = w ∧ k.slot = c.slot i
  := by
  have hmem : (w, c.slot i) ∈ (c.outputs.zipIdx.filter c.isCopy).map
      (fun p => (p.1, c.slot p.2)) := by
    apply List.mem_map_of_mem (f := fun p => (p.1, c.slot p.2)) (a := (w, i))
    apply List.mem_filter.mpr
    exact ⟨List.mem_zipIdx_iff_getElem?.mpr hw, hcopy⟩
  rw [← L.copies_eq] at hmem
  obtain ⟨k, hk, heq⟩ := List.mem_map.mp hmem
  obtain ⟨hsource, hslot⟩ := Prod.mk.inj heq
  exact ⟨k, hk, hsource, hslot⟩

theorem copy_source_mem {k : Copy} (hk : k ∈ L.copies) :
  k.source ∈ c.outputs
  := by
  obtain ⟨i, hi, -⟩ := L.exists_of_copy hk
  apply List.mem_of_getElem? hi

/-- The temporary wire of a copy. -/
theorem copy_tmp_mem {k : Copy} (hk : k ∈ L.copies) :
  k.tmp ∈ constantTemps L.gates ++ L.copies.map Copy.tmp
  := List.mem_append_right _ (List.mem_map_of_mem hk)

/-- The temporary wire of a constant. -/
theorem constant_tmp_mem {g : Node × Nat} (hg : g ∈ L.gates) (hconstant : g.1.isConstant = true) :
  g.2 ∈ constantTemps L.gates ++ L.copies.map Copy.tmp
  := by
  apply List.mem_append_left
  apply List.mem_map_of_mem
  apply List.mem_filter.mpr ⟨hg, hconstant⟩

/-- The slot of an output that is not copied is the new number of its wire. -/
theorem rename_of_not_copy {i w : Nat} (hw : c.outputs[i]? = some w)
    (hcopy : c.isCopy (w, i) = false) :
  L.rename w = c.slot i
  := by
  rw [Circuit.isCopy, decide_eq_false_iff_not, not_or] at hcopy
  rw [L.rename_output w (List.mem_of_getElem? hw) hcopy.1, idxOf_eq_of_notMem_take hw hcopy.2]

/-- The slot of a copied output is not the new number of a wire. -/
theorem rename_ne_copy_slot (hc : c.Renumberable) {k : Copy} (hk : k ∈ L.copies) {w : Nat}
    (hw : w ∈ c.mentioned) :
  L.rename w ≠ k.slot
  := by
  obtain ⟨i, hsource, hcopy, hslot⟩ := L.exists_of_copy hk
  rw [hslot, Circuit.slot]
  intro heq
  by_cases hin : w ∈ c.inputs
  · have hlt := L.rename_lt_of_input hin
    have hle := inputs_length_le hc
    omega
  · by_cases hout : w ∈ c.outputs
    · rw [L.rename_output w hout hin, Circuit.slot] at heq
      have hi : c.outputs.idxOf w = i := by omega
      have hget : c.outputs[i]? = some w := by
        rw [← hi]
        apply List.getElem?_idxOf hout
      obtain rfl : w = k.source := Option.some.inj (hget.symm.trans hsource)
      rw [Circuit.isCopy, decide_eq_true_iff] at hcopy
      have hbefore : k.source ∈ c.outputs.take i := hcopy.resolve_left hin
      have hlt := List.idxOf_lt_length_of_mem hbefore
      rw [List.length_take] at hlt
      have hsame : (c.outputs.take i).idxOf k.source = c.outputs.idxOf k.source := by
        conv_rhs => rw [← List.take_append_drop i c.outputs]
        rw [List.idxOf_append_of_mem hbefore]
      omega
    · have hle := (L.rename_inner w hw hin hout).2
      omega

/-- A temporary wire is not an output slot. -/
theorem tmp_ne_slot {t : Nat} (ht : t ∈ constantTemps L.gates ++ L.copies.map Copy.tmp)
    (i : Nat) :
  t ≠ c.slot i
  := by
  have hle := (L.temps_inner t ht).2
  rw [Circuit.slot]
  omega

/-- No two copies have the same slot. -/
theorem copies_slot_nodup :
  (L.copies.map Copy.slot).Nodup
  := by
  have hslots : L.copies.map Copy.slot
      = ((c.outputs.zipIdx.filter c.isCopy).map Prod.snd).map c.slot := by
    have h := congrArg (List.map Prod.snd) L.copies_eq
    rw [List.map_map, List.map_map] at h
    rw [List.map_map]
    apply h
  rw [hslots]
  apply List.Nodup.map
  · intro i j heq
    rw [Circuit.slot, Circuit.slot] at heq
    omega
  · apply List.Nodup.sublist (List.filter_sublist.map Prod.snd)
    rw [List.zipIdx_map_snd]
    exact List.nodup_range'

/-! ### The simulation -/

/-- The inputs of the linearized circuit get the bits of the inputs. -/
theorem agree_initial (inputs : List Bool) :
  Agree (domain c) L.rename (c.initial inputs) (L.circuit.initial inputs)
  := by
  have hfold : ∀ (ps : List (Nat × Bool)) (v v' : Nat → Bool), (∀ p ∈ ps, p.1 ∈ c.inputs) →
      Agree (domain c) L.rename v v' →
      Agree (domain c) L.rename (ps.foldl (fun v p => Function.update v p.1 p.2) v)
        ((ps.map (Prod.map L.rename id)).foldl (fun v p => Function.update v p.1 p.2) v') := by
    intro ps
    induction ps with
    | nil =>
        intro v v' hps h
        apply h
    | cons p ps ih =>
        intro v v' hps h
        rw [List.forall_mem_cons] at hps
        apply ih _ _ hps.2
        apply h.update L.rename_injOn (Circuit.mem_mentioned_of_input hps.1)
  have hinputs : L.circuit.inputs.zip inputs
      = (c.inputs.zip inputs).map (Prod.map L.rename id) := by
    rw [circuit, ← L.rename_inputs, ← List.zip_map, List.map_id]
  rw [Circuit.initial, Circuit.initial, hinputs]
  apply hfold
  · intro p hp
    apply (List.of_mem_zip hp).1
  · intro w hw
    rfl

/-- The assignment of a renamed gate is the renamed assignment. -/
theorem assignment_rename {n : Node} (hn : n ∈ c.nodes) :
  (n.rename L.rename).assignment L.luts c.lutTables
    = (n.assignment c.luts c.lutTables).rename L.rename
  := by
  rw [Node.assignment, Node.assignment, Assignment.rename, L.reads_rename n hn, Node.fn_rename,
    Node.output_rename]

/-- The gates that stand for a constant give it its value. -/
theorem agree_constant {v v' : Nat → Bool} (h : Agree (domain c) L.rename v v')
    {x tmp output : Nat} (hx : x ∈ domain c) (htmp : ∀ w ∈ domain c, L.rename w ≠ tmp)
    (houtput : output ∈ domain c) (op : Nat → Nat → Nat → Node) (f : Bool → Bool → Bool)
    (hop : ∀ a b o, (op a b o).assignment L.luts c.lutTables
      = ⟨[a, b], (op a b o).fn c.lutTables, o⟩)
    (hf : ∀ a b o p q, (op a b o).fn c.lutTables [p, q] = f p q) :
  Agree (domain c) L.rename (Function.update v output (f (v x) (!v x)))
    (run v' (L.assignments [.inv (L.rename x) tmp, op (L.rename x) tmp (L.rename output)]))
  := by
  have hinv : Agree (domain c) L.rename v
      (exec v' ((Node.inv (L.rename x) tmp).assignment L.luts c.lutTables)) :=
    h.exec_fresh htmp
  have htmpval : exec v' ((Node.inv (L.rename x) tmp).assignment L.luts c.lutTables) tmp
      = !v x := by
    apply Eq.trans (exec_target ..)
    rw [← h x hx]
    rfl
  have hvalue : exec (exec v' ((Node.inv (L.rename x) tmp).assignment L.luts c.lutTables))
      ((op (L.rename x) tmp (L.rename output)).assignment L.luts c.lutTables)
      = Function.update (exec v' ((Node.inv (L.rename x) tmp).assignment L.luts c.lutTables))
        (L.rename output) (f (v x) (!v x)) := by
    rw [exec, hop]
    simp only [List.map_cons, List.map_nil, hf, hinv x hx, htmpval]
  rw [assignments, List.map_cons, List.map_singleton, run_cons, run_cons, run_nil, hvalue]
  apply hinv.update L.rename_injOn houtput

/-- The gates that stand for a gate keep the agreement. -/
theorem agree_gate (hc : c.Renumberable) {g : Node × Nat} (hg : g ∈ L.gates) {v v' : Nat → Bool}
    (h : Agree (domain c) L.rename v v') :
  Agree (domain c) L.rename (exec v (g.1.assignment c.luts c.lutTables))
    (run v' (L.assignments (gateNodes c L.rename g)))
  := by
  have hn := L.mem_nodes hg
  have houtput : g.1.output ∈ domain c :=
    Circuit.mem_mentioned_of_node hn (List.mem_append_right _ List.mem_cons_self)
  have hx : c.inputs.headD 0 ∈ domain c := by
    apply Circuit.mem_mentioned_of_input
    rw [List.headD_eq_head?_getD, List.head?_eq_some_head hc.inputs_ne_nil]
    apply List.head_mem
  cases hconstant : g.1.isConstant with
  | false =>
      rw [gateNodes_of_not_constant c L.rename hconstant, assignments, List.map_singleton,
        L.assignment_rename hn]
      apply h.exec_rename L.rename_injOn
      · intro w hw
        apply Circuit.mem_mentioned_of_node hn (List.mem_append_left _ hw)
      · apply houtput
  | true =>
      have htmp : ∀ w ∈ domain c, L.rename w ≠ g.2 :=
        L.temps_fresh g.2 (L.constant_tmp_mem hg hconstant)
      obtain ⟨n, tmp⟩ := g
      cases n with
      | zero output =>
          have hagree := L.agree_constant h hx htmp houtput .and (· && ·)
            (fun _ _ _ => rfl) (fun _ _ _ _ _ => rfl)
          rw [Bool.and_not_self] at hagree
          apply hagree
      | one output =>
          have hagree := L.agree_constant h hx htmp houtput .xor (· != ·)
            (fun _ _ _ => rfl) (fun _ _ _ _ _ => rfl)
          rw [Bool.bne_not_self] at hagree
          apply hagree
      | _ => contradiction

/-- The gates before the copies compute the values of the circuit at the new numbers. -/
theorem agree_body (hc : c.Renumberable) {v v' : Nat → Bool}
    (h : Agree (domain c) L.rename v v') :
  Agree (domain c) L.rename (run v c.program) (run v' (L.assignments L.body))
  := by
  have hgates : ∀ gates : List (Node × Nat), (∀ g ∈ gates, g ∈ L.gates) → ∀ v v',
      Agree (domain c) L.rename v v' →
      Agree (domain c) L.rename
        (run v ((gates.map Prod.fst).map (Node.assignment c.luts c.lutTables)))
        (run v' (L.assignments (gates.flatMap (gateNodes c L.rename)))) := by
    intro gates
    induction gates with
    | nil =>
        intro _ v v' h
        apply h
    | cons g gates ih =>
        intro hmem v v' h
        rw [List.forall_mem_cons] at hmem
        rw [List.flatMap_cons, assignments, List.map_append, run_append]
        apply ih hmem.2
        apply L.agree_gate hc hmem.1 h
  rw [Circuit.program, ← L.gates_nodes]
  apply hgates L.gates (fun _ hg => hg) v v' h

/-- The copies keep the agreement, and give every slot the value of its source. -/
theorem agree_copies {ks : List Copy} {v v' : Nat → Bool}
    (h : Agree (domain c) L.rename v v')
    (hsource : ∀ k ∈ ks, k.source ∈ domain c)
    (htmp : ∀ k ∈ ks, ∀ w ∈ domain c, L.rename w ≠ k.tmp)
    (hslot : ∀ k ∈ ks, ∀ w ∈ domain c, L.rename w ≠ k.slot)
    (hne : ∀ k ∈ ks, ∀ k' ∈ ks, k.tmp ≠ k'.slot)
    (hnodup : (ks.map Copy.slot).Nodup) :
  Agree (domain c) L.rename v (run v' (L.assignments (ks.flatMap (Copy.nodes L.rename))))
    ∧ ∀ k ∈ ks, run v' (L.assignments (ks.flatMap (Copy.nodes L.rename))) k.slot = v k.source
  := by
  induction ks generalizing v' with
  | nil =>
      use h
      simp
  | cons k ks ih =>
      rw [List.forall_mem_cons] at hsource htmp hslot
      rw [List.map_cons, List.nodup_cons] at hnodup
      have hinv := h.exec_fresh (a := (Node.inv (L.rename k.source) k.tmp).assignment L.luts
        c.lutTables) htmp.1
      have hcopy := hinv.exec_fresh (a := (Node.inv k.tmp k.slot).assignment L.luts
        c.lutTables) hslot.1
      have hvalue : exec (exec v' ((Node.inv (L.rename k.source) k.tmp).assignment L.luts
          c.lutTables)) ((Node.inv k.tmp k.slot).assignment L.luts c.lutTables) k.slot
          = v k.source := by
        have htmpval : exec v' ((Node.inv (L.rename k.source) k.tmp).assignment L.luts
            c.lutTables) k.tmp = !v k.source := by
          apply Eq.trans (exec_target ..)
          rw [← h k.source hsource.1]
          rfl
        apply Eq.trans (exec_target ..)
        rw [← Bool.not_not (v k.source), ← htmpval]
        rfl
      obtain ⟨hagree, hvalues⟩ := ih hcopy hsource.2 htmp.2 hslot.2
        (fun k₁ hk₁ k₂ hk₂ => hne k₁ (List.mem_cons_of_mem _ hk₁) k₂ (List.mem_cons_of_mem _ hk₂))
        hnodup.2
      rw [List.flatMap_cons, assignments, List.map_append, run_append]
      refine ⟨hagree, ?_⟩
      rw [List.forall_mem_cons]
      refine ⟨?_, hvalues⟩
      rw [← hvalue]
      apply run_of_not_target
      intro a ha
      obtain ⟨n, hn, rfl⟩ := List.mem_map.mp ha
      obtain ⟨k', hk', hn⟩ := List.mem_flatMap.mp hn
      rw [Copy.nodes, List.mem_cons, List.mem_singleton] at hn
      rcases hn with rfl | rfl
      · apply (hne k' (List.mem_cons_of_mem _ hk') k List.mem_cons_self).symm
      · intro heq
        apply hnodup.1
        apply List.mem_map.mpr
        exact ⟨k', hk', heq.symm⟩

/-! ### The linearized circuit is in range -/

theorem headD_mem_mentioned (hc : c.Renumberable) :
  c.inputs.headD 0 ∈ c.inputs
  := by
  rw [List.headD_eq_head?_getD, List.head?_eq_some_head hc.inputs_ne_nil]
  apply List.head_mem

/-- The wires of the gates that stand for a gate are new numbers and its temporary wire. -/
theorem wires_gateNodes (hc : c.Renumberable) {g : Node × Nat} (hg : g ∈ L.gates) {n : Node}
    (hn : n ∈ gateNodes c L.rename g) {w : Nat} (hw : w ∈ n.wires L.luts) :
  (∃ w' ∈ c.mentioned, w = L.rename w') ∨ (g.1.isConstant = true ∧ w = g.2)
  := by
  have hmem := L.mem_nodes hg
  have hx := Circuit.mem_mentioned_of_input (headD_mem_mentioned hc)
  have houtput : g.1.output ∈ c.mentioned :=
    Circuit.mem_mentioned_of_node hmem (List.mem_append_right _ List.mem_cons_self)
  cases hconstant : g.1.isConstant with
  | false =>
      left
      rw [gateNodes_of_not_constant c L.rename hconstant, List.mem_singleton] at hn
      rw [hn, Node.wires, L.reads_rename g.1 hmem, Node.output_rename, List.mem_append,
        List.mem_singleton] at hw
      rcases hw with hw | hw
      · obtain ⟨w', hw', rfl⟩ := List.mem_map.mp hw
        exact ⟨w', Circuit.mem_mentioned_of_node hmem (List.mem_append_left _ hw'), rfl⟩
      · exact ⟨g.1.output, houtput, hw⟩
  | true =>
      obtain ⟨op, hop, heq⟩ := gateNodes_of_constant c L.rename hconstant
      rw [heq, List.mem_cons, List.mem_singleton] at hn
      rcases hn with rfl | rfl
      · simp only [Node.wires, Node.reads, Node.output, List.cons_append, List.nil_append,
          List.mem_cons, List.not_mem_nil, or_false] at hw
        rcases hw with hw | hw
        · exact .inl ⟨_, hx, hw⟩
        · exact .inr ⟨rfl, hw⟩
      · rw [Node.wires, hop.reads, hop.output] at hw
        simp only [List.cons_append, List.nil_append, List.mem_cons, List.not_mem_nil,
          or_false] at hw
        rcases hw with hw | hw | hw
        · exact .inl ⟨_, hx, hw⟩
        · exact .inr ⟨rfl, hw⟩
        · exact .inl ⟨_, houtput, hw⟩

theorem lastInner_add (hc : c.Renumberable) :
  c.lastInner + c.outputs.length = c.wireBudget
  := Nat.sub_add_cancel (Circuit.outputs_le_wireBudget hc)

/-- The new numbers are within the budget. -/
theorem rename_le (hc : c.Renumberable) {w : Nat} (hw : w ∈ c.mentioned) :
  L.rename w ≤ c.wireBudget
  := by
  have hadd := lastInner_add hc
  by_cases hin : w ∈ c.inputs
  · have hlt := L.rename_lt_of_input hin
    have hle := inputs_length_le hc
    omega
  · by_cases hout : w ∈ c.outputs
    · have hlt := List.idxOf_lt_length_of_mem hout
      rw [L.rename_output w hout hin, Circuit.slot]
      omega
    · have hle := (L.rename_inner w hw hin hout).2
      omega

theorem tmp_le {t : Nat} (ht : t ∈ constantTemps L.gates ++ L.copies.map Copy.tmp) :
  t ≤ c.wireBudget
  := by
  apply Nat.le_trans (L.temps_inner t ht).2
  apply Nat.sub_le

theorem slot_le (hc : c.Renumberable) {i : Nat} (hi : i < c.outputs.length) :
  c.slot i ≤ c.wireBudget
  := by
  have hadd := lastInner_add hc
  rw [Circuit.slot]
  omega

/-- The wires of the linearized circuit are within the budget. -/
theorem mentioned_le (hc : c.Renumberable) {w : Nat} (hw : w ∈ L.circuit.mentioned) :
  w ≤ c.wireBudget
  := by
  rw [Circuit.mentioned, List.mem_append, List.mem_append, List.mem_flatMap] at hw
  rcases hw with (hw | hw) | ⟨n, hn, hw⟩
  · have hlt := List.mem_range.mp hw
    have hle := inputs_length_le hc
    have hadd := lastInner_add hc
    omega
  · obtain ⟨i, hi, rfl⟩ := List.mem_map.mp hw
    apply slot_le hc (List.mem_range.mp hi)
  · rcases List.mem_append.mp hn with hn | hn
    · obtain ⟨g, hg, hn⟩ := List.mem_flatMap.mp hn
      rcases L.wires_gateNodes hc hg hn hw with ⟨w', hw', rfl⟩ | ⟨hconstant, rfl⟩
      · apply L.rename_le hc hw'
      · apply L.tmp_le (L.constant_tmp_mem hg hconstant)
    · obtain ⟨k, hk, hn⟩ := List.mem_flatMap.mp hn
      obtain ⟨i, hi, -, hslot⟩ := L.exists_of_copy hk
      have htmp := L.tmp_le (L.copy_tmp_mem hk)
      have hslot' : k.slot ≤ c.wireBudget := by
        rw [hslot]
        apply slot_le hc (List.getElem?_eq_some_iff.mp hi).1
      have hsource := L.rename_le hc (Circuit.mem_mentioned_of_output (L.copy_source_mem hk))
      rw [Copy.nodes, List.mem_cons, List.mem_singleton] at hn
      rcases hn with rfl | rfl
      · simp only [Node.wires, Node.reads, Node.output, List.cons_append, List.nil_append,
          List.mem_cons, List.not_mem_nil, or_false] at hw
        rcases hw with rfl | rfl
        · apply hsource
        · apply htmp
      · simp only [Node.wires, Node.reads, Node.output, List.cons_append, List.nil_append,
          List.mem_cons, List.not_mem_nil, or_false] at hw
        rcases hw with rfl | rfl
        · apply htmp
        · apply hslot'

/-- The gates of the linearized circuit that are lookup tables are renamed ones, and none is a
constant. -/
theorem mem_circuit_nodes {n : Node} (hn : n ∈ L.circuit.nodes) :
  n.isConstant = false ∧ (n.isLut = false ∨ ∃ n' ∈ c.nodes, n = n'.rename L.rename)
  := by
  rcases List.mem_append.mp hn with hn | hn
  · obtain ⟨g, hg, hn⟩ := List.mem_flatMap.mp hn
    cases hconstant : g.1.isConstant with
    | false =>
        rw [gateNodes_of_not_constant c L.rename hconstant, List.mem_singleton] at hn
        refine ⟨?_, .inr ⟨g.1, L.mem_nodes hg, hn⟩⟩
        rw [hn, Node.isConstant_rename, hconstant]
    | true =>
        obtain ⟨op, hop, heq⟩ := gateNodes_of_constant c L.rename hconstant
        rw [heq, List.mem_cons, List.mem_singleton] at hn
        rcases hn with rfl | rfl
        · exact ⟨rfl, .inl rfl⟩
        · exact ⟨hop.isConstant .., .inl (hop.isLut ..)⟩
  · obtain ⟨k, hk, hn⟩ := List.mem_flatMap.mp hn
    rw [Copy.nodes, List.mem_cons, List.mem_singleton] at hn
    rcases hn with rfl | rfl
    · exact ⟨rfl, .inl rfl⟩
    · exact ⟨rfl, .inl rfl⟩

theorem circuit_inRange (hc : c.Admissible) :
  L.circuit.InRange
  := by
  constructor
  · intro w hw
    apply L.mentioned_le hc.renumberable hw
  · intro n hn
    rcases (L.mem_circuit_nodes hn).2 with hlut | ⟨n', hn', rfl⟩
    · cases n with
      | lut offset tableOffset arity output => contradiction
      | _ => trivial
    · have hrange := hc.luts n' hn'
      cases n' with
      | lut offset tableOffset arity output =>
          rw [Node.LutInRange, ← L.luts_length] at hrange
          apply hrange
      | _ => trivial

/-- The linearized circuit has a table that is too long exactly when the circuit has one. -/
theorem all_arityFits :
  L.circuit.nodes.all Node.arityFits = c.nodes.all Node.arityFits
  := by
  rw [Bool.eq_iff_iff, List.all_eq_true, List.all_eq_true]
  constructor
  · intro h n hn
    rw [← L.gates_nodes] at hn
    obtain ⟨g, hg, rfl⟩ := List.mem_map.mp hn
    cases hconstant : g.1.isConstant with
    | false =>
        rw [← Node.arityFits_rename L.rename]
        apply h
        apply List.mem_append_left
        apply List.mem_flatMap.mpr
        refine ⟨g, hg, ?_⟩
        rw [gateNodes_of_not_constant c L.rename hconstant]
        apply List.mem_singleton_self
    | true => apply Node.arityFits_of_not_lut (Node.isLut_of_isConstant hconstant)
  · intro h n hn
    rcases (L.mem_circuit_nodes hn).2 with hlut | ⟨n', hn', rfl⟩
    · apply Node.arityFits_of_not_lut hlut
    · rw [Node.arityFits_rename]
      apply h n' hn'

/-! ### The values of the outputs -/

theorem program_circuit :
  L.circuit.program = L.assignments L.body ++ L.assignments L.tail
  := List.map_append

/-- The slot of an output gets the value of the output. -/
theorem values_slot (hc : c.Renumberable) (inputs : List Bool) {i w : Nat}
    (hw : c.outputs[i]? = some w) :
  L.circuit.values inputs (c.slot i) = c.values inputs w
  := by
  have hbody := L.agree_body hc (L.agree_initial inputs)
  obtain ⟨hagree, hcopies⟩ := L.agree_copies hbody
    (fun k hk => Circuit.mem_mentioned_of_output (L.copy_source_mem hk))
    (fun k hk => L.temps_fresh k.tmp (L.copy_tmp_mem hk))
    (fun k hk w hw => L.rename_ne_copy_slot hc hk hw)
    (fun k hk k' hk' => by
      obtain ⟨i, -, -, hslot⟩ := L.exists_of_copy hk'
      rw [hslot]
      apply L.tmp_ne_slot (L.copy_tmp_mem hk))
    L.copies_slot_nodup
  rw [Circuit.values, L.program_circuit, run_append]
  cases hcopy : c.isCopy (w, i) with
  | false =>
      rw [← L.rename_of_not_copy hw hcopy]
      apply hagree _ (Circuit.mem_mentioned_of_output (List.mem_of_getElem? hw))
  | true =>
      obtain ⟨k, hk, hsource, hslot⟩ := L.exists_copy hw hcopy
      rw [← hslot, ← hsource]
      apply hcopies k hk

/-- The linearized circuit computes the outputs of the circuit. -/
theorem values_outputs (hc : c.Renumberable) (inputs : List Bool) :
  L.circuit.outputs.map (L.circuit.values inputs) = c.outputs.map (c.values inputs)
  := by
  apply List.ext_getElem
  · simp [circuit]
  · intro i hi hi'
    have hlt : i < c.outputs.length := by
      rw [List.length_map] at hi'
      apply hi'
    have hvalue := L.values_slot hc inputs (List.getElem?_eq_getElem hlt)
    simp only [circuit, List.getElem_map, List.getElem_range]
    apply hvalue

/-- The linearized circuit has the function of the circuit, if its wires can be counted in 64
bits. -/
theorem evaluateCircuit_circuit (hc : c.Admissible) (hbudget : c.wireBudget + 1 < 2 ^ 64)
    (inputs : List Bool) :
  evaluateCircuit L.circuit inputs = evaluateCircuit c inputs
  := by
  have hlength : L.circuit.inputs.length = c.inputs.length := List.length_range
  have htable := (Circuit.BudgetFits.of_lt hbudget).table
  by_cases hinputs : inputs.length = c.inputs.length
  · rw [evaluateCircuit_eq (L.circuit_inRange hc) hbudget (hinputs.trans hlength.symm),
      evaluateCircuit_eq hc.toInRange htable hinputs, L.all_arityFits,
      L.values_outputs hc.renumberable]
  · rw [evaluateCircuit_eq_error.mpr ⟨htable, hinputs, rfl⟩,
      evaluateCircuit_eq_error.mpr ⟨hbudget, hlength ▸ hinputs, rfl⟩]

end Layout

/-- A circuit whose outputs are an input, a gate listed twice and a constant. -/
def Circuit.aliased : Circuit where
  nodes := [.zero 0, .and 3 1 5, .lut 0 0 1 2]
  luts := [5]
  inputs := [3, 1]
  outputs := [3, 5, 5, 0]
  lutTables := [true, false]
  maxWireNumber := 5

theorem Circuit.aliased_admissible :
  Circuit.aliased.Admissible
  := ⟨⟨by decide, by decide⟩, by decide, by decide⟩

/-- A constant that is an output, over the largest wire number of a circuit that can be
evaluated. -/
def Circuit.largest : Circuit where
  nodes := [.zero 1]
  luts := []
  inputs := [0]
  outputs := [1]
  lutTables := []
  maxWireNumber := 2 ^ 64 - 2

theorem Circuit.largest_admissible :
  Circuit.largest.Admissible
  := ⟨⟨by decide, by decide⟩, by decide, by decide⟩

end SynCirc
