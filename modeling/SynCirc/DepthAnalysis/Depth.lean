import SynCirc.DepthAnalysis.Graph
import SynCirc.LongestPath.Basic

/-!
# Multiplicative depth: longest paths

A path leads from an input over gates to a wire, and its depth is the number of AND gates and lookup
tables on it.  The visits are a search for longest paths in the graph of the sinks
(`visitSink_eq`), so that they end, and every gate and every output gets the largest depth of the
paths that lead to it (`analyzeDepth_isDepth`).
-/

namespace SynCirc

open Zig

namespace Circuit

variable (c : Circuit)

/-- The gates of a path from an input to a wire. -/
inductive Path : Nat → List Node → Prop where
  | input {w : Nat} (hw : w ∈ c.inputs) : Path w []
  | node {w : Nat} {ns : List Node} {n : Node} (hpath : Path w ns) (hn : n ∈ c.nodes)
      (hw : w ∈ n.reads c.luts) : Path n.output (ns ++ [n])

/-- The depth of a path. -/
def pathDepth (ns : List Node) : Nat := ns.countP DepthAnalysis.isMultiplicative

/-- The depths of the paths that lead to one of the wires. -/
def pathDepths (ws : List Nat) : Set Nat :=
  {k | ∃ w ∈ ws, ∃ ns, c.Path w ns ∧ pathDepth ns = k}

/-- The depths of the paths are below `2 ^ 32 - 1`. -/
def DepthsFit : Prop := ∀ w ns, c.Path w ns → pathDepth ns < 2 ^ 32 - 1

end Circuit

/-- The largest depth, or 0 if there is none. -/
def IsDepth (depths : Set Nat) (d : Nat) : Prop := IsGreatest depths d ∨ depths = ∅ ∧ d = 0

namespace DepthAnalysis

variable (c : Circuit)

/-- The wires that a sink reads. -/
def sinkReads (y : Nat) : List Nat :=
  match c.nodes[y]? with
  | some n => n.reads c.luts
  | none => c.outputs[y - c.nodes.length]?.toList

/-- The sinks of a gate. -/
def sinks (x : Nat) : List Nat :=
  if x < c.nodes.length then edges c (connections c) (c.inputs.length + x) else []

/-- What a gate adds to the depth. -/
def weight (x : Nat) : Nat :=
  match c.nodes[x]? with
  | some n => if isMultiplicative n then 1 else 0
  | none => 0

/-- The sinks of the inputs. -/
def roots : List Nat := (List.range c.inputs.length).flatMap (edges c (connections c))

variable {c}

/-! ### The edges between sinks -/

theorem mem_connections {w y : Nat} :
  (w, y) ∈ connections c ↔ w ∈ sinkReads c y
  := by
  simp only [connections, List.mem_append, List.mem_flatMap, List.mem_map, Prod.exists,
    List.mem_zipIdx_iff_getElem?, Prod.mk.injEq, sinkReads]
  constructor
  · rintro (⟨n, j, hn, v, hv, rfl, rfl⟩ | ⟨v, i, hi, rfl, rfl⟩)
    · rw [hn]
      apply hv
    · rw [List.getElem?_eq_none (Nat.le_add_right _ _), Nat.add_sub_cancel_left, hi]
      apply List.mem_singleton_self
  · intro hw
    cases hn : c.nodes[y]? with
    | some n =>
        rw [hn] at hw
        exact .inl ⟨n, y, hn, w, hw, rfl, rfl⟩
    | none =>
        rw [hn] at hw
        have hle := List.getElem?_eq_none_iff.mp hn
        exact .inr ⟨w, y - c.nodes.length, Option.mem_toList.mp hw, rfl, by omega⟩

theorem mem_edges {y s : Nat} :
  y ∈ edges c (connections c) s ↔ ∃ w ∈ sinkReads c y, source c w = s
  := by
  simp only [edges, List.mem_map, List.mem_filter, decide_eq_true_eq, Prod.exists]
  constructor
  · rintro ⟨w, y, ⟨hw, hs⟩, rfl⟩
    exact ⟨w, mem_connections.mp hw, hs⟩
  · rintro ⟨w, hw, hs⟩
    exact ⟨w, y, ⟨mem_connections.mpr hw, hs⟩, rfl⟩

theorem lt_of_mem_sinkReads {w y : Nat} (hw : w ∈ sinkReads c y) :
  y < c.nodes.length + c.outputs.length
  := by
  rw [sinkReads] at hw
  split at hw
  case h_1 n hn =>
    have hlt := (List.getElem?_eq_some_iff.mp hn).1
    omega
  case h_2 hn =>
    have hlt := (List.getElem?_eq_some_iff.mp (Option.mem_toList.mp hw)).1
    omega

theorem mem_readWires_of_sinkReads {w y : Nat} (hw : w ∈ sinkReads c y) :
  w ∈ c.readWires
  := by
  rw [sinkReads] at hw
  rw [Circuit.readWires, List.mem_append, List.mem_flatMap]
  split at hw
  case h_1 n hn => exact .inl ⟨n, List.mem_of_getElem? hn, hw⟩
  case h_2 => exact .inr (List.mem_of_getElem? (Option.mem_toList.mp hw))

theorem source_lt_iff {w : Nat} :
  source c w < c.inputs.length ↔ w ∈ c.inputs
  := by
  rw [source, Circuit.drivers]
  by_cases hw : w ∈ c.inputs
  · simp [List.idxOf_append_of_mem hw, List.idxOf_lt_length_of_mem hw, hw]
  · simp [List.idxOf_append_of_notMem hw, hw]

/-- The sinks of the inputs read an input. -/
theorem mem_roots {y : Nat} :
  y ∈ roots c ↔ ∃ w ∈ sinkReads c y, w ∈ c.inputs
  := by
  simp only [roots, List.mem_flatMap, List.mem_range, mem_edges]
  constructor
  · rintro ⟨_, hs, w, hw, rfl⟩
    exact ⟨w, hw, source_lt_iff.mp hs⟩
  · rintro ⟨w, hw, hinput⟩
    exact ⟨_, source_lt_iff.mpr hinput, w, hw, rfl⟩

/-- The sinks of a gate read its output. -/
theorem mem_sinks (hc : c.Analyzable) {x y : Nat} :
  y ∈ sinks c x ↔ ∃ n, c.nodes[x]? = some n ∧ n.output ∈ sinkReads c y
  := by
  have hdrivers : c.drivers[c.inputs.length + x]? = c.nodes[x]?.map Node.output := by
    rw [Circuit.drivers, List.getElem?_append_right (Nat.le_add_right _ _),
      Nat.add_sub_cancel_left, List.getElem?_map]
  rw [sinks]
  split
  case isTrue hx =>
    rw [mem_edges]
    constructor
    · rintro ⟨w, hw, hs⟩
      have hget := getElem?_drivers_source (hc.mem_drivers (mem_readWires_of_sinkReads hw))
      rw [hs, hdrivers, Option.map_eq_some_iff] at hget
      obtain ⟨n, hn, rfl⟩ := hget
      exact ⟨n, hn, hw⟩
    · rintro ⟨n, hn, hw⟩
      use n.output, hw
      apply idxOf_eq_of_count_eq_one (hc.driven _ (mem_readWires_of_sinkReads hw))
      rw [hdrivers, hn]
      rfl
  case isFalse hx =>
    simp [List.getElem?_eq_none (Nat.le_of_not_lt hx)]

/-! ### Paths -/

theorem pathDepth_append {x : Nat} {n : Node} (hn : c.nodes[x]? = some n) (ns : List Node) :
  Circuit.pathDepth (ns ++ [n]) = Circuit.pathDepth ns + weight c x
  := by
  rw [Circuit.pathDepth, Circuit.pathDepth, List.countP_append, List.countP_singleton, weight, hn]

/-- The paths of the search are the paths of the circuit. -/
theorem path_iff (hc : c.Analyzable) {y k : Nat} :
  LongestPath.Path (sinks c) (weight c) (· ∈ roots c) y k
    ↔ ∃ d ∈ c.pathDepths (sinkReads c y), k = d + 1
  := by
  constructor
  · intro hpath
    induction hpath with
    | root hy =>
        obtain ⟨w, hw, hinput⟩ := mem_roots.mp hy
        exact ⟨0, ⟨w, hw, [], .input hinput, rfl⟩, rfl⟩
    | step _ hy ih =>
        obtain ⟨n, hn, hw⟩ := (mem_sinks hc).mp hy
        obtain ⟨d, ⟨v, hv, ns, hpath, rfl⟩, rfl⟩ := ih
        rw [sinkReads, hn] at hv
        refine ⟨_, ⟨n.output, hw, ns ++ [n], .node hpath (List.mem_of_getElem? hn) hv, rfl⟩, ?_⟩
        rw [pathDepth_append hn]
        omega
  · rintro ⟨_, ⟨w, hw, ns, hpath, rfl⟩, rfl⟩
    induction hpath generalizing y with
    | input hinput => apply LongestPath.Path.root (mem_roots.mpr ⟨_, hw, hinput⟩)
    | @node v ns n _ hn hv ih =>
        obtain ⟨x, hx⟩ := List.mem_iff_getElem?.mp hn
        have hreads : v ∈ sinkReads c x := by
          rw [sinkReads, hx]
          apply hv
        have hstep := (ih hreads).step ((mem_sinks hc).mpr ⟨n, hx, hw⟩)
        rw [pathDepth_append hx]
        rw [Nat.add_right_comm] at hstep
        apply hstep

/-- Every visit of a sink leads to a gate that depends on it, or to an output. -/
theorem wellFounded_sinks (hc : c.Analyzable) :
  WellFounded (fun y x => y ∈ sinks c x)
  := by
  have hnode : ∀ {x y : Nat}, y ∈ sinks c x → x < c.nodes.length := by
    intro x y hy
    obtain ⟨n, hn, -⟩ := (mem_sinks hc).mp hy
    apply (List.getElem?_eq_some_iff.mp hn).1
  have hfeeds : ∀ {x y : Nat}, y ∈ sinks c x → y < c.nodes.length → c.Feeds x y := by
    intro x y hy hlt
    obtain ⟨n, hn, hw⟩ := (mem_sinks hc).mp hy
    rw [sinkReads, List.getElem?_eq_getElem hlt] at hw
    exact ⟨n, _, hn, List.getElem?_eq_getElem hlt, hw⟩
  constructor
  intro x
  induction x using hc.wellFounded_fed.induction with
  | h x ih =>
      constructor
      intro y hy
      by_cases hlt : y < c.nodes.length
      · apply ih y (hfeeds hy hlt)
      · constructor
        intro z hz
        apply absurd (hnode hz) hlt

/-! ### The visits -/

/-- The depths that are kept. -/
def result (c : Circuit) (lengths : Nat → Nat) : Result where
  nodeDepth := (List.range c.nodes.length).map lengths
  outputDepth := (List.range c.outputs.length).map (fun i => lengths (c.nodes.length + i))

/-- A visit of an output keeps the larger depth. -/
theorem visitOutput_eq {x k : Nat} {lengths : Nat → Nat} (hx : ¬ x < c.nodes.length)
    (hlt : x < c.nodes.length + c.outputs.length) :
  visitOutput (x - c.nodes.length) k (result c lengths)
    = .ok (result c (Function.update lengths x (max (lengths x) k)))
  := by
  have hi : x - c.nodes.length < c.outputs.length := by omega
  have hadd : c.nodes.length + (x - c.nodes.length) = x := by omega
  have hindex : (index (result c lengths).outputDepth (x - c.nodes.length) : Outcome Error Nat)
      = .ok (lengths x) := by
    rw [result, index_map hi, hadd]
  have hstore : (store (result c lengths).outputDepth (x - c.nodes.length) (max (lengths x) k)
      : Outcome Error (List Nat))
      = .ok (result c (Function.update lengths x (max (lengths x) k))).outputDepth := by
    apply store_map hi
    intro i
    rw [Function.update_apply]
    congr 1
    rw [eq_iff_iff]
    omega
  have hnodes : (result c (Function.update lengths x (max (lengths x) k))).nodeDepth
      = (result c lengths).nodeDepth := by
    apply List.map_congr_left
    intro j hj
    rw [List.mem_range] at hj
    apply Function.update_of_ne (by omega)
  rw [visitOutput, hindex, Outcome.ok_bind, hstore, Outcome.ok_bind, ← hnodes]
  rfl

/-- Setting the depth of a gate. -/
theorem store_nodeDepth {x k : Nat} {lengths : Nat → Nat} (hx : x < c.nodes.length) :
  (store (result c lengths).nodeDepth x k : Outcome Error (List Nat))
      = .ok (result c (Function.update lengths x k)).nodeDepth
    ∧ (result c (Function.update lengths x k)).outputDepth = (result c lengths).outputDepth
  := by
  constructor
  · apply store_map hx
    intro j
    apply Function.update_apply
  · apply List.map_congr_left
    intro i _
    apply Function.update_of_ne (by omega)

/-- A visit that makes the depth of a gate larger checks the depth behind the gate and visits its
sinks. -/
theorem visitNode_of_lt {visit : Nat → Nat → Result → Outcome Error Result} {x k : Nat}
    {lengths : Nat → Nat} (hx : x < c.nodes.length) (hlt : lengths x < k) :
  visitNode c (graph c (connections c)) visit x k (result c lengths)
    = (do
        check .integerOverflow (weight c x = 0 ∨ k + weight c x < depthBound)
        (sinks c x).foldlM (fun da sink => visit sink (k + weight c x) da)
          (result c (Function.update lengths x k)))
  := by
  have hold : (index (result c lengths).nodeDepth x : Outcome Error Nat) = .ok (lengths x) :=
    index_map hx
  have hnode : (index c.nodes x : Outcome Error Node) = .ok (c.nodes.get ⟨x, hx⟩) :=
    index_eq_ok.mpr (List.getElem?_eq_getElem hx)
  have hedges : (index (graph c (connections c)).nodeOutEdges x : Outcome Error (List Nat))
      = .ok (sinks c x) := by
    rw [sinks, if_pos hx]
    apply index_map hx
  have hweight : weight c x = if isMultiplicative (c.nodes.get ⟨x, hx⟩) then 1 else 0 := by
    rw [weight, List.getElem?_eq_getElem hx]
    rfl
  have hstore := (store_nodeDepth hx : (store (result c lengths).nodeDepth x k
    : Outcome Error (List Nat)) = _ ∧ _)
  rw [hweight]
  simp only [visitNode, hold, Outcome.ok_bind, if_pos hlt, hstore.1, ← hstore.2, hnode, hedges]
  by_cases hmul : isMultiplicative (c.nodes.get ⟨x, hx⟩) = true
  · simp only [if_pos hmul, Nat.succ_ne_zero, false_or]
  · simp only [if_neg hmul, Nat.add_zero, true_or, check_of, Outcome.ok_bind]

/-- A visit that does not make the depth of a gate larger changes nothing. -/
theorem visitNode_of_not_lt {visit : Nat → Nat → Result → Outcome Error Result} {x k : Nat}
    {lengths : Nat → Nat} (hx : x < c.nodes.length) (hlt : ¬ lengths x < k) :
  visitNode c (graph c (connections c)) visit x k (result c lengths) = .ok (result c lengths)
  := by
  have hold : (index (result c lengths).nodeDepth x : Outcome Error Nat) = .ok (lengths x) :=
    index_map hx
  rw [visitNode, hold, Outcome.ok_bind, if_neg hlt]
  rfl

theorem bound_of_path (hc : c.Analyzable) (hfit : c.DepthsFit) {x k : Nat}
    (hpath : LongestPath.Path (sinks c) (weight c) (· ∈ roots c) x k) (hx : x < c.nodes.length) :
  k + weight c x < depthBound
  := by
  obtain ⟨d, ⟨w, hw, ns, hns, rfl⟩, rfl⟩ := (path_iff hc).mp hpath
  rw [sinkReads, List.getElem?_eq_getElem hx] at hw
  have hnode := hfit _ _ (hns.node (List.getElem_mem hx) hw)
  rw [pathDepth_append (List.getElem?_eq_getElem hx)] at hnode
  rw [depthBound]
  omega

/-- The search that enters an output keeps the larger length. -/
theorem visit_output {fuel x k : Nat} {lengths : Nat → Nat} (hx : ¬ x < c.nodes.length) :
  LongestPath.visit (sinks c) (weight c) (fuel + 1) x k lengths
    = some (Function.update lengths x (max (lengths x) k))
  := by
  rw [LongestPath.visit, sinks, if_neg hx]
  split
  case isTrue hlt =>
    rw [Nat.max_eq_right (Nat.le_of_lt hlt)]
    rfl
  case isFalse hlt => rw [Nat.max_eq_left (Nat.le_of_not_lt hlt), Function.update_eq_self]

/-- A sink that is visited and is no gate is an output. -/
theorem visitSink_output (hc : c.Analyzable) {fuel x k : Nat} {lengths : Nat → Nat}
    (hpath : LongestPath.Path (sinks c) (weight c) (· ∈ roots c) x k)
    (hx : ¬ x < c.nodes.length) :
  visitSink c (graph c (connections c)) (fuel + 1) x k (result c lengths)
    = .ok (result c (Function.update lengths x (max (lengths x) k)))
  := by
  obtain ⟨d, ⟨w, hw, -⟩, -⟩ := (path_iff hc).mp hpath
  rw [visitSink, if_neg hx, visitOutput_eq hx (lt_of_mem_sinkReads hw)]

/-- A visit of a sink enters a vertex of the search. -/
theorem visitSink_eq (hc : c.Analyzable) (hfit : c.DepthsFit) {fuel x k : Nat}
    {lengths lengths' : Nat → Nat}
    (hpath : LongestPath.Path (sinks c) (weight c) (· ∈ roots c) x k)
    (h : LongestPath.visit (sinks c) (weight c) fuel x k lengths = some lengths') :
  visitSink c (graph c (connections c)) fuel x k (result c lengths) = .ok (result c lengths')
  := by
  induction fuel generalizing x k lengths lengths' with
  | zero => contradiction
  | succ fuel ih =>
      by_cases hx : x < c.nodes.length
      · rw [LongestPath.visit] at h
        rw [visitSink, if_pos hx]
        split at h
        case isTrue hlt =>
          rw [visitNode_of_lt hx hlt, check_of (.inr (bound_of_path hc hfit hpath hx)),
            Outcome.ok_bind]
          apply Outcome.foldlM_of_some _ h
          intro y hy lengths lengths' hvisit
          apply ih (hpath.step hy) hvisit
        case isFalse hlt =>
          obtain rfl := Option.some.inj h
          apply visitNode_of_not_lt hx hlt
      · rw [visit_output hx] at h
        obtain rfl := Option.some.inj h
        apply visitSink_output hc hpath hx

/-- A visit of a sink that returns has entered a vertex of the search. -/
theorem visit_of_visitSink (hc : c.Analyzable) {fuel x k : Nat} {lengths : Nat → Nat}
    {da : Result} (hpath : LongestPath.Path (sinks c) (weight c) (· ∈ roots c) x k)
    (h : visitSink c (graph c (connections c)) fuel x k (result c lengths) = .ok da) :
  ∃ lengths', da = result c lengths'
    ∧ LongestPath.visit (sinks c) (weight c) fuel x k lengths = some lengths'
  := by
  induction fuel generalizing x k lengths da with
  | zero => contradiction
  | succ fuel ih =>
      by_cases hx : x < c.nodes.length
      · rw [visitSink, if_pos hx] at h
        rw [LongestPath.visit]
        split
        case isTrue hlt =>
          rw [visitNode_of_lt hx hlt] at h
          obtain ⟨_, -, h⟩ := Outcome.bind_eq_ok.mp h
          apply Outcome.some_of_foldlM _ h
          intro y hy lengths da hvisit
          apply ih (hpath.step hy) hvisit
        case isFalse hlt =>
          rw [visitNode_of_not_lt hx hlt] at h
          exact ⟨lengths, (Outcome.ok.inj h).symm, rfl⟩
      · rw [visitSink_output hc hpath hx] at h
        exact ⟨_, (Outcome.ok.inj h).symm, visit_output hx⟩

/-- The visits from the inputs are the search from the roots. -/
theorem foldlM_visitInput {fuel : Nat} (da : Result) :
  (List.range c.inputs.length).foldlM
    (fun da inputIndex => visitInput c (graph c (connections c)) fuel inputIndex da) da
    = (roots c).foldlM
      (fun da sink => visitSink c (graph c (connections c)) fuel sink 1 da) da
  := by
  have hinput : ∀ is : List Nat, (∀ i ∈ is, i < c.inputs.length) → ∀ da, is.foldlM
      (fun da inputIndex => visitInput c (graph c (connections c)) fuel inputIndex da) da
      = (is.flatMap (edges c (connections c))).foldlM
        (fun da sink => visitSink c (graph c (connections c)) fuel sink 1 da) da := by
    intro is his
    induction is with
    | nil =>
        intro da
        rfl
    | cons i is ih =>
        intro da
        rw [List.forall_mem_cons] at his
        have hedges : (index (graph c (connections c)).inputOutEdges i
            : Outcome Error (List Nat)) = .ok (edges c (connections c) i) := index_map his.1
        rw [List.foldlM_cons, List.flatMap_cons, List.foldlM_append, visitInput, hedges,
          Outcome.ok_bind]
        apply bind_congr
        apply ih his.2
  apply hinput
  intro i hi
  apply List.mem_range.mp hi

theorem isDepth_of_isGreatest (hc : c.Analyzable) {y length : Nat}
    (h : IsGreatest {k | LongestPath.Path (sinks c) (weight c) (· ∈ roots c) y k} length
      ∨ (∀ k, ¬ LongestPath.Path (sinks c) (weight c) (· ∈ roots c) y k) ∧ length = 0) :
  IsDepth (c.pathDepths (sinkReads c y)) (length - 1)
  := by
  simp only [path_iff hc] at h
  rcases h with ⟨⟨d, hd, rfl⟩, hupper⟩ | ⟨hnone, rfl⟩
  · left
    use hd
    intro d' hd'
    apply Nat.le_of_succ_le_succ (hupper ⟨d', hd', rfl⟩)
  · right
    refine ⟨?_, rfl⟩
    apply Set.eq_empty_of_forall_notMem
    intro d hd
    apply hnone (d + 1) ⟨d, hd, rfl⟩

/-- The analysis visits the sinks of the inputs, and makes all depths smaller by one. -/
theorem analyzeDepth_eq (hc : c.Analyzable) (htable : c.maxWireNumber + 1 < 2 ^ 64)
    (memory : Nat → Nat) (fuel : Nat) :
  analyzeDepth c memory fuel = (do
    let da ← (roots c).foldlM
      (fun da sink => visitSink c (graph c (connections c)) fuel sink 1 da)
      (result c (fun _ => 0))
    return ⟨da.nodeDepth.map (· - 1), da.outputDepth.map (· - 1)⟩)
  := by
  have hempty : (⟨List.replicate c.nodes.length 0, List.replicate c.outputs.length 0⟩ : Result)
      = result c (fun _ => 0) := by
    simp [result]
  simp only [analyzeDepth, buildForwardGraph_eq hc htable, Outcome.ok_bind, hempty,
    foldlM_visitInput]

/-- The analysis stops if the map from wires to their sources is too long. -/
theorem analyzeDepth_overflow (htable : ¬ c.maxWireNumber + 1 < 2 ^ 64) (memory : Nat → Nat)
    (fuel : Nat) :
  analyzeDepth c memory fuel = .panic .integerOverflow
  := by
  rw [analyzeDepth, buildForwardGraph, wireSourceMap, add_not htable]
  rfl

/-- The search from the sinks of the inputs ends. -/
theorem exists_visit (hc : c.Analyzable) :
  ∃ limit, ∀ fuel ≥ limit, ∃ after,
    (roots c).foldlM (fun lengths x => LongestPath.visit (sinks c) (weight c) fuel x 1 lengths)
        (fun _ => 0) = some after
      ∧ LongestPath.Visited (sinks c) (weight c) (fun _ => False) (roots c) 1 (fun _ => 0) after
  := LongestPath.exists_visit (wellFounded_sinks hc) (roots c)

/-- The analysis ends where the depths fit in 32 bits. -/
theorem exists_analyzeDepth (hc : c.Analyzable) (htable : c.maxWireNumber + 1 < 2 ^ 64)
    (hfit : c.DepthsFit) :
  ∃ limit, ∀ fuel ≥ limit, ∀ memory, ∃ depths, analyzeDepth c memory fuel = .ok depths
  := by
  obtain ⟨limit, hlimit⟩ := exists_visit hc
  use limit
  intro fuel hfuel memory
  obtain ⟨lengths, hvisit, -⟩ := hlimit fuel hfuel
  have hda : (roots c).foldlM
      (fun da sink => visitSink c (graph c (connections c)) fuel sink 1 da)
      (result c (fun _ => 0)) = .ok (result c lengths) := by
    apply Outcome.foldlM_of_some _ hvisit
    intro y hy lengths lengths' h
    apply visitSink_eq hc hfit (.root hy) h
  rw [analyzeDepth_eq hc htable, hda, Outcome.ok_bind]
  exact ⟨_, rfl⟩

/-- What the analysis has visited when it returns. -/
theorem visited_of_analyzeDepth (hc : c.Analyzable) {memory : Nat → Nat} {fuel : Nat}
    {depths : Result} (h : analyzeDepth c memory fuel = .ok depths) :
  ∃ lengths, depths = ⟨(result c lengths).nodeDepth.map (· - 1),
      (result c lengths).outputDepth.map (· - 1)⟩
    ∧ LongestPath.Visited (sinks c) (weight c) (fun _ => False) (roots c) 1 (fun _ => 0) lengths
  := by
  have htable : c.maxWireNumber + 1 < 2 ^ 64 := by
    by_contra htable
    rw [analyzeDepth_overflow htable] at h
    contradiction
  rw [analyzeDepth_eq hc htable] at h
  obtain ⟨da, hda, h⟩ := Outcome.bind_eq_ok.mp h
  have hstep : ∀ y ∈ roots c, ∀ lengths da,
      visitSink c (graph c (connections c)) fuel y 1 (result c lengths) = .ok da →
      ∃ lengths', da = result c lengths'
        ∧ LongestPath.visit (sinks c) (weight c) fuel y 1 lengths = some lengths' := by
    intro y hy lengths da hvisit
    apply visit_of_visitSink hc (.root hy) hvisit
  obtain ⟨lengths, rfl, hvisit⟩ := Outcome.some_of_foldlM hstep hda
  obtain ⟨limit, hlimit⟩ := exists_visit hc
  obtain ⟨after, hafter, hvisited⟩ := hlimit (max fuel limit) (le_max_right _ _)
  have hmore : (roots c).foldlM (fun lengths x =>
      LongestPath.visit (sinks c) (weight c) (max fuel limit) x 1 lengths) (fun _ => 0)
      = some lengths := by
    apply LongestPath.foldlM_some_of_some _ hvisit
    intro y _ lengths lengths' hy
    apply LongestPath.visit_mono (le_max_left _ _) hy
  obtain rfl := Option.some.inj (hafter.symm.trans hmore)
  exact ⟨after, (Outcome.ok.inj h).symm, hvisited⟩

/-- The depths of the outputs and of the gates are the largest depths of the paths that lead to
them, whenever the analysis returns. -/
theorem isDepth_of_analyzeDepth (hc : c.Analyzable) {memory : Nat → Nat} {fuel : Nat}
    {depths : Result} (h : analyzeDepth c memory fuel = .ok depths) :
  List.Forall₂ (fun w d => IsDepth (c.pathDepths [w]) d) c.outputs depths.outputDepth
    ∧ List.Forall₂ (fun n d => IsDepth (c.pathDepths (n.reads c.luts)) d) c.nodes depths.nodeDepth
  := by
  obtain ⟨lengths, rfl, hvisited⟩ := visited_of_analyzeDepth hc h
  have hdepth := fun y => isDepth_of_isGreatest hc
    (hvisited.isGreatest (fun x => Iff.rfl : ∀ x, x ∈ roots c ↔ x ∈ roots c) y)
  constructor
  · rw [List.forall₂_iff_get]
    refine ⟨by simp [result], ?_⟩
    intro i hi hi'
    have hreads : sinkReads c (c.nodes.length + i) = [c.outputs.get ⟨i, hi⟩] := by
      rw [sinkReads, List.getElem?_eq_none (Nat.le_add_right _ _), Nat.add_sub_cancel_left,
        List.getElem?_eq_getElem hi]
      rfl
    rw [← hreads]
    simpa [result] using hdepth (c.nodes.length + i)
  · rw [List.forall₂_iff_get]
    refine ⟨by simp [result], ?_⟩
    intro j hj hj'
    have hreads : sinkReads c j = (c.nodes.get ⟨j, hj⟩).reads c.luts := by
      rw [sinkReads, List.getElem?_eq_getElem hj]
      rfl
    rw [← hreads]
    simpa [result] using hdepth j

end DepthAnalysis

/-- A circuit whose gates are not in order: an AND gate that reads an XOR gate twice. -/
def backward : Circuit where
  nodes := [.and 2 2 3, .xor 0 1 2]
  luts := []
  inputs := [0, 1]
  outputs := [3, 2]
  lutTables := []
  maxWireNumber := 3

theorem backward_feeds {i j : Nat} (h : backward.Feeds i j) :
  j < i
  := by
  obtain ⟨m, n, hm, hn, hreads⟩ := h
  match i, j with
  | 0, 0 =>
      cases hm
      cases hn
      revert hreads
      decide
  | 0, 1 =>
      cases hm
      cases hn
      revert hreads
      decide
  | 1, 0 => decide
  | 1, 1 =>
      cases hm
      cases hn
      revert hreads
      decide
  | 0, j + 2 => contradiction
  | 1, j + 2 => contradiction
  | i + 2, _ => contradiction

theorem backward_analyzable :
  backward.Analyzable
  := by
  refine ⟨by decide, ?_, by decide, ?_⟩
  · intro n hn
    simp only [backward, List.mem_cons, List.not_mem_nil, or_false] at hn
    rcases hn with rfl | rfl
    · trivial
    · trivial
  · have hfeeds : ∀ i j, backward.Feeds i j → i > j := fun _ _ h => backward_feeds h
    apply Circuit.acyclic_of_feeds hfeeds

theorem backward_path {w : Nat} {ns : List Node} (h : backward.Path w ns) :
  w = 3 ∧ Circuit.pathDepth ns = 1 ∨ w ≠ 3 ∧ Circuit.pathDepth ns = 0
  := by
  induction h with
  | input hw =>
      right
      revert hw
      simp only [backward, List.mem_cons, List.not_mem_nil, or_false]
      rintro (rfl | rfl)
      · decide
      · decide
  | @node w ns n _ hn hw ih =>
      simp only [backward, List.mem_cons, List.not_mem_nil, or_false] at hn
      rw [Circuit.pathDepth, List.countP_append] at *
      rcases hn with rfl | rfl
      · left
        obtain rfl : w = 2 := by simpa [Node.reads] using hw
        refine ⟨rfl, ?_⟩
        rcases ih with ⟨h, -⟩ | ⟨-, h⟩
        · contradiction
        · rw [h]
          rfl
      · right
        refine ⟨by decide, ?_⟩
        rcases ih with ⟨rfl, -⟩ | ⟨-, h⟩
        · simp [Node.reads] at hw
        · rw [h]
          rfl

example : analyzeDepth backward (fun _ => 7) 3 = .ok ⟨[0, 0], [1, 0]⟩ := by decide

end SynCirc
