import SynCirc.Zig.Outcome
import Mathlib.Data.Finset.Card
import Mathlib.Data.Finset.Filter
import Mathlib.Logic.Relation

/-!
# Hierarchies

A hierarchy has instances, and an instance has a list of cells.  Visiting a cell of an
instance changes a state and yields either a node or a further instance.  The expansion of an
instance is the list of nodes of its cells, in order, with the expansion of an instance in the
place of the cell that yields it.

`loop` builds the expansion without recursion.  Its stack holds the instances that are being
built, each with the index of its next cell.  A cell that yields an instance interrupts the
walk over the cells: the walk is put back on the stack with the index of the cell after, and
the new instance on top of it with the index 0, which marks the instances that have not been
entered.

If the instances are ranked, the loop computes the expansion (`exists_loop_eq`).  A property
of the state that is kept when an instance is entered and when a cell is visited holds
whenever the loop looks at its stack (`Reaches.induct`).
-/

open Zig

/-- The cells of an instance, what entering an instance does, and what visiting a cell does
and yields. -/
structure Hierarchy (ε I C N S : Type) where
  cells : I → Outcome ε (List C)
  enter : I → S → Outcome ε S
  visit : I → C → S → Outcome ε (S × (N ⊕ I))

namespace Hierarchy

variable {ε I C N S : Type} (h : Hierarchy ε I C N S)

/-! ### The loop -/

/-- The stack of the loop, the state and the nodes built so far. -/
structure Progress (I N S : Type) where
  stack : List (I × Nat)
  state : S
  nodes : List N

/-- A cell that interrupts a walk: the index of the cell after, the cell and the instance it
yields. -/
structure Interrupt (I C : Type) where
  index : Nat
  cell : C
  instantiation : I

/-- Visit the cells, the first of which has the given index, up to the first cell that yields
an instance. -/
def walk (i : I) : Nat → List C → S → List N →
    Outcome ε (S × List N × Option (Interrupt I C))
  | _, [], s, nodes => .ok (s, nodes, none)
  | index, c :: cs, s, nodes => do
      let (s, yielded) ← h.visit i c s
      match yielded with
      | .inl n => walk i (index + 1) cs s (nodes ++ [n])
      | .inr j => .ok (s, nodes, some ⟨index + 1, c, j⟩)

/-- Enter an instance, unless its walk is resumed. -/
def enterFresh (i : I) (index : Nat) (s : S) : Outcome ε S :=
  if index = 0 then h.enter i s else .ok s

/-- Start or resume the walk over the cells of an instance. -/
def resume (i : I) (index : Nat) (s : S) (nodes : List N) :
    Outcome ε (S × List N × Option (Interrupt I C)) := do
  let cs ← h.cells i
  let s ← h.enterFresh i index s
  h.walk i index (cs.drop index) s nodes

/-- The progress when the instance on top of `rest` has been walked up to an interrupt or to
its end. -/
def Progress.push (i : I) (rest : List (I × Nat)) :
    S × List N × Option (Interrupt I C) → Progress I N S
  | (s, nodes, none) => ⟨rest, s, nodes⟩
  | (s, nodes, some x) => ⟨(x.instantiation, 0) :: (i, x.index) :: rest, s, nodes⟩

/-- One turn of the loop. -/
def step (p : Progress I N S) : Outcome ε (Progress I N S) :=
  match p.stack with
  | [] => .ok p
  | (i, index) :: rest => do
      let walked ← h.resume i index p.state p.nodes
      return Progress.push i rest walked

/-- Hand the result of a program to a computation that may run out of turns. -/
def after {α β : Type} : Outcome ε α → (α → Option (Outcome ε β)) → Option (Outcome ε β)
  | .ok a, f => f a
  | .error e, _ => some (.error e)
  | .panic t, _ => some (.panic t)

/-- At most `n` turns of the loop, or nothing if they do not suffice. -/
def loop : Nat → Progress I N S → Option (Outcome ε (Progress I N S))
  | 0, _ => none
  | n + 1, p =>
      match p.stack with
      | [] => some (.ok p)
      | _ :: _ => after (h.step p) (loop n)

/-! ### The expansion -/

/-- The expansion of the cells of an instance, when `expand` expands the instances they
yield. -/
def expandCells (expand : I → S → Outcome ε (List N × S)) (i : I) :
    List C → S → Outcome ε (List N × S)
  | [], s => .ok ([], s)
  | c :: cs, s => do
      let (s, yielded) ← h.visit i c s
      let (first, s) ← match yielded with
        | .inl n => .ok ([n], s)
        | .inr j => expand j s
      let (rest, s) ← expandCells expand i cs s
      return (first ++ rest, s)

/-- The expansion of an instance, to a depth of at most `d` instances. -/
def expand : Nat → I → S → Outcome ε (List N × S)
  | 0, _, _ => .panic .stackOverflow
  | d + 1, i, s => do
      let cs ← h.cells i
      let s ← h.enter i s
      h.expandCells (expand d) i cs s

/-! ### The loop computes the expansion -/

section After

variable {α β γ : Type}

@[simp]
theorem after_ok (a : α) (f : α → Option (Outcome ε β)) :
  after (.ok a : Outcome ε α) f = f a
  := rfl

@[simp]
theorem after_error (e : ε) (f : α → Option (Outcome ε β)) :
  after (.error e : Outcome ε α) f = some (.error e)
  := rfl

@[simp]
theorem after_panic (t : Trap) (f : α → Option (Outcome ε β)) :
  after (.panic t : Outcome ε α) f = some (.panic t)
  := rfl

/-- A composite hands on the result of its second part. -/
theorem after_bind (x : Outcome ε α) (f : α → Outcome ε β) (g : β → Option (Outcome ε γ)) :
  after (x >>= f) g = after x (fun a => after (f a) g)
  := by
  cases x with
  | ok _ => rfl
  | error _ => rfl
  | panic _ => rfl

/-- Two computations that agree after the result of a program, for some number of turns, agree
after the program. -/
theorem exists_after {x : Outcome ε α} {f : Nat → Nat → α → Option (Outcome ε β)}
    {g : Nat → α → Option (Outcome ε β)} (hx : ∀ a, x = .ok a → ∃ n, ∀ m, f n m a = g m a) :
  ∃ n, ∀ m, after x (f n m) = after x (g m)
  := by
  cases x with
  | ok a => apply hx a rfl
  | error _ => exact ⟨0, fun _ => rfl⟩
  | panic _ => exact ⟨0, fun _ => rfl⟩

end After

variable {h}

theorem loop_succ_cons (n : Nat) (i : I) (index : Nat) (rest : List (I × Nat)) (s : S)
    (nodes : List N) :
  h.loop (n + 1) ⟨(i, index) :: rest, s, nodes⟩
    = after (h.resume i index s nodes) (fun walked => h.loop n (Progress.push i rest walked))
  := by
  rw [loop, step, after_bind]
  rfl

/-- The loop, started with an instance on top of its stack, expands the instance and goes on
with the rest of the stack. -/
def Expands (h : Hierarchy ε I C N S) (d : Nat) (i : I) : Prop :=
  ∀ rest s nodes, ∃ n, ∀ m, h.loop (n + m) ⟨(i, 0) :: rest, s, nodes⟩
    = after (h.expand d i s) (fun r => h.loop m ⟨rest, r.2, nodes ++ r.1⟩)

/-- The walk over the remaining cells of an instance expands them, if the loop expands the
instances they yield. -/
theorem exists_walk_eq {d : Nat} {i : I} {all : List C} (hall : h.cells i = .ok all)
    (hexpands : ∀ c ∈ all, ∀ s s' j, h.visit i c s = .ok (s', .inr j) → h.Expands d j)
    (rest : List (I × Nat)) (cs : List C) {index : Nat} (hcs : all.drop index = cs) (s : S)
    (nodes : List N) :
  ∃ n, ∀ m, after (h.walk i index cs s nodes)
      (fun walked => h.loop (n + m) (Progress.push i rest walked))
    = after (h.expandCells (h.expand d) i cs s) (fun r => h.loop m ⟨rest, r.2, nodes ++ r.1⟩)
  := by
  induction cs generalizing index s nodes with
  | nil =>
      use 0
      intro m
      rw [Nat.zero_add, walk, expandCells, after_ok, after_ok, List.append_nil]
      rfl
  | cons c cs ih =>
      have hc : c ∈ all := by
        apply List.mem_of_mem_drop (i := index)
        rw [hcs]
        apply List.mem_cons_self
      have hnext : all.drop (index + 1) = cs := by
        rw [← List.drop_drop, hcs]
        rfl
      simp only [walk, expandCells, after_bind, Outcome.pure_eq]
      apply exists_after
      rintro ⟨s', n | j⟩ hvisit
      · obtain ⟨k, hk⟩ := ih hnext s' (nodes ++ [n])
        use k
        intro m
        simp only [hk m, Outcome.ok_bind, after_bind, after_ok, List.append_assoc]
      · obtain ⟨k, hk⟩ := hexpands c hc s s' j hvisit ((i, index + 1) :: rest) s' nodes
        have hresume : ∀ s'' nodes, h.resume i (index + 1) s'' nodes
            = h.walk i (index + 1) cs s'' nodes := by
          intro s'' nodes
          rw [resume, hall, Outcome.ok_bind, enterFresh, if_neg (Nat.succ_ne_zero index),
            Outcome.ok_bind, hnext]
        have hrest : ∃ l, ∀ m, after (h.expand d j s')
              (fun r => h.loop (l + 1 + m) ⟨(i, index + 1) :: rest, r.2, nodes ++ r.1⟩)
            = after (h.expand d j s') (fun r => after (h.expandCells (h.expand d) i cs r.2)
                (fun r' => h.loop m ⟨rest, r'.2, nodes ++ (r.1 ++ r'.1)⟩)) := by
          apply exists_after
          rintro ⟨ms, s''⟩ _
          obtain ⟨l, hl⟩ := ih hnext s'' (nodes ++ ms)
          use l
          intro m
          rw [Nat.add_right_comm, loop_succ_cons, hresume, hl m]
          simp only [List.append_assoc]
        obtain ⟨l, hl⟩ := hrest
        use k + (l + 1)
        intro m
        simp only [after_ok, after_bind]
        rw [Progress.push, Nat.add_assoc, hk, hl]

/-- The instances that the cells of an instance yield have a smaller rank. -/
def Ranked (h : Hierarchy ε I C N S) (rank : I → Nat) : Prop :=
  ∀ i cs, h.cells i = .ok cs → ∀ c ∈ cs, ∀ s s' j,
    h.visit i c s = .ok (s', .inr j) → rank j < rank i

/-- In a ranked hierarchy the loop expands every instance. -/
theorem Ranked.expands {rank : I → Nat} (hrank : h.Ranked rank) {d : Nat} {i : I}
    (hi : rank i < d) :
  h.Expands d i
  := by
  induction d generalizing i with
  | zero => contradiction
  | succ d ih =>
      intro rest s nodes
      have hwalk : ∃ n, ∀ m, after (h.resume i 0 s nodes)
            (fun walked => h.loop (n + m) (Progress.push i rest walked))
          = after (h.expand (d + 1) i s) (fun r => h.loop m ⟨rest, r.2, nodes ++ r.1⟩) := by
        simp only [resume, enterFresh, expand, after_bind, if_true, List.drop_zero]
        apply exists_after
        intro cs hcells
        apply exists_after
        intro s' _
        apply exists_walk_eq hcells _ rest cs (List.drop_zero ..)
        intro c hc s s' j hvisit
        have hj := hrank i cs hcells c hc s s' j hvisit
        apply ih
        omega
      obtain ⟨n, hn⟩ := hwalk
      use n + 1
      intro m
      rw [Nat.add_right_comm, loop_succ_cons, hn]

/-- In a ranked hierarchy the loop ends, and it computes the expansion of the instance it is
started with. -/
theorem Ranked.exists_loop_eq {rank : I → Nat} (hrank : h.Ranked rank) {d : Nat} {i : I}
    (hi : rank i < d) (s : S) (nodes : List N) :
  ∃ k, ∀ n ≥ k, h.loop n ⟨[(i, 0)], s, nodes⟩
    = some (h.expand d i s >>= fun r => .ok ⟨[], r.2, nodes ++ r.1⟩)
  := by
  obtain ⟨k, hk⟩ := hrank.expands hi [] s nodes
  use k + 1
  intro n hn
  obtain ⟨m, rfl⟩ := Nat.exists_eq_add_of_le hn
  rw [Nat.add_assoc, hk, Nat.add_comm 1 m]
  rcases h.expand d i s with r | e | t
  · rfl
  · rfl
  · rfl

/-! ### Runs of the loop -/

/-- The instance that a walk has met at its end, with the cell that yields it. -/
def yields (i : I) : Option (Interrupt I C) → List (I × C × I)
  | none => []
  | some x => [(i, x.cell, x.instantiation)]

/-- `h.Reaches start entered yielded p`: started with `start`, the loop comes to the progress
`p`.  Until then it has entered the instances `entered`, and the cells that have yielded an
instance, with the instance they belong to and the one they yield, are `yielded`. -/
inductive Reaches (h : Hierarchy ε I C N S) (start : Progress I N S) :
    List I → List (I × C × I) → Progress I N S → Prop
  | start : h.Reaches start [] [] start
  | turn {entered : List I} {yielded : List (I × C × I)} {i : I} {index : Nat}
      {rest : List (I × Nat)} {s : S} {nodes : List N}
      {walked : S × List N × Option (Interrupt I C)}
      (before : h.Reaches start entered yielded ⟨(i, index) :: rest, s, nodes⟩)
      (resumed : h.resume i index s nodes = .ok walked) :
      h.Reaches start (if index = 0 then entered ++ [i] else entered)
        (yielded ++ yields i walked.2.2) (Progress.push i rest walked)

/-- The instance on top of the stack, if it has not been entered. -/
def fresh : List (I × Nat) → Option I
  | (i, 0) :: _ => some i
  | _ => none

/-- A property of the entered instances, the yielded instances, the instance that is about to
be entered, the state and the nodes that is kept by every action of the loop. -/
structure Invariant (h : Hierarchy ε I C N S)
    (P : List I → List (I × C × I) → Option I → S → List N → Prop) : Prop where
  enter : ∀ {entered yielded i s nodes cs s'}, P entered yielded (some i) s nodes →
    h.cells i = .ok cs → h.enter i s = .ok s' → P (entered ++ [i]) yielded none s' nodes
  node : ∀ {entered yielded i s nodes cs c s' n}, P entered yielded none s nodes →
    i ∈ entered → h.cells i = .ok cs → c ∈ cs → h.visit i c s = .ok (s', .inl n) →
    P entered yielded none s' (nodes ++ [n])
  instantiate : ∀ {entered yielded i s nodes cs c s' j}, P entered yielded none s nodes →
    i ∈ entered → h.cells i = .ok cs → c ∈ cs → h.visit i c s = .ok (s', .inr j) →
    P entered (yielded ++ [(i, c, j)]) (some j) s' nodes

/-- The instances on the stack below the top have been entered, and so has the one on top
unless its index is 0. -/
structure Stacked (entered : List I) (stack : List (I × Nat)) : Prop where
  below : ∀ f ∈ stack.tail, f.2 ≠ 0
  mem : ∀ f ∈ stack, f.2 ≠ 0 → f.1 ∈ entered

theorem fresh_of_ne_zero {i : I} {index : Nat} (hindex : index ≠ 0) (rest : List (I × Nat)) :
  fresh ((i, index) :: rest) = none
  := by
  cases index with
  | zero => contradiction
  | succ index => rfl

/-- Below the top of the stack there is no fresh instance. -/
theorem Stacked.fresh_tail {entered : List I} {f : I × Nat} {rest : List (I × Nat)}
    (hstack : Stacked entered (f :: rest)) :
  fresh rest = none
  := by
  cases rest with
  | nil => rfl
  | cons g rest => apply fresh_of_ne_zero (hstack.below g List.mem_cons_self)

/-- A walk over cells of an entered instance keeps an invariant. -/
theorem Invariant.walk {P : List I → List (I × C × I) → Option I → S → List N → Prop}
    (hP : h.Invariant P) {entered : List I} {yielded : List (I × C × I)} {i : I}
    (hi : i ∈ entered) {all : List C} (hall : h.cells i = .ok all) {rest : List (I × Nat)}
    (hrest : fresh rest = none) {cs : List C} (hcs : ∀ c ∈ cs, c ∈ all) {index : Nat} {s : S}
    {nodes : List N} (h0 : P entered yielded none s nodes)
    {walked : S × List N × Option (Interrupt I C)}
    (hwalk : h.walk i index cs s nodes = .ok walked) :
  P entered (yielded ++ yields i walked.2.2) (fresh (Progress.push i rest walked).stack)
      (Progress.push i rest walked).state (Progress.push i rest walked).nodes
    ∧ ∀ x, walked.2.2 = some x → x.index ≠ 0
  := by
  induction cs generalizing index s nodes with
  | nil =>
      obtain rfl := Outcome.ok.inj hwalk
      refine ⟨?_, by simp⟩
      rw [yields, List.append_nil, Progress.push, hrest]
      apply h0
  | cons c cs ih =>
      rw [List.forall_mem_cons] at hcs
      rw [Hierarchy.walk] at hwalk
      obtain ⟨⟨s', n | j⟩, hvisit, hwalk⟩ := Outcome.bind_eq_ok.mp hwalk
      · apply ih hcs.2 (hP.node h0 hi hall hcs.1 hvisit) hwalk
      · obtain rfl := Outcome.ok.inj hwalk
        constructor
        · apply hP.instantiate h0 hi hall hcs.1 hvisit
        · rintro x ⟨⟩
          apply Nat.succ_ne_zero

/-- An invariant that holds at the start holds whenever the loop looks at its stack. -/
theorem Reaches.induct {P : List I → List (I × C × I) → Option I → S → List N → Prop}
    (hP : h.Invariant P) {i : I} {s : S} {nodes : List N} (h0 : P [] [] (some i) s nodes)
    {entered : List I} {yielded : List (I × C × I)} {p : Progress I N S}
    (hp : h.Reaches ⟨[(i, 0)], s, nodes⟩ entered yielded p) :
  P entered yielded (fresh p.stack) p.state p.nodes ∧ Stacked entered p.stack
  := by
  induction hp with
  | start =>
      refine ⟨h0, by simp, ?_⟩
      rintro f hf hne
      rw [List.mem_singleton.mp hf] at hne
      contradiction
  | @turn entered yielded i index rest s nodes walked _ hresume ih =>
      obtain ⟨hprev, hstack⟩ := ih
      rw [resume] at hresume
      obtain ⟨cs, hcells, hresume⟩ := Outcome.bind_eq_ok.mp hresume
      obtain ⟨s', henter, hwalk⟩ := Outcome.bind_eq_ok.mp hresume
      have hentered : i ∈ (if index = 0 then entered ++ [i] else entered)
          ∧ P (if index = 0 then entered ++ [i] else entered) yielded none s' nodes := by
        by_cases hindex : index = 0
        · subst hindex
          rw [enterFresh, if_pos rfl] at henter
          rw [if_pos rfl]
          exact ⟨by simp, hP.enter hprev hcells henter⟩
        · rw [enterFresh, if_neg hindex] at henter
          rw [if_neg hindex]
          obtain rfl := Outcome.ok.inj henter
          rw [fresh_of_ne_zero hindex] at hprev
          exact ⟨hstack.mem _ List.mem_cons_self hindex, hprev⟩
      have hmem : ∀ f ∈ rest, f.1 ∈ (if index = 0 then entered ++ [i] else entered) := by
        intro f hf
        have hf' := hstack.mem f (List.mem_cons_of_mem _ hf) (hstack.below f hf)
        split
        · apply List.mem_append_left _ hf'
        · apply hf'
      obtain ⟨hwalked, hx⟩ := hP.walk hentered.1 hcells hstack.fresh_tail
        (fun c hc => List.mem_of_mem_drop hc) hentered.2 hwalk
      refine ⟨hwalked, ?_⟩
      rcases walked with ⟨s'', nodes'', _ | x⟩
      · refine ⟨fun f hf => hstack.below f (List.mem_of_mem_tail hf), ?_⟩
        intro f hf _
        apply hmem f hf
      · constructor
        · intro f hf
          rcases List.mem_cons.mp hf with rfl | hf
          · apply hx x rfl
          · apply hstack.below f hf
        · intro f hf hne
          rcases List.mem_cons.mp hf with rfl | hf
          · contradiction
          · rcases List.mem_cons.mp hf with rfl | hf
            · apply hentered.1
            · apply hmem f hf

/-- A loop that returns with an instance on top of its stack has walked over cells of it. -/
theorem exists_resume_of_loop {i : I} {index : Nat} {rest : List (I × Nat)} {s : S}
    {nodes : List N} {q : Progress I N S} {n : Nat}
    (hloop : h.loop (n + 1) ⟨(i, index) :: rest, s, nodes⟩ = some (.ok q)) :
  ∃ walked, h.resume i index s nodes = .ok walked
    ∧ h.loop n (Progress.push i rest walked) = some (.ok q)
  := by
  rw [loop_succ_cons] at hloop
  rcases hresume : h.resume i index s nodes with walked | e | t
  · rw [hresume, after_ok] at hloop
    exact ⟨walked, rfl, hloop⟩
  · rw [hresume, after_error] at hloop
    cases hloop
  · rw [hresume, after_panic] at hloop
    cases hloop

/-- A loop that returns has reached a progress with an empty stack. -/
theorem Reaches.of_loop {start p q : Progress I N S} {n : Nat} {entered : List I}
    {yielded : List (I × C × I)} (hp : h.Reaches start entered yielded p)
    (hloop : h.loop n p = some (.ok q)) :
  ∃ entered' yielded', h.Reaches start entered' yielded' q ∧ q.stack = []
  := by
  induction n generalizing p entered yielded with
  | zero => contradiction
  | succ n ih =>
      rcases p with ⟨_ | ⟨⟨i, index⟩, rest⟩, s, nodes⟩
      · obtain rfl := Outcome.ok.inj (Option.some.inj hloop)
        exact ⟨entered, yielded, hp, rfl⟩
      · obtain ⟨walked, hresume, hloop⟩ := exists_resume_of_loop hloop
        apply ih (.turn hp hresume) hloop

/-! ### Properties of the state -/

/-- Visiting a cell keeps a property of the state. -/
def Keeps (h : Hierarchy ε I C N S) (P : S → Prop) : Prop :=
  ∀ i c s s' r, P s → h.visit i c s = .ok (s', r) → P s'

/-- A walk keeps what visiting a cell keeps.  If it comes to its end, all of its cells have yielded
nodes, and if it is interrupted, one of them has yielded an instance. -/
theorem Keeps.walk {P : S → Prop} (hP : h.Keeps P) {i : I} {cs : List C} {index : Nat} {s : S}
    {nodes : List N} (hs : P s) {walked : S × List N × Option (Interrupt I C)}
    (hwalk : h.walk i index cs s nodes = .ok walked) :
  P walked.1
    ∧ (walked.2.2 = none → ∀ c ∈ cs, ∃ s s' n, h.visit i c s = .ok (s', .inl n))
    ∧ ∀ x, walked.2.2 = some x → ∃ c ∈ cs, ∃ s s' j, h.visit i c s = .ok (s', .inr j)
  := by
  induction cs generalizing index s nodes with
  | nil =>
      obtain rfl := Outcome.ok.inj hwalk
      exact ⟨hs, by simp, by simp⟩
  | cons c cs ih =>
      rw [Hierarchy.walk] at hwalk
      obtain ⟨⟨s', n | j⟩, hvisit, hwalk⟩ := Outcome.bind_eq_ok.mp hwalk
      · obtain ⟨hwalked, hnone, hsome⟩ := ih (hP _ _ _ _ _ hs hvisit) hwalk
        refine ⟨hwalked, ?_, ?_⟩
        · intro hend
          rw [List.forall_mem_cons]
          exact ⟨⟨s, s', n, hvisit⟩, hnone hend⟩
        · intro x hx
          obtain ⟨c', hc', hyield⟩ := hsome x hx
          exact ⟨c', List.mem_cons_of_mem _ hc', hyield⟩
      · obtain rfl := Outcome.ok.inj hwalk
        refine ⟨hP _ _ _ _ _ hs hvisit, by simp, ?_⟩
        intro x _
        exact ⟨c, List.mem_cons_self, s, s', j, hvisit⟩

/-- The loop keeps what entering an instance and visiting a cell keep. -/
theorem Keeps.loop {P : S → Prop} (hP : h.Keeps P)
    (henter : ∀ i s s', P s → h.enter i s = .ok s' → P s') {n : Nat} {p q : Progress I N S}
    (hp : P p.state) (hloop : h.loop n p = some (.ok q)) :
  P q.state
  := by
  induction n generalizing p with
  | zero => contradiction
  | succ n ih =>
      rcases p with ⟨_ | ⟨⟨i, index⟩, rest⟩, s, nodes⟩
      · obtain rfl := Outcome.ok.inj (Option.some.inj hloop)
        apply hp
      · obtain ⟨walked, hresume, hloop⟩ := exists_resume_of_loop hloop
        apply ih _ hloop
        obtain ⟨cs, -, hresume⟩ := Outcome.bind_eq_ok.mp hresume
        obtain ⟨s', hs', hwalk⟩ := Outcome.bind_eq_ok.mp hresume
        have hentered : P s' := by
          unfold enterFresh at hs'
          split at hs'
          case isTrue => apply henter i s s' hp hs'
          case isFalse =>
            obtain rfl := Outcome.ok.inj hs'
            apply hp
        have hwalked := (hP.walk hentered hwalk).1
        rcases walked with ⟨s'', nodes'', _ | x⟩
        · apply hwalked
        · apply hwalked

/-! ### Ranks -/

open Classical in
/-- A relation without cycles on the members of a list is ranked by the number of members that
can be reached. -/
theorem exists_rank {α : Type} {r : α → α → Prop} {names : List α}
    (hnames : ∀ a b, r a b → b ∈ names) (hacyclic : ∀ a, ¬ Relation.TransGen r a a) :
  ∃ rank : α → Nat, (∀ a b, r a b → rank b < rank a) ∧ ∀ a, rank a ≤ names.length
  := by
  refine ⟨fun a => (names.toFinset.filter (Relation.TransGen r a)).card, ?_, ?_⟩
  · intro a b hab
    apply Finset.card_lt_card
    rw [Finset.ssubset_iff_of_subset]
    · use b
      simp only [Finset.mem_filter, List.mem_toFinset]
      exact ⟨⟨hnames a b hab, .single hab⟩, fun hb => hacyclic b hb.2⟩
    · intro c hc
      simp only [Finset.mem_filter] at hc ⊢
      exact ⟨hc.1, .head hab hc.2⟩
  · intro a
    calc (names.toFinset.filter (Relation.TransGen r a)).card
        ≤ names.toFinset.card := Finset.card_filter_le ..
      _ ≤ names.length := List.toFinset_card_le names

/-! ### The nodes of an expansion -/

/-- A property of the nodes of an expansion, if every cell of an instance with the property `P`
yields such a node or an instance with the property `P`. -/
theorem forall_expand {h : Hierarchy ε I C N S} {P : I → Prop} {Q : N → Prop}
    (hnode : ∀ i cs c s s' n, P i → h.cells i = .ok cs → c ∈ cs →
      h.visit i c s = .ok (s', .inl n) → Q n)
    (hinstance : ∀ i cs c s s' j, P i → h.cells i = .ok cs → c ∈ cs →
      h.visit i c s = .ok (s', .inr j) → P j)
    {d : Nat} {i : I} (hi : P i) {s s' : S} {nodes : List N}
    (hexpand : h.expand d i s = .ok (nodes, s')) :
  ∀ n ∈ nodes, Q n
  := by
  induction d generalizing i s s' nodes with
  | zero => cases hexpand
  | succ d ih =>
      obtain ⟨all, hall, hexpand⟩ := Outcome.bind_eq_ok.mp hexpand
      obtain ⟨s₁, -, hexpand⟩ := Outcome.bind_eq_ok.mp hexpand
      have hcells : ∀ cs, (∀ c ∈ cs, c ∈ all) → ∀ s nodes s',
          h.expandCells (h.expand d) i cs s = .ok (nodes, s') → ∀ n ∈ nodes, Q n := by
        intro cs
        induction cs with
        | nil =>
            intro _ s nodes s' hcs n hn
            cases hcs
            cases hn
        | cons c cs ihcs =>
            intro hmem s nodes s' hcs
            obtain ⟨⟨s₂, yielded⟩, hvisit, hcs⟩ := Outcome.bind_eq_ok.mp hcs
            rw [List.forall_mem_cons] at hmem
            cases yielded with
            | inl n =>
                obtain ⟨⟨first, s₃⟩, hfirst, hcs⟩ := Outcome.bind_eq_ok.mp hcs
                obtain ⟨⟨rest, s₄⟩, hrest, hcs⟩ := Outcome.bind_eq_ok.mp hcs
                cases hcs
                cases hfirst
                rw [List.singleton_append, List.forall_mem_cons]
                use hnode i all c s s₂ n hi hall hmem.1 hvisit
                apply ihcs hmem.2 _ _ _ hrest
            | inr j =>
                obtain ⟨⟨first, s₃⟩, hfirst, hcs⟩ := Outcome.bind_eq_ok.mp hcs
                obtain ⟨⟨rest, s₄⟩, hrest, hcs⟩ := Outcome.bind_eq_ok.mp hcs
                cases hcs
                rw [List.forall_mem_append]
                use ih (hinstance i all c s s₂ j hi hall hmem.1 hvisit) hfirst
                apply ihcs hmem.2 _ _ _ hrest
      apply hcells all (fun _ hc => hc) _ _ _ hexpand

end Hierarchy
