import Mathlib.Algebra.GroupWithZero.Nat
import SynCirc.EvalCircuit

/-!
# Hierarchical netlists

A netlist is a collection of modules.  The nets of a module are labelled with numbers.  A module
has input nets, output bits and cells, in an order in which they can be evaluated.  A cell is a
gate or an instance of another module, with a list of connections between the bits of the
instantiating module and the port bits of the instantiated one.

A module is a function from the values of its input nets to the values of all its nets: the cells
are evaluated one after the other, and a submodule is evaluated by the function of its module.
-/

namespace SynCirc

namespace Netlist

/-- A constant or a net. -/
inductive Bit where
  | constant (b : Bool)
  | net (label : Nat)
  deriving DecidableEq, Repr

/-- The gates.  A lookup table has its truth table. -/
inductive Gate where
  | inv
  | xor
  | and
  | and3
  | and4
  | lut (table : List Bool)
  deriving DecidableEq, Repr

/-- The cells.  A submodule has the connected bits of its input nets, and the nets connected to its
output bits. -/
inductive Cell (Name : Type) where
  | gate (g : Gate) (inputs : List Bit) (output : Nat)
  | submodule (name : Name) (inputs : List (Bit × Nat)) (outputs : List (Nat × Bit))
  deriving DecidableEq, Repr

/-- A module, with its cells in the order of evaluation. -/
structure Module (Name : Type) where
  inputs : List Nat
  outputs : List Bit
  cells : List (Cell Name)

/-! ### Evaluation -/

/-- The value of a bit. -/
def Bit.value (env : Nat → Bool) : Bit → Bool
  | .constant b => b
  | .net label => env label

/-- The Boolean function of a gate. -/
def Gate.fn : Gate → List Bool → Bool
  | .inv, [a] => !a
  | .xor, [a, b] => a != b
  | .and, [a, b] => a && b
  | .and3, [a, b, c] => a && b && c
  | .and4, [a, b, c, d] => a && b && c && d
  | .lut table, bits => table.getD (EvalCircuit.indexIntoTable bits) false
  | _, _ => false

/-- The valuation with the nets set to the given values. -/
def assign (env : Nat → Bool) (values : List (Nat × Bool)) : Nat → Bool :=
  values.foldl (fun env p => Function.update env p.1 p.2) env

variable {Name : Type}

/-- The values of the nets after a cell, when `eval` evaluates submodules. -/
def Cell.eval (eval : Name → List (Nat × Bool) → Nat → Bool) (env : Nat → Bool) :
    Cell Name → Nat → Bool
  | .gate g inputs output => Function.update env output (g.fn (inputs.map (Bit.value env)))
  | .submodule name inputs outputs =>
      let inner := eval name (inputs.map (fun p => (p.2, p.1.value env)))
      assign env (outputs.map (fun p => (p.1, p.2.value inner)))

/-- The values of the nets of a module when its input nets have the given values.  A net that is
not driven is 0.  Submodules are evaluated to a depth of `d`. -/
def evalModule (modules : Name → Option (Module Name)) :
    Nat → Name → List (Nat × Bool) → Nat → Bool
  | 0, _, _ => fun _ => false
  | d + 1, name, inputs =>
      match modules name with
      | none => fun _ => false
      | some m => m.cells.foldl (Cell.eval (evalModule modules d)) (assign (fun _ => false) inputs)

/-- The function of a module from input bits to output bits. -/
def Module.function (modules : Name → Option (Module Name)) (d : Nat) (name : Name)
    (m : Module Name) (inputs : List Bool) : List Bool :=
  m.outputs.map (Bit.value (evalModule modules d name (m.inputs.zip inputs)))

/-! ### Sizes -/

/-- The size of the submodule a cell is an instance of. -/
def Cell.size (size : Name → Nat) : Cell Name → Nat
  | .gate _ _ _ => 0
  | .submodule name _ _ => size name

/-- The size of an instance of a module, when `own` is the size of the module without its
submodules: its own and those of all instances below it, to a depth of `d`. -/
def size (modules : Name → Option (Module Name)) (own : Name → Nat) : Nat → Name → Nat
  | 0, _ => 0
  | d + 1, name =>
      match modules name with
      | none => 0
      | some m => own name + (m.cells.map (Cell.size (size modules own d))).sum

theorem size_succ {modules : Name → Option (Module Name)} {name : Name} {m : Module Name}
    (h : modules name = some m) (own : Name → Nat) (d : Nat) :
  size modules own (d + 1) name = own name + (m.cells.map (Cell.size (size modules own d))).sum
  := by
  rw [size, h]

/-! ### Well-formed modules -/

/-- The nets among a list of bits. -/
def nets (bits : List Bit) : List Nat :=
  bits.filterMap (fun bit =>
    match bit with
    | .constant _ => none
    | .net label => some label)

theorem mem_nets {bits : List Bit} {l : Nat} :
  l ∈ nets bits ↔ .net l ∈ bits
  := by
  rw [nets, List.mem_filterMap]
  constructor
  · rintro ⟨_ | label, hmem, heq⟩
    · cases heq
    · rw [← Option.some.inj heq]
      apply hmem
  · intro hmem
    exact ⟨.net l, hmem, rfl⟩

/-- The nets a cell drives. -/
def Cell.drives : Cell Name → List Nat
  | .gate _ _ output => [output]
  | .submodule _ _ outputs => outputs.map Prod.fst

/-- The nets a cell reads. -/
def Cell.reads : Cell Name → List Nat
  | .gate _ inputs _ => nets inputs
  | .submodule _ inputs _ => nets (inputs.map Prod.fst)

/-- The cell is a submodule. -/
def Cell.isSubmodule : Cell Name → Bool
  | .gate _ _ _ => false
  | .submodule _ _ _ => true

/-- No cell reads a net that is driven by itself or a later cell. -/
def Ordered : List (Cell Name) → Prop
  | [] => True
  | c :: cs => (∀ l ∈ c.reads, l ∉ (c :: cs).flatMap Cell.drives) ∧ Ordered cs

instance : (cells : List (Cell Name)) → Decidable (Ordered cells)
  | [] => isTrue trivial
  | c :: cs =>
      have : Decidable (Ordered cs) := instDecidableOrdered cs
      inferInstanceAs (Decidable ((∀ l ∈ c.reads, l ∉ (c :: cs).flatMap Cell.drives) ∧ Ordered cs))

/-- The connections of a submodule are to port bits of its module, and no input net is connected
twice. -/
def Cell.Fits (modules : Name → Option (Module Name)) : Cell Name → Prop
  | .gate _ _ _ => True
  | .submodule name inputs outputs =>
      (inputs.map Prod.snd).Nodup ∧ ∃ m ∈ modules name,
        (∀ l ∈ inputs.map Prod.snd, l ∈ m.inputs) ∧ ∀ bit ∈ outputs.map Prod.snd, bit ∈ m.outputs

instance (modules : Name → Option (Module Name)) : (c : Cell Name) → Decidable (c.Fits modules)
  | .gate _ _ _ => isTrue trivial
  | .submodule name inputs outputs =>
      inferInstanceAs (Decidable ((inputs.map Prod.snd).Nodup ∧ ∃ m ∈ modules name,
        (∀ l ∈ inputs.map Prod.snd, l ∈ m.inputs) ∧ ∀ bit ∈ outputs.map Prod.snd, bit ∈ m.outputs))

/-- Every net has at most one driver, the cells are in order, and the submodules fit. -/
structure Module.WellFormed (modules : Name → Option (Module Name)) (m : Module Name) : Prop where
  nodup : (m.inputs ++ m.cells.flatMap Cell.drives).Nodup
  ordered : Ordered m.cells
  fits : ∀ c ∈ m.cells, c.Fits modules

instance (modules : Name → Option (Module Name)) (m : Module Name) :
    Decidable (m.WellFormed modules) :=
  decidable_of_iff ((m.inputs ++ m.cells.flatMap Cell.drives).Nodup ∧ Ordered m.cells
      ∧ ∀ c ∈ m.cells, c.Fits modules)
    ⟨fun h => ⟨h.1, h.2.1, h.2.2⟩, fun h => ⟨h.nodup, h.ordered, h.fits⟩⟩

section WellFormed

variable {modules : Name → Option (Module Name)} {m : Module Name} {done rest : List (Cell Name)}
  {c : Cell Name}

theorem Ordered.of_append {cells : List (Cell Name)} (h : Ordered (done ++ cells)) :
  Ordered cells
  := by
  induction done with
  | nil => apply h
  | cons c done ih => apply ih h.2

/-- A net that is driven is not an input. -/
theorem Module.WellFormed.notMem_inputs (h : m.WellFormed modules) {l : Nat}
    (hl : l ∈ m.cells.flatMap Cell.drives) :
  l ∉ m.inputs
  := by
  intro hmem
  apply (List.nodup_append.mp h.nodup).2.2 l hmem l hl rfl

/-- The nets a cell drives are distinct, and no later cell drives them. -/
theorem Module.WellFormed.drives (h : m.WellFormed modules) (hcells : m.cells = done ++ c :: rest) :
  c.drives.Nodup ∧ ∀ l ∈ c.drives, l ∉ rest.flatMap Cell.drives
  := by
  have hnodup := (List.nodup_append.mp h.nodup).2.1
  rw [hcells, List.flatMap_append, List.nodup_append, List.flatMap_cons,
    List.nodup_append] at hnodup
  obtain ⟨_, ⟨hc, _, hdisjoint⟩, _⟩ := hnodup
  exact ⟨hc, fun l hl hmem => hdisjoint l hl l hmem rfl⟩

/-- The nets a cell reads are driven neither by it nor by a later cell. -/
theorem Module.WellFormed.reads (h : m.WellFormed modules) (hcells : m.cells = done ++ c :: rest) :
  ∀ l ∈ c.reads, l ∉ c.drives ∧ l ∉ rest.flatMap Cell.drives
  := by
  intro l hl
  have hordered := h.ordered
  rw [hcells] at hordered
  have hnot := hordered.of_append.1 l hl
  rw [List.flatMap_cons, List.mem_append, not_or] at hnot
  apply hnot

end WellFormed

/-! ### Aliases -/

/-- The nets connected to output bits that are not driven themselves: bits that are the constant 1,
that are among the `known` nets, or that stand in the list before. -/
def aliases (known : List Nat) : List (Nat × Bit) → List Nat
  | [] => []
  | (w, .constant true) :: outputs => w :: aliases known outputs
  | (_, .constant false) :: outputs => aliases known outputs
  | (w, .net l) :: outputs =>
      if l ∈ known then w :: aliases known outputs else aliases (l :: known) outputs

theorem aliases_subset (known : List Nat) (outputs : List (Nat × Bit)) :
  aliases known outputs ⊆ outputs.map Prod.fst
  := by
  induction outputs generalizing known with
  | nil => apply List.Subset.refl
  | cons p outputs ih =>
      rcases p with ⟨w, (_ | _) | l⟩
      · apply List.subset_cons_of_subset _ (ih known)
      · apply List.cons_subset_cons _ (ih known)
      · rw [aliases]
        split
        · apply List.cons_subset_cons _ (ih known)
        · apply List.subset_cons_of_subset _ (ih (l :: known))

/-- The nets a cell connects to an output bit of a submodule that is an input bit, another output
bit or the constant 1. -/
def Cell.aliases : Cell Name → List Nat
  | .gate _ _ _ => []
  | .submodule _ inputs outputs => Netlist.aliases (inputs.map Prod.snd) outputs

theorem Cell.aliases_subset (c : Cell Name) :
  c.aliases ⊆ c.drives
  := by
  cases c with
  | gate g inputs output => apply List.nil_subset
  | submodule name inputs outputs => apply Netlist.aliases_subset

/-- No output bit at which a submodule is connected is a net that its module connects in this
way. -/
def Cell.KeepsAliases (modules : Name → Option (Module Name)) : Cell Name → Prop
  | .gate _ _ _ => True
  | .submodule name _ outputs =>
      ∀ m ∈ modules name, ∀ c ∈ m.cells, ∀ w ∈ c.aliases, .net w ∉ outputs.map Prod.snd

instance (modules : Name → Option (Module Name)) :
    (c : Cell Name) → Decidable (c.KeepsAliases modules)
  | .gate _ _ _ => isTrue trivial
  | .submodule name _ outputs =>
      inferInstanceAs (Decidable (∀ m ∈ modules name, ∀ c ∈ m.cells, ∀ w ∈ c.aliases,
        Bit.net w ∉ outputs.map Prod.snd))

/-- No submodule of the module is connected at such an output bit. -/
def Module.KeepsAliases (modules : Name → Option (Module Name)) (m : Module Name) : Prop :=
  ∀ c ∈ m.cells, c.KeepsAliases modules

instance (modules : Name → Option (Module Name)) (m : Module Name) :
    Decidable (m.KeepsAliases modules) :=
  inferInstanceAs (Decidable (∀ c ∈ m.cells, c.KeepsAliases modules))

/-! ### Assignments to distinct nets -/

theorem assign_of_notMem {env : Nat → Bool} {values : List (Nat × Bool)} {l : Nat}
    (h : l ∉ values.map Prod.fst) :
  assign env values l = env l
  := by
  induction values generalizing env with
  | nil => rfl
  | cons p values ih =>
      rw [List.map_cons, List.mem_cons, not_or] at h
      rw [assign, List.foldl_cons]
      rw [show values.foldl _ _ = assign (Function.update env p.1 p.2) values from rfl, ih h.2,
        Function.update_of_ne h.1]

theorem assign_of_mem {env : Nat → Bool} {values : List (Nat × Bool)}
    (hnodup : (values.map Prod.fst).Nodup) {l : Nat} {b : Bool} (h : (l, b) ∈ values) :
  assign env values l = b
  := by
  induction values generalizing env with
  | nil => cases h
  | cons p values ih =>
      rw [List.map_cons, List.nodup_cons] at hnodup
      rw [assign, List.foldl_cons]
      rw [show values.foldl _ _ = assign (Function.update env p.1 p.2) values from rfl]
      rcases List.mem_cons.mp h with rfl | h
      · rw [assign_of_notMem hnodup.1, Function.update_self]
      · apply ih hnodup.2 h

end Netlist

end SynCirc
