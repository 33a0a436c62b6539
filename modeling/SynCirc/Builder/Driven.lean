import SynCirc.Builder.Correct
import SynCirc.Linearize.Wiring

/-!
# Driven wires

Next to the values of the wires, which `Simulates` follows, this module follows which wires are
driven while a module instance is built (`Drives`): the wires of the nets that have been driven are,
those of the nets still to be driven are not.  For this every net that is read has to be driven, and
every input net of a submodule has to be connected (`Module.Closed`).
-/

namespace SynCirc

open Zig

namespace Netlist

variable {Name : Type}

/-- The nets connected to output bits that are not driven themselves: bits that are constants, that
are among the `known` nets, or that stand in the list before. -/
def passedOn (known : List Nat) : List (Nat × Bit) → List Nat
  | [] => []
  | (w, .constant _) :: outputs => w :: passedOn known outputs
  | (w, .net l) :: outputs =>
      if l ∈ known then w :: passedOn known outputs else passedOn (l :: known) outputs

theorem aliases_subset_passedOn (known : List Nat) (outputs : List (Nat × Bit)) :
  aliases known outputs ⊆ passedOn known outputs
  := by
  induction outputs generalizing known with
  | nil => apply List.Subset.refl
  | cons p outputs ih =>
      rcases p with ⟨w, (_ | _) | l⟩
      · apply List.subset_cons_of_subset _ (ih known)
      · apply List.cons_subset_cons _ (ih known)
      · rw [aliases, passedOn]
        split
        · apply List.cons_subset_cons _ (ih known)
        · apply ih (l :: known)

theorem mem_passedOn_of_constant (known : List Nat) {outputs : List (Nat × Bit)} {w : Nat}
    {b : Bool} (h : (w, .constant b) ∈ outputs) :
  w ∈ passedOn known outputs
  := by
  induction outputs generalizing known with
  | nil => cases h
  | cons p outputs ih =>
      rcases p with ⟨w', b' | l⟩
      · rw [passedOn, List.mem_cons]
        rcases List.mem_cons.mp h with heq | h
        · exact .inl (Prod.mk.inj heq).1
        · exact .inr (ih known h)
      · rcases List.mem_cons.mp h with heq | h
        · cases (Prod.mk.inj heq).2
        · rw [passedOn]
          split
          · exact List.mem_cons_of_mem _ (ih known h)
          · exact ih (l :: known) h

/-- The nets a cell connects to an output bit of a submodule that is not driven there. -/
def Cell.passedOn : Cell Name → List Nat
  | .gate _ _ _ => []
  | .submodule _ inputs outputs => Netlist.passedOn (inputs.map Prod.snd) outputs

theorem Cell.aliases_subset_passedOn (c : Cell Name) :
  c.aliases ⊆ c.passedOn
  := by
  cases c with
  | gate g inputs output => apply List.Subset.refl
  | submodule name inputs outputs => apply Netlist.aliases_subset_passedOn

theorem passedOn_subset (known : List Nat) (outputs : List (Nat × Bit)) :
  Netlist.passedOn known outputs ⊆ outputs.map Prod.fst
  := by
  induction outputs generalizing known with
  | nil => apply List.Subset.refl
  | cons p outputs ih =>
      rcases p with ⟨w, b | l⟩
      · apply List.cons_subset_cons _ (ih known)
      · rw [Netlist.passedOn]
        split
        · apply List.cons_subset_cons _ (ih known)
        · apply List.subset_cons_of_subset _ (ih (l :: known))

theorem Cell.passedOn_subset (c : Cell Name) :
  c.passedOn ⊆ c.drives
  := by
  cases c with
  | gate g inputs output => apply List.nil_subset
  | submodule name inputs outputs => apply Netlist.passedOn_subset

/-- All input nets of a submodule are connected, and no output bit at which it is connected is a net
that its module connects to an output bit that is not driven. -/
def Cell.Connected (modules : Name → Option (Module Name)) : Cell Name → Prop
  | .gate _ _ _ => True
  | .submodule name inputs outputs =>
      ∀ m ∈ modules name, (∀ l ∈ m.inputs, l ∈ inputs.map Prod.snd)
        ∧ ∀ c ∈ m.cells, ∀ w ∈ c.passedOn, .net w ∉ outputs.map Prod.snd

instance (modules : Name → Option (Module Name)) : (c : Cell Name) → Decidable (c.Connected modules)
  | .gate _ _ _ => isTrue trivial
  | .submodule name inputs outputs =>
      inferInstanceAs (Decidable (∀ m ∈ modules name, (∀ l ∈ m.inputs, l ∈ inputs.map Prod.snd)
        ∧ ∀ c ∈ m.cells, ∀ w ∈ c.passedOn, Bit.net w ∉ outputs.map Prod.snd))

/-- The nets of a module that are driven. -/
def Module.driven (m : Module Name) : List Nat := m.inputs ++ m.cells.flatMap Cell.drives

/-- Every net that is read or an output bit is driven, and the submodules are connected. -/
structure Module.Closed (modules : Name → Option (Module Name)) (m : Module Name) : Prop where
  reads : ∀ c ∈ m.cells, ∀ l ∈ c.reads, l ∈ m.driven
  outputs : ∀ l ∈ nets m.outputs, l ∈ m.driven
  connected : ∀ c ∈ m.cells, c.Connected modules

instance (modules : Name → Option (Module Name)) (m : Module Name) :
    Decidable (m.Closed modules) :=
  decidable_of_iff ((∀ c ∈ m.cells, ∀ l ∈ c.reads, l ∈ m.driven)
      ∧ (∀ l ∈ nets m.outputs, l ∈ m.driven) ∧ ∀ c ∈ m.cells, c.Connected modules)
    ⟨fun h => ⟨h.1, h.2.1, h.2.2⟩, fun h => ⟨h.reads, h.outputs, h.connected⟩⟩

variable {modules : Name → Option (Module Name)} {m : Module Name}

theorem Module.Closed.keepsAliases (h : m.Closed modules) :
  m.KeepsAliases modules
  := by
  intro c hc
  have hconnected := h.connected c hc
  cases c with
  | gate g inputs output => trivial
  | submodule name inputs outputs =>
      intro m' hm' c' hc' w hw
      apply (hconnected m' hm').2 c' hc' w (c'.aliases_subset_passedOn hw)

/-- The nets a cell reads are inputs or driven by earlier cells. -/
theorem Module.Closed.reads_known (h : m.Closed modules) (hwf : m.WellFormed modules)
    {done rest : List (Cell Name)} {c : Cell Name} (hcells : m.cells = done ++ c :: rest) :
  ∀ l ∈ c.reads, l ∈ m.inputs ++ done.flatMap Cell.drives
  := by
  intro l hl
  have hc : c ∈ m.cells := by
    rw [hcells]
    apply List.mem_append_right _ List.mem_cons_self
  have hdriven := h.reads c hc l hl
  obtain ⟨hself, hrest⟩ := hwf.reads hcells l hl
  rw [driven, hcells, List.flatMap_append, List.flatMap_cons, List.mem_append, List.mem_append,
    List.mem_append] at hdriven
  rw [List.mem_append]
  rcases hdriven with hinput | hdone | hmem | hmem
  · exact .inl hinput
  · exact .inr hdone
  · apply absurd hmem hself
  · apply absurd hmem hrest

end Netlist

namespace Builder

open Netlist

/-! ### Constants -/

section Constants

variable {offset offset' : Nat} {s : WireTranslations × WireTranslations}

/-- Connecting an output leaves the entries of other nets as they are, if the connected net has no
entry or one below the numbers of the module. -/
theorem connectOutput_of_ne {p : Nat × Bit} {w : Nat} (hw : w ≠ p.1)
    (hbelow : ∀ x, s.1 (p.1 + offset) = some x → x < offset) :
  (connectOutput offset offset' s p).1 (w + offset) = s.1 (w + offset)
  := by
  have hne : w + offset ≠ translatedWireNumber offset s.1 p.1 := by
    rcases hentry : s.1 (p.1 + offset) with _ | x
    · rw [translatedWireNumber_of_none hentry]
      omega
    · rw [translatedWireNumber_of_some hentry]
      have hlt := hbelow x hentry
      omega
  rcases p with ⟨w', b | l⟩
  · simp only [connectOutput]
    apply Function.update_of_ne hne
  · simp only [connectOutput]
    split
    · apply Function.update_of_ne hne
    · rfl

/-- Connecting outputs leaves the entries of other nets as they are. -/
theorem connectOutputs_of_notMem {outputs : List (Nat × Bit)} {w : Nat}
    (hnodup : (outputs.map Prod.fst).Nodup) (hw : w ∉ outputs.map Prod.fst)
    (hbelow : ∀ w ∈ outputs.map Prod.fst, ∀ x, s.1 (w + offset) = some x → x < offset) :
  (connectOutputs offset offset' s outputs).1 (w + offset) = s.1 (w + offset)
  := by
  induction outputs generalizing s with
  | nil => rfl
  | cons p outputs ih =>
      rw [List.map_cons, List.nodup_cons] at hnodup
      rw [List.map_cons, List.mem_cons, not_or] at hw
      rw [List.map_cons, List.forall_mem_cons] at hbelow
      rw [connectOutputs, List.foldl_cons]
      have hrest : ∀ w ∈ outputs.map Prod.fst,
          (connectOutput offset offset' s p).1 (w + offset) = s.1 (w + offset) := by
        intro w' hw'
        apply connectOutput_of_ne _ hbelow.1
        rintro rfl
        apply hnodup.1 hw'
      rw [← connectOutput_of_ne (s := s) hw.1 hbelow.1]
      apply ih hnodup.2 hw.2
      intro w' hw'
      rw [hrest w' hw']
      apply hbelow.2 w' hw'

/-- A net without an entry that is connected to a constant is sent to the wire of the constant. -/
theorem connectOutputs_constant {outputs : List (Nat × Bit)} {w : Nat} {b : Bool}
    (hmem : (w, .constant b) ∈ outputs) (hnodup : (outputs.map Prod.fst).Nodup)
    (hbelow : ∀ w ∈ outputs.map Prod.fst, ∀ x, s.1 (w + offset) = some x → x < offset)
    (hnone : s.1 (w + offset) = none) :
  (connectOutputs offset offset' s outputs).1 (w + offset) = some (constantNumber b)
  := by
  induction outputs generalizing s with
  | nil => cases hmem
  | cons p outputs ih =>
      rw [List.map_cons, List.nodup_cons] at hnodup
      rw [List.map_cons, List.forall_mem_cons] at hbelow
      have hrest : ∀ w ∈ outputs.map Prod.fst,
          (connectOutput offset offset' s p).1 (w + offset) = s.1 (w + offset) := by
        intro w' hw'
        apply connectOutput_of_ne _ hbelow.1
        rintro rfl
        apply hnodup.1 hw'
      have hbelow' : ∀ w ∈ outputs.map Prod.fst, ∀ x,
          (connectOutput offset offset' s p).1 (w + offset) = some x → x < offset := by
        intro w' hw'
        rw [hrest w' hw']
        apply hbelow.2 w' hw'
      rw [connectOutputs, List.foldl_cons]
      rcases List.mem_cons.mp hmem with rfl | hmem
      · apply (connectOutputs_of_notMem hnodup.2 hnodup.1 hbelow').trans
        rw [connectOutput, translatedWireNumber_of_none hnone]
        apply Function.update_self
      · apply ih hmem hnodup.2 hbelow'
        rw [hrest w (List.mem_map_of_mem hmem), hnone]

end Constants

/-! ### Gates -/

/-- A gate that is built reads the wires of its inputs and drives the wire of its output. -/
theorem buildGate_wires {offset : Nat} {table : WireTranslations} {cell : List (List UInt8 × Json)}
    {g : GateType} {g' : Gate} {inputs : List Bit} {output : Nat} {s s' : State} {n : Node}
    (h : readGate cell g = some (.gate g' inputs output))
    (hfits : LabelsFit offset (nets inputs ++ [output]))
    (hbuild : buildGate offset table cell s g = .ok (s', n)) :
  n.output = translatedWireNumber offset table output
    ∧ ∀ luts, s'.luts <+: luts → n.reads luts = inputs.map (bitNumber offset table)
  := by
  have hpins : ∀ {g'' : Gate} {pins : List String},
      readPins g'' pins cell = some (.gate g' inputs output) →
      ∃ labels : List Nat, inputs = labels.map .net ∧ labels.length = pins.length
        ∧ buildPins offset table cell pins = .ok (inputs.map (bitNumber offset table),
          translatedWireNumber offset table output) := by
    intro g'' pins hread
    obtain ⟨labels, output', heq, hlength, hbuilt⟩ := buildPins_eq table hread hfits
    obtain ⟨_, rfl, rfl⟩ := Cell.gate.inj heq
    refine ⟨labels, rfl, hlength, ?_⟩
    rw [hbuilt, List.map_map]
    rfl
  cases g with
  | inv =>
      obtain ⟨labels, rfl, hlength, hbuilt⟩ := hpins h
      obtain ⟨a, rfl⟩ := List.length_eq_one_iff.mp hlength
      simp only [buildGate, buildOneInput, hbuilt, Outcome.ok_bind] at hbuild
      cases hbuild
      exact ⟨rfl, fun _ _ => rfl⟩
  | xor =>
      obtain ⟨labels, rfl, hlength, hbuilt⟩ := hpins h
      obtain ⟨a, b, rfl⟩ := List.length_eq_two.mp hlength
      simp only [buildGate, buildTwoInput, hbuilt, Outcome.ok_bind] at hbuild
      cases hbuild
      exact ⟨rfl, fun _ _ => rfl⟩
  | and =>
      obtain ⟨labels, rfl, hlength, hbuilt⟩ := hpins h
      obtain ⟨a, b, rfl⟩ := List.length_eq_two.mp hlength
      simp only [buildGate, buildTwoInput, hbuilt, Outcome.ok_bind] at hbuild
      cases hbuild
      exact ⟨rfl, fun _ _ => rfl⟩
  | and3 =>
      obtain ⟨labels, rfl, hlength, hbuilt⟩ := hpins h
      obtain ⟨a, b, c, rfl⟩ := List.length_eq_three.mp hlength
      simp only [buildGate, buildThreeInput, hbuilt, Outcome.ok_bind] at hbuild
      cases hbuild
      exact ⟨rfl, fun _ _ => rfl⟩
  | and4 =>
      obtain ⟨labels, rfl, hlength, hbuilt⟩ := hpins h
      obtain ⟨a, labels, rfl⟩ := List.exists_cons_of_length_eq_add_one hlength
      obtain ⟨b, c, d, rfl⟩ := List.length_eq_three.mp (Nat.succ.inj hlength)
      simp only [buildGate, buildFourInput, hbuilt, Outcome.ok_bind] at hbuild
      cases hbuild
      exact ⟨rfl, fun _ _ => rfl⟩
  | lut =>
      obtain ⟨inputs', output', truth, heq, _, _, hlut⟩ :=
        buildLut_eq table h hfits s.luts s.lutTables
      obtain ⟨_, rfl, rfl⟩ := Cell.gate.inj heq
      simp only [buildGate, hlut, Outcome.ok_bind] at hbuild
      cases hbuild
      refine ⟨rfl, ?_⟩
      rintro luts ⟨rest, rfl⟩
      rw [Node.reads, List.append_assoc, List.drop_left, List.take_left' (by simp)]

/-- The gates read wires of `known` and outputs of earlier gates, whatever lookup tables follow, and
drive different wires that are not `known`. -/
structure Adds (luts known : List Nat) (nodes : List Node) : Prop where
  reads : ∀ luts', luts <+: luts' → Node.ReadFrom luts' known nodes
  nodup : (nodes.map Node.output).Nodup
  new : ∀ w ∈ nodes.map Node.output, w ∉ known

variable {luts luts' known : List Nat} {nodes nodes' : List Node}

theorem adds_nil (luts known : List Nat) :
  Adds luts known []
  := ⟨fun _ _ => trivial, List.nodup_nil, fun _ h => nomatch h⟩

theorem adds_singleton {n : Node}
    (hreads : ∀ luts', luts <+: luts' → ∀ w ∈ n.reads luts', w ∈ known)
    (hnew : n.output ∉ known) :
  Adds luts known [n]
  := by
  constructor
  · intro luts' hluts
    exact ⟨hreads luts' hluts, trivial⟩
  · apply List.nodup_singleton
  · intro w hw
    rw [List.mem_singleton.mp hw]
    apply hnew

theorem Adds.append (h : Adds luts known nodes)
    (h' : Adds luts' (nodes.map Node.output ++ known) nodes') (hluts : luts <+: luts') :
  Adds luts' known (nodes ++ nodes')
  := by
  constructor
  · intro luts'' hluts''
    apply (h.reads luts'' (hluts.trans hluts'')).append (h'.reads luts'' hluts'')
  · rw [List.map_append]
    apply h.nodup.append h'.nodup
    intro w hw hw'
    apply h'.new w hw' (List.mem_append_left _ hw)
  · intro w hw
    rw [List.map_append, List.mem_append] at hw
    rcases hw with hw | hw
    · apply h.new w hw
    · intro hmem
      apply h'.new w hw (List.mem_append_right _ hmem)

/-! ### Nets and driven wires -/

variable {Name : Type}

/-- The wires `ws` are driven.  Among the nets of the instance at `offset` with the translation
table `table`, the wires of the nets `known` are driven, and those of the nets that the cells `rest`
drive are not.  Nor are wires from `next` on. -/
structure Drives (offset : Nat) (table : WireTranslations) (next : Nat) (ws known : List Nat)
    (rest : List (Cell Name)) : Prop where
  zero : 0 ∈ ws
  one : 1 ∈ ws
  known : ∀ l ∈ known, translatedWireNumber offset table l ∈ ws
  unknown : ∀ l ∈ rest.flatMap Cell.drives, translatedWireNumber offset table l ∉ ws
  fresh : ∀ n, 2 ≤ n → next ≤ n → n ∉ ws

/-- The wires that building the instance drives are its own, or those of the nets `driven` when it
was entered. -/
def Framed (offset : Nat) (table₀ : WireTranslations) (driven : List Nat) (nodes : List Node) :
    Prop :=
  ∀ n ∈ nodes.map Node.output,
    offset ≤ n ∨ ∃ l ∈ driven, n = translatedWireNumber offset table₀ l

theorem Framed.append {offset : Nat} {table₀ : WireTranslations} {driven : List Nat}
    (h : Framed offset table₀ driven nodes) (h' : Framed offset table₀ driven nodes') :
  Framed offset table₀ driven (nodes ++ nodes')
  := by
  rw [Framed, List.map_append, List.forall_mem_append]
  exact ⟨h, h'⟩

variable {offset maxLabel next : Nat} {table₀ table : WireTranslations}
  {wires₀ wires env : Nat → Bool} {driven ws : List Nat} {rest : List (Cell Name)}

/-- The wires of bits whose nets are driven. -/
theorem Drives.bit (h : Drives offset table next ws known rest)
    {bits : List Bit} (hbits : ∀ l ∈ nets bits, l ∈ known) :
  ∀ w ∈ bits.map (bitNumber offset table), w ∈ ws
  := by
  intro w hw
  obtain ⟨bit, hbit, rfl⟩ := List.mem_map.mp hw
  rcases bit with (_ | _) | l
  · apply h.zero
  · apply h.one
  · apply h.known l (hbits l (mem_nets.mpr hbit))

/-- Fewer nets are known to be driven. -/
theorem Drives.mono {known' : List Nat} (h : Drives offset table next ws known rest)
    (hknown : known' ⊆ known) :
  Drives offset table next ws known' rest
  := ⟨h.zero, h.one, fun l hl => h.known l (hknown hl), h.unknown, h.fresh⟩

/-- The order in which wires are driven does not matter. -/
theorem Drives.perm {ws' : List Nat} (h : Drives offset table next ws known rest)
    (hws : List.Perm ws' ws) :
  Drives offset table next ws' known rest
  := by
  constructor
  · exact hws.mem_iff.mpr h.zero
  · exact hws.mem_iff.mpr h.one
  · intro l hl
    exact hws.mem_iff.mpr (h.known l hl)
  · intro l hl
    rw [hws.mem_iff]
    apply h.unknown l hl
  · intro n hn2 hn
    rw [hws.mem_iff]
    apply h.fresh n hn2 hn

/-- Building a gate drives the wire of its output. -/
theorem Drives.gate {g : Gate} {inputs : List Bit} {output : Nat}
    (h : Drives offset table next ws known (.gate g inputs output :: rest))
    (hsim : Simulates offset maxLabel table₀ wires₀ driven table next wires env
      (.gate g inputs output :: rest))
    (houtput : 2 ≤ output ∧ output ≤ maxLabel) (hnew : output ∉ rest.flatMap Cell.drives)
    (hrest : InLabels maxLabel (rest.flatMap Cell.drives)) :
  Drives offset table next (translatedWireNumber offset table output :: ws) (output :: known) rest
  := by
  have hmem : output ∈ (Cell.gate g inputs output :: rest).flatMap Cell.drives := by
    rw [List.flatMap_cons]
    apply List.mem_append_left _ (List.mem_singleton_self output)
  constructor
  · apply List.mem_cons_of_mem _ h.zero
  · apply List.mem_cons_of_mem _ h.one
  · intro l hl
    rcases List.mem_cons.mp hl with rfl | hl
    · apply List.mem_cons_self
    · apply List.mem_cons_of_mem _ (h.known l hl)
  · intro l hl hl'
    have hlo : l ≠ output := fun heq => hnew (heq ▸ hl)
    rcases List.mem_cons.mp hl' with heq | hl'
    · apply hsim.exclusive output hmem l (hrest l hl).1 (hrest l hl).2 hlo heq
    · apply h.unknown l _ hl'
      rw [List.flatMap_cons]
      apply List.mem_append_right _ hl
  · intro n hn2 hn hmem'
    have hlt := hsim.lt output houtput.1 houtput.2
    rcases List.mem_cons.mp hmem' with rfl | hmem'
    · omega
    · apply h.fresh n hn2 hn hmem'

section Submodules

variable {maxLabel' next' : Nat} {name : Name} {inputs : List (Bit × Nat)}
  {outputs : List (Nat × Bit)} {outer inner inner' : WireTranslations}
  {driven' known' ws' : List Nat}
  (hset : Setting offset maxLabel maxLabel' next table inputs outputs outer inner driven' rest)
  (hsim : Simulates offset maxLabel table₀ wires₀ driven table next wires env
    (.submodule name inputs outputs :: rest))
  (h : Drives offset table next ws known (.submodule name inputs outputs :: rest))

include hset h

/-- When a submodule is entered, the wires of its input nets are driven. -/
theorem Drives.enter {cells' : List (Cell Name)} (hcells' : cells'.flatMap Cell.drives = driven')
    (hdriven' : InLabels maxLabel' driven') (hreads : ∀ l ∈ nets (inputs.map Prod.fst), l ∈ known)
    {ports : List Nat} (hports : ∀ l ∈ ports, l ∈ inputs.map Prod.snd) :
  Drives next inner (next + (maxLabel' + 1)) ws ports cells'
  := by
  constructor
  · apply h.zero
  · apply h.one
  · intro l hl
    obtain ⟨p, hp, rfl⟩ := List.mem_map.mp (hports l hl)
    rw [translatedWireNumber_of_some (hset.connects.input p hp)]
    apply h.bit hreads
    rw [List.map_map]
    exact List.mem_map.mpr ⟨p, hp, rfl⟩
  · intro l hl
    rw [hcells'] at hl
    rcases hset.driven_cases hl with ⟨w, hw, hnumber⟩ | hnumber
    · rw [hnumber]
      apply h.unknown w (mem_of_output (List.mem_map_of_mem hw))
    · have htwo := (hdriven' l hl).1
      rw [hnumber]
      apply h.fresh (l + next) (by omega) (by omega)
  · intro n hn2 hn
    apply h.fresh n hn2 (by omega)

include hsim

/-- When a submodule is left, the wires of the nets connected to its outputs are driven. -/
theorem Drives.leave {nodes : List Node}
    (h' : Drives next inner' next' (nodes.map Node.output ++ ws) known' ([] : List (Cell Name)))
    (hframed : Framed next inner driven' nodes)
    (hkept : ∀ l x, inner (l + next) = some x → inner' (l + next) = some x)
    (hnets : ∀ l ∈ nets (outputs.map Prod.snd), l ∈ known')
    (hconstants : ∀ w b, (w, .constant b) ∈ outputs → outer (w + offset) = some (constantNumber b))
    (hrest : InLabels maxLabel (rest.flatMap Cell.drives)) :
  Drives offset outer next' (nodes.map Node.output ++ ws) (outputs.map Prod.fst ++ known) rest
  := by
  constructor
  · apply h'.zero
  · apply h'.one
  · intro w hw
    by_cases hw' : w ∈ outputs.map Prod.fst
    · obtain ⟨⟨w, bit⟩, hmem, rfl⟩ := List.mem_map.mp hw'
      rcases bit with b | l
      · rw [translatedWireNumber_of_some (hconstants w b hmem)]
        cases b with
        | false => apply h'.zero
        | true => apply h'.one
      · have hl : l ∈ nets (outputs.map Prod.snd) := by
          rw [mem_nets]
          exact List.mem_map.mpr ⟨_, hmem, rfl⟩
        rw [← translatedWireNumber_of_some (hkept l _ (hset.connects.net w l hmem))]
        apply h'.known l (hnets l hl)
    · rw [translatedWireNumber_congr (hset.connects.other w hw')]
      apply List.mem_append_right
      apply h.known w ((List.mem_append.mp hw).resolve_left hw')
  · intro l hl
    obtain ⟨hl2, hlm⟩ := hrest l hl
    have hlt := hsim.lt l hl2 hlm
    rw [translatedWireNumber_congr (hset.connects.other l (fun hmem => hset.new l hmem hl)),
      List.mem_append, not_or]
    constructor
    · intro hmem
      rcases hframed _ hmem with hle | ⟨l', hl', heq⟩
      · omega
      · rcases hset.driven_cases hl' with ⟨w, hw, hnumber⟩ | hnumber
        · rw [hnumber] at heq
          apply hsim.exclusive w (mem_of_output (List.mem_map_of_mem hw)) l hl2 hlm _ heq
          rintro rfl
          apply hset.new l (List.mem_map_of_mem hw) hl
        · omega
    · apply h.unknown l (mem_of_rest hl)
  · apply h'.fresh

end Submodules

end Builder

end SynCirc
