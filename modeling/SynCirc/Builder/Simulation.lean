import SynCirc.Builder.Connect

/-!
# Wires and nets of a module instance

While a module instance is built, the wires of its nets hold the values of the nets (`Simulates`).
A gate drives the wire of its output net.  A submodule is built in between: when it is entered, the
wires of its nets hold the values its nets begin with (`Simulates.enter`), and when it is left, the
wires of the nets of the instantiating module hold their values again (`Simulates.leave`).

What makes this work is that the wire of a net that is still to be driven belongs to no other net.
-/

namespace SynCirc

namespace Builder

open Netlist

variable {Name : Type}

/-- The instance at `offset`, with labels from 2 to `maxLabel`, began with the translation table
`table₀` and the wire values `wires₀`, and drives the nets `driven`.  Now its translation table is
`table`, the next free wire number is `next`, the wires hold `wires`, the nets have the values `env`
and the cells `rest` are still to be built. -/
structure Simulates (offset maxLabel : Nat) (table₀ : WireTranslations) (wires₀ : Nat → Bool)
    (driven : List Nat) (table : WireTranslations) (next : Nat) (wires env : Nat → Bool)
    (rest : List (Cell Name)) : Prop where
  agree : ∀ l, 2 ≤ l → l ≤ maxLabel → wires (translatedWireNumber offset table l) = env l
  exclusive : ∀ l ∈ rest.flatMap Cell.drives, ∀ l', 2 ≤ l' → l' ≤ maxLabel → l' ≠ l →
    translatedWireNumber offset table l' ≠ translatedWireNumber offset table l
  two_le : ∀ l ∈ rest.flatMap Cell.drives, 2 ≤ translatedWireNumber offset table l
  lt : ∀ l, 2 ≤ l → l ≤ maxLabel → translatedWireNumber offset table l < next
  unset : ∀ l ∈ rest.flatMap Cell.drives, env l = false
  same : ∀ l ∈ rest.flatMap Cell.drives, table (l + offset) = table₀ (l + offset)
  kept : ∀ l x, table₀ (l + offset) = some x → table (l + offset) = some x
  fresh : ∀ n, 2 ≤ n → next ≤ n → wires n = false
  zero : wires 0 = false
  one : wires 1 = true
  frame : ∀ n < offset, (∀ l ∈ driven, n ≠ translatedWireNumber offset table₀ l) →
    wires n = wires₀ n
  next_le : offset + maxLabel + 1 ≤ next

/-- The labels are those of nets. -/
def InLabels (maxLabel : Nat) (labels : List Nat) : Prop := ∀ l ∈ labels, 2 ≤ l ∧ l ≤ maxLabel

variable {offset maxLabel next : Nat} {table₀ table : WireTranslations}
  {wires₀ wires env : Nat → Bool} {driven : List Nat} {rest : List (Cell Name)}

/-- The wire of a bit holds its value. -/
theorem Simulates.value
    (h : Simulates offset maxLabel table₀ wires₀ driven table next wires env rest) {bit : Bit}
    (hbit : InLabels maxLabel (nets [bit])) :
  wires (bitNumber offset table bit) = bit.value env
  := by
  cases bit with
  | constant b =>
      cases b with
      | false => apply h.zero
      | true => apply h.one
  | net l =>
      have hl := hbit l (List.mem_singleton_self l)
      apply h.agree l hl.1 hl.2

theorem InLabels.of_mem {bits : List Bit} (h : InLabels maxLabel (nets bits)) {bit : Bit}
    (hbit : bit ∈ bits) :
  InLabels maxLabel (nets [bit])
  := by
  intro l hl
  apply h l
  rw [mem_nets, List.mem_singleton] at hl
  rw [mem_nets, hl]
  apply hbit

/-- The wires of bits hold their values. -/
theorem Simulates.values
    (h : Simulates offset maxLabel table₀ wires₀ driven table next wires env rest)
    {bits : List Bit} (hbits : InLabels maxLabel (nets bits)) :
  (bits.map (bitNumber offset table)).map wires = bits.map (Bit.value env)
  := by
  rw [List.map_map]
  apply List.map_congr_left
  intro bit hbit
  apply h.value (hbits.of_mem hbit)

/-- Building a gate drives the wire of its output. -/
theorem Simulates.gate {g : Gate} {inputs : List Bit} {output : Nat}
    (h : Simulates offset maxLabel table₀ wires₀ driven table next wires env
      (.gate g inputs output :: rest))
    (hdriven : output ∈ driven) (houtput : 2 ≤ output ∧ output ≤ maxLabel)
    (hnew : output ∉ rest.flatMap Cell.drives) (value : Bool) :
  Simulates offset maxLabel table₀ wires₀ driven table next
    (Function.update wires (translatedWireNumber offset table output) value)
    (Function.update env output value) rest
  := by
  have hmem : output ∈ (Cell.gate g inputs output :: rest).flatMap Cell.drives := by
    rw [List.flatMap_cons]
    apply List.mem_append_left _ (List.mem_singleton_self output)
  have hsub : ∀ l ∈ rest.flatMap Cell.drives,
      l ∈ (Cell.gate g inputs output :: rest).flatMap Cell.drives := by
    intro l hl
    rw [List.flatMap_cons]
    apply List.mem_append_right _ hl
  have htwo := h.two_le output hmem
  constructor
  · intro l hl2 hl
    by_cases hlo : l = output
    · rw [hlo, Function.update_self, Function.update_self]
    · rw [Function.update_of_ne (h.exclusive output hmem l hl2 hl hlo), Function.update_of_ne hlo]
      apply h.agree l hl2 hl
  · intro l hl
    apply h.exclusive l (hsub l hl)
  · intro l hl
    apply h.two_le l (hsub l hl)
  · apply h.lt
  · intro l hl
    have hlo : l ≠ output := fun heq => hnew (heq ▸ hl)
    rw [Function.update_of_ne hlo]
    apply h.unset l (hsub l hl)
  · intro l hl
    apply h.same l (hsub l hl)
  · apply h.kept
  · intro n hn2 hn
    have hlt := h.lt output houtput.1 houtput.2
    rw [Function.update_of_ne (by omega)]
    apply h.fresh n hn2 hn
  · rw [Function.update_of_ne (by omega)]
    apply h.zero
  · rw [Function.update_of_ne (by omega)]
    apply h.one
  · intro n hn hframe
    rw [Function.update_of_ne, h.frame n hn hframe]
    rw [translatedWireNumber_congr (h.same output hmem)]
    apply hframe output hdriven
  · apply h.next_le

/-! ### Submodules -/

section Submodules

variable {maxLabel' next' : Nat} {name : Name} {inputs : List (Bit × Nat)}
  {outputs : List (Nat × Bit)} {outer inner : WireTranslations} {driven' : List Nat}

/-- The setting of a submodule that is connected next: its labels, and the nets it drives, which
are not among its inputs. -/
structure Setting (offset maxLabel maxLabel' next : Nat) (table : WireTranslations)
    (inputs : List (Bit × Nat)) (outputs : List (Nat × Bit)) (outer inner : WireTranslations)
    (driven' : List Nat) (rest : List (Cell Name)) : Prop where
  connects : Connects offset next table inputs outputs outer inner
  reads : InLabels maxLabel (nets (inputs.map Prod.fst))
  drives : InLabels maxLabel (outputs.map Prod.fst)
  ports : InLabels maxLabel' (inputs.map Prod.snd ++ nets (outputs.map Prod.snd))
  nodup : (inputs.map Prod.snd).Nodup
  nodup' : (outputs.map Prod.fst).Nodup
  disjoint : ∀ l ∈ driven', l ∉ inputs.map Prod.snd
  ordered : ∀ l ∈ nets (inputs.map Prod.fst),
    l ∉ outputs.map Prod.fst ∧ l ∉ rest.flatMap Cell.drives
  new : ∀ l ∈ outputs.map Prod.fst, l ∉ rest.flatMap Cell.drives

theorem mem_of_output {w : Nat} (hw : w ∈ outputs.map Prod.fst) :
  w ∈ (Cell.submodule name inputs outputs :: rest).flatMap Cell.drives
  := by
  rw [List.flatMap_cons]
  apply List.mem_append_left _ hw

theorem mem_of_rest {l : Nat} (hl : l ∈ rest.flatMap Cell.drives) :
  l ∈ (Cell.submodule name inputs outputs :: rest).flatMap Cell.drives
  := by
  rw [List.flatMap_cons]
  apply List.mem_append_right _ hl

variable
  (hset : Setting offset maxLabel maxLabel' next table inputs outputs outer inner driven' rest)
  (h : Simulates offset maxLabel table₀ wires₀ driven table next wires env
    (.submodule name inputs outputs :: rest))

include hset

/-- The wire of a net of the submodule is that of the bit connected to it as an input, that of a net
of the instantiating module connected to it as an output, or new. -/
theorem Setting.inner_cases (l : Nat) :
  (∃ p ∈ inputs, p.2 = l ∧ translatedWireNumber next inner l = bitNumber offset table p.1)
    ∨ l ∉ inputs.map Prod.snd ∧ ((∃ w, (w, .net l) ∈ outputs
        ∧ translatedWireNumber next inner l = translatedWireNumber offset table w)
      ∨ translatedWireNumber next inner l = l + next)
  := by
  rcases hinner : inner (l + next) with _ | x
  · have hl : l ∉ inputs.map Prod.snd := by
      intro hl
      obtain ⟨p, hp, rfl⟩ := List.mem_map.mp hl
      rw [hset.connects.input p hp] at hinner
      cases hinner
    exact .inr ⟨hl, .inr (translatedWireNumber_of_none hinner)⟩
  · rw [translatedWireNumber_of_some hinner]
    rcases hset.connects.entry l x hinner with hinput | ⟨hl, hw⟩
    · exact .inl hinput
    · exact .inr ⟨hl, .inl hw⟩

/-- An entry of a net that the submodule drives is the wire of a net of the instantiating module
that is connected to it. -/
theorem Setting.driven_entry {l x : Nat} (hl : l ∈ driven') (hx : inner (l + next) = some x) :
  ∃ w, (w, .net l) ∈ outputs ∧ x = translatedWireNumber offset table w
  := by
  rcases hset.connects.entry l x hx with ⟨p, hp, rfl, _⟩ | ⟨_, hw⟩
  · apply absurd (List.mem_map_of_mem hp) (hset.disjoint _ hl)
  · apply hw

/-- A net that the submodule drives is connected to a net of the instantiating module, or its wire
is new. -/
theorem Setting.driven_cases {l : Nat} (hl : l ∈ driven') :
  (∃ w, (w, .net l) ∈ outputs
      ∧ translatedWireNumber next inner l = translatedWireNumber offset table w)
    ∨ translatedWireNumber next inner l = l + next
  := by
  rcases hset.inner_cases l with ⟨p, hp, rfl, _⟩ | ⟨_, hcases⟩
  · apply absurd (List.mem_map_of_mem hp) (hset.disjoint _ hl)
  · apply hcases

include h

/-- The wire of a bit that is connected to an input is not that of a net still to be driven. -/
theorem Simulates.input_ne {p : Bit × Nat} (hp : p ∈ inputs) {w : Nat}
    (hw : w ∈ (Cell.submodule name inputs outputs :: rest).flatMap Cell.drives) :
  bitNumber offset table p.1 ≠ translatedWireNumber offset table w
  := by
  rcases hbit : p.1 with b | u
  · have hle := constantNumber_le b
    have htwo := h.two_le w hw
    rw [bitNumber]
    omega
  · have hu : u ∈ nets (inputs.map Prod.fst) := by
      rw [mem_nets, ← hbit]
      apply List.mem_map_of_mem hp
    obtain ⟨hu2, hum⟩ := hset.reads u hu
    obtain ⟨hout, hrest⟩ := hset.ordered u hu
    apply h.exclusive w hw u hu2 hum
    rintro rfl
    rw [List.flatMap_cons] at hw
    rcases List.mem_append.mp hw with hw | hw
    · apply hout hw
    · apply hrest hw

/-- The wire of a bit that is connected to an input is in use or that of a constant. -/
theorem Simulates.input_lt {p : Bit × Nat} (hp : p ∈ inputs) :
  bitNumber offset table p.1 < next ∨ bitNumber offset table p.1 ≤ 1
  := by
  rcases hbit : p.1 with b | u
  · exact .inr (constantNumber_le b)
  · have hu : u ∈ nets (inputs.map Prod.fst) := by
      rw [mem_nets, ← hbit]
      apply List.mem_map_of_mem hp
    obtain ⟨hu2, hum⟩ := hset.reads u hu
    exact .inl (h.lt u hu2 hum)

/-- The wire of a connected net is in use. -/
theorem Simulates.output_lt {w : Nat} (hw : w ∈ outputs.map Prod.fst) :
  translatedWireNumber offset table w < next
  := by
  obtain ⟨hw2, hwm⟩ := hset.drives w hw
  apply h.lt w hw2 hwm

/-- The wire of a net that the submodule drives is that of no other net of the submodule. -/
theorem Simulates.inner_ne {l : Nat} (hl : l ∈ driven') (hl2 : 2 ≤ l) {l' : Nat} (hne : l' ≠ l) :
  translatedWireNumber next inner l' ≠ translatedWireNumber next inner l
  := by
  rcases hset.driven_cases hl with ⟨w, hw, hnumber⟩ | hnumber
  · have hw' : w ∈ outputs.map Prod.fst := List.mem_map_of_mem hw
    rw [hnumber]
    rcases hset.inner_cases l' with ⟨p, hp, _, hp'⟩ | ⟨_, ⟨w', hmem, hw''⟩ | hnew⟩
    · rw [hp']
      apply h.input_ne hset hp (mem_of_output hw')
    · obtain ⟨hw2, hwm⟩ := hset.drives w' (List.mem_map_of_mem hmem)
      rw [hw'']
      apply h.exclusive w (mem_of_output hw') w' hw2 hwm
      rintro rfl
      have heq := List.inj_on_of_nodup_map hset.nodup' hw hmem rfl
      rw [Prod.mk.injEq, Bit.net.injEq] at heq
      apply hne heq.2.symm
    · have hlt := h.output_lt hset hw'
      omega
  · rw [hnumber]
    rcases hset.inner_cases l' with ⟨p, hp, _, hp'⟩ | ⟨_, ⟨w', hmem, hw''⟩ | hnew⟩
    · have hlt := h.input_lt hset hp
      omega
    · have hlt := h.output_lt hset (w := w') (List.mem_map_of_mem hmem)
      omega
    · omega

/-- When a submodule is entered, the wires of its nets hold the values its nets begin with. -/
theorem Simulates.enter {cells' : List (Cell Name)}
    (hcells' : cells'.flatMap Cell.drives = driven') (hdriven' : InLabels maxLabel' driven') :
  Simulates next maxLabel' inner wires driven' inner (next + (maxLabel' + 1)) wires
    (assign (fun _ => false) (inputs.map (fun p => (p.2, p.1.value env)))) cells'
  := by
  have hkeys : (inputs.map (fun p => (p.2, p.1.value env))).map Prod.fst
      = inputs.map Prod.snd := by
    rw [List.map_map]
    rfl
  have hinput : ∀ p ∈ inputs, assign (fun _ => false)
      (inputs.map (fun p => (p.2, p.1.value env))) p.2 = p.1.value env := by
    intro p hp
    apply assign_of_mem (by rw [hkeys]; apply hset.nodup)
    exact List.mem_map.mpr ⟨p, hp, rfl⟩
  have hother : ∀ l, l ∉ inputs.map Prod.snd → assign (fun _ => false)
      (inputs.map (fun p => (p.2, p.1.value env))) l = false := by
    intro l hl
    rw [assign_of_notMem (by rw [hkeys]; apply hl)]
  rw [← hcells'] at hset hdriven'
  constructor
  · intro l hl2 hlm
    rcases hset.inner_cases l with ⟨p, hp, rfl, hp'⟩ | ⟨hl, ⟨w, hw, hw'⟩ | hnew⟩
    · rw [hp', hinput p hp]
      apply h.value
      apply hset.reads.of_mem (List.mem_map_of_mem hp)
    · obtain ⟨hw2, hwm⟩ := hset.drives w (List.mem_map_of_mem hw)
      rw [hw', hother l hl, h.agree w hw2 hwm]
      apply h.unset w (mem_of_output (List.mem_map_of_mem hw))
    · rw [hnew, hother l hl]
      apply h.fresh (l + next) (by omega) (by omega)
  · intro l hl l' _ _ hne
    apply h.inner_ne hset hl (hdriven' l hl).1 hne
  · intro l hl
    rcases hset.driven_cases hl with ⟨w, hw, hnumber⟩ | hnumber
    · rw [hnumber]
      apply h.two_le w (mem_of_output (List.mem_map_of_mem hw))
    · have hl2 := (hdriven' l hl).1
      omega
  · intro l hl2 hlm
    rcases hset.inner_cases l with ⟨p, hp, _, hp'⟩ | ⟨_, ⟨w, hw, hw'⟩ | hnew⟩
    · have hlt := h.input_lt hset hp
      omega
    · have hlt := h.output_lt hset (w := w) (List.mem_map_of_mem hw)
      omega
    · omega
  · intro l hl
    apply hother l (hset.disjoint l hl)
  · intro l _
    rfl
  · intro l x hx
    apply hx
  · intro n hn2 hn
    apply h.fresh n hn2 (by omega)
  · apply h.zero
  · apply h.one
  · intro n _ _
    rfl
  · omega

/-- The wire of a net other than those connected to driven nets of the submodule is left as it is by
the submodule. -/
theorem Simulates.frame_of_ne {cells' : List (Cell Name)} {inner' : WireTranslations}
    {wires' env' : Nat → Bool}
    (h' : Simulates next maxLabel' inner wires driven' inner' next' wires' env' cells') {l : Nat}
    (hl2 : 2 ≤ l) (hlm : l ≤ maxLabel) (hl : ∀ l', (l, .net l') ∉ outputs) :
  wires' (translatedWireNumber offset table l) = wires (translatedWireNumber offset table l)
  := by
  apply h'.frame _ (h.lt l hl2 hlm)
  intro l' hl'
  rcases hset.driven_cases hl' with ⟨w, hw, hnumber⟩ | hnumber
  · rw [hnumber]
    apply h.exclusive w (mem_of_output (List.mem_map_of_mem hw)) l hl2 hlm
    rintro rfl
    apply hl l' hw
  · have hlt := h.lt l hl2 hlm
    omega

omit h in
/-- The wire of a connected net, after the submodule is connected, is that of a bit connected to an
input, that of a connected net or a constant. -/
theorem Setting.outer_cases {w : Nat} (hw : w ∈ outputs.map Prod.fst) :
  (∃ p ∈ inputs, translatedWireNumber offset outer w = bitNumber offset table p.1)
    ∨ (∃ w' ∈ outputs.map Prod.fst,
        translatedWireNumber offset outer w = translatedWireNumber offset table w')
    ∨ translatedWireNumber offset outer w ≤ 1
  := by
  obtain ⟨⟨w, bit⟩, hmem, rfl⟩ := List.mem_map.mp hw
  cases bit with
  | constant b =>
      rcases hset.connects.constant w b hmem with hnumber | ⟨_, hnumber⟩
      · right; right
        rw [hnumber]
        apply constantNumber_le
      · exact .inr (.inl ⟨w, hw, hnumber⟩)
  | net l =>
      rcases hset.connects.entry l _ (hset.connects.net w l hmem) with
        ⟨p, hp, _, hnumber⟩ | ⟨_, w', hw', hnumber⟩
      · exact .inl ⟨p, hp, hnumber⟩
      · exact .inr (.inl ⟨w', List.mem_map_of_mem hw', hnumber⟩)

/-- When a submodule is left, the wire of a connected net holds the value of the bit that is
connected to it. -/
theorem Simulates.output_value {cells' : List (Cell Name)} {inner' : WireTranslations}
    {wires' env' : Nat → Bool}
    (h' : Simulates next maxLabel' inner wires driven' inner' next' wires' env' cells') {w : Nat}
    {bit : Bit} (hmem : (w, bit) ∈ outputs) :
  wires' (translatedWireNumber offset outer w) = bit.value env'
  := by
  cases bit with
  | constant b =>
      rcases hset.connects.constant w b hmem with hnumber | ⟨rfl, hnumber⟩
      · rw [hnumber]
        cases b with
        | false => apply h'.zero
        | true => apply h'.one
      · have hw : w ∈ outputs.map Prod.fst := List.mem_map_of_mem hmem
        obtain ⟨hw2, hwm⟩ := hset.drives w hw
        rw [hnumber, h.frame_of_ne hset h' hw2 hwm, h.agree w hw2 hwm]
        · apply h.unset w (mem_of_output hw)
        · intro l' hmem'
          have heq := List.inj_on_of_nodup_map hset.nodup' hmem hmem' rfl
          cases (Prod.mk.inj heq).2
  | net l' =>
      have hl' : l' ∈ nets (outputs.map Prod.snd) := by
        rw [mem_nets]
        exact List.mem_map.mpr ⟨_, hmem, rfl⟩
      obtain ⟨hl'2, hl'm⟩ := hset.ports l' (List.mem_append_right _ hl')
      have hagree := h'.agree l' hl'2 hl'm
      rw [translatedWireNumber_of_some (h'.kept l' _ (hset.connects.net w l' hmem))] at hagree
      apply hagree

/-- After the submodule is connected, the wire of a connected net is not that of a net still to be
driven. -/
theorem Simulates.outer_ne {w : Nat} (hw : w ∈ outputs.map Prod.fst) {l : Nat}
    (hl : l ∈ rest.flatMap Cell.drives) :
  translatedWireNumber offset outer w ≠ translatedWireNumber offset table l
  := by
  rcases hset.outer_cases hw with ⟨p, hp, hnumber⟩ | ⟨w', hw', hnumber⟩ | hle
  · rw [hnumber]
    apply h.input_ne hset hp (mem_of_rest hl)
  · rw [hnumber]
    obtain ⟨hw2, hwm⟩ := hset.drives w' hw'
    apply h.exclusive l (mem_of_rest hl) w' hw2 hwm
    rintro rfl
    apply hset.new w' hw' hl
  · have htwo := h.two_le l (mem_of_rest hl)
    omega

/-- After the submodule is connected, the wire of a connected net is in use or that of a
constant. -/
theorem Simulates.outer_lt {w : Nat} (hw : w ∈ outputs.map Prod.fst) :
  translatedWireNumber offset outer w < next ∨ translatedWireNumber offset outer w ≤ 1
  := by
  rcases hset.outer_cases hw with ⟨p, hp, hnumber⟩ | ⟨w', hw', hnumber⟩ | hle
  · rw [hnumber]
    apply h.input_lt hset hp
  · rw [hnumber]
    exact .inl (h.output_lt hset hw')
  · exact .inr hle

/-- When a submodule is left, the wires of the nets of the instantiating module hold their
values. -/
theorem Simulates.leave {cells' : List (Cell Name)} {inner' : WireTranslations}
    {wires' env' : Nat → Bool}
    (h' : Simulates next maxLabel' inner wires driven' inner' next' wires' env' cells')
    (hdriven : ∀ w ∈ outputs.map Prod.fst, w ∈ driven) :
  Simulates offset maxLabel table₀ wires₀ driven outer next' wires'
    (assign env (outputs.map (fun p => (p.1, p.2.value env')))) rest
  := by
  have hkeys : (outputs.map (fun p => (p.1, p.2.value env'))).map Prod.fst
      = outputs.map Prod.fst := by
    rw [List.map_map]
    rfl
  have houtput : ∀ w bit, (w, bit) ∈ outputs → assign env
      (outputs.map (fun p => (p.1, p.2.value env'))) w = bit.value env' := by
    intro w bit hmem
    apply assign_of_mem (by rw [hkeys]; apply hset.nodup')
    exact List.mem_map.mpr ⟨(w, bit), hmem, rfl⟩
  have hother : ∀ l, l ∉ outputs.map Prod.fst → assign env
      (outputs.map (fun p => (p.1, p.2.value env'))) l = env l := by
    intro l hl
    rw [assign_of_notMem (by rw [hkeys]; apply hl)]
  have hsame : ∀ l, l ∉ outputs.map Prod.fst →
      translatedWireNumber offset outer l = translatedWireNumber offset table l :=
    fun l hl => translatedWireNumber_congr (hset.connects.other l hl)
  have hrest : ∀ l ∈ rest.flatMap Cell.drives, l ∉ outputs.map Prod.fst :=
    fun l hl hmem => hset.new l hmem hl
  have hnext := h'.next_le
  constructor
  · intro l hl2 hlm
    by_cases hl : l ∈ outputs.map Prod.fst
    · obtain ⟨⟨w, bit⟩, hmem, rfl⟩ := List.mem_map.mp hl
      rw [houtput w bit hmem]
      apply h.output_value hset h' hmem
    · rw [hsame l hl, hother l hl, h.frame_of_ne hset h' hl2 hlm, h.agree l hl2 hlm]
      intro l' hmem
      apply hl (List.mem_map_of_mem hmem)
  · intro l hl l' hl'2 hl'm hne
    rw [hsame l (hrest l hl)]
    by_cases hl' : l' ∈ outputs.map Prod.fst
    · apply h.outer_ne hset hl' hl
    · rw [hsame l' hl']
      apply h.exclusive l (mem_of_rest hl) l' hl'2 hl'm hne
  · intro l hl
    rw [hsame l (hrest l hl)]
    apply h.two_le l (mem_of_rest hl)
  · intro l hl2 hlm
    have hmax := h.next_le
    by_cases hl : l ∈ outputs.map Prod.fst
    · have hlt := h.outer_lt hset hl
      omega
    · have hlt := h.lt l hl2 hlm
      rw [hsame l hl]
      omega
  · intro l hl
    rw [hother l (hrest l hl)]
    apply h.unset l (mem_of_rest hl)
  · intro l hl
    rw [hset.connects.other l (hrest l hl)]
    apply h.same l (mem_of_rest hl)
  · intro l x hx
    apply hset.connects.kept l x (h.kept l x hx)
  · apply h'.fresh
  · apply h'.zero
  · apply h'.one
  · intro n hn hframe
    have hmax := h.next_le
    rw [← h.frame n hn hframe]
    apply h'.frame n (by omega)
    intro l hl
    rcases hset.driven_cases hl with ⟨w, hw, hnumber⟩ | hnumber
    · have hw' : w ∈ outputs.map Prod.fst := List.mem_map_of_mem hw
      rw [hnumber, translatedWireNumber_congr (h.same w (mem_of_output hw'))]
      apply hframe w (hdriven w hw')
    · omega
  · have hmax := h.next_le
    omega

end Submodules

end Builder

end SynCirc
