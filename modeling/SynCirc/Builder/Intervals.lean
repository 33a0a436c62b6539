import SynCirc.Builder.Expansion
import Mathlib.Data.List.Pairwise
import Mathlib.Data.Set.BooleanAlgebra
import Mathlib.Logic.Relation
import Mathlib.Order.CompletePartialOrder

/-!
# The wire numbers of module instances

Every module instance that is entered reserves an interval of wire numbers.  The intervals of the
instances entered so far are disjoint and cover the numbers below the next free one (`Tiled`).

A bit of a module instance is a terminal: a net of the instance or a constant.  Instance cells
join the bits of their connections with the bits of the ports of their module.  Two nets share a
wire number only if they are connected by such joints, and a net has the number of a constant only
if it is connected with the constant.  The invariant behind this is that every entry of a
translation table connects the terminals that have its two numbers (`Linked`).
-/

namespace SynCirc

open Zig

namespace Builder

variable (modules : List (List UInt8 × Json))

/-- The wire numbers reserved for a module instance. -/
def interval (i : ModuleInstantiation) : Set Nat :=
  {n | ∃ maxWireLabel, findMaxWireLabel modules i.moduleName = .ok maxWireLabel
    ∧ i.wireNumberOffset ≤ n ∧ n ≤ i.wireNumberOffset + maxWireLabel}

/-- The intervals of the instances follow each other without gaps up to `next`. -/
structure Tiled (entered : List ModuleInstantiation) (next : Nat) : Prop where
  below : ∀ i ∈ entered, ∃ maxWireLabel, findMaxWireLabel modules i.moduleName = .ok maxWireLabel
    ∧ i.wireNumberOffset + maxWireLabel < next
  ordered : entered.Pairwise (fun i j => ∀ n ∈ interval modules i, n < j.wireNumberOffset)
  cover : ∀ n < next, ∃ i ∈ entered, n ∈ interval modules i

/-! ### Terminals -/

/-- A constant, or the net of a module instance with the given label. -/
inductive Terminal where
  | constant (b : Bool)
  | net (i : ModuleInstantiation) (label : Nat)

/-- The wire number of a terminal, before any translation. -/
def Terminal.number : Terminal → Nat
  | .constant b => constantNumber b
  | .net i label => label + i.wireNumberOffset

/-- The terminal of a bit of a module instance. -/
def terminal (i : ModuleInstantiation) : Json → Option Terminal
  | .integer (.ofNat label) => some (.net i label)
  | .string str => (constantBit str).map .constant
  | _ => none

/-- Instance cells, each with the instance it belongs to and the instance it yields. -/
abbrev Yielded := List (ModuleInstantiation × (Json × List UInt8) × ModuleInstantiation)

/-- The instance cells `yielded` join the terminals of a connection bit and of the port bit at its
position. -/
inductive Joined (yielded : Yielded) : Terminal → Terminal → Prop
  | joint {i j : ModuleInstantiation} {cells cell connections node ports port :
        List (List UInt8 × Json)} {cellName name : List UInt8} {connectionList portList : List Json}
      {k : Nat} {bit portBit : Json} {t t' : Terminal}
      (hyielded : (i, (.object cells, cellName), j) ∈ yielded)
      (hcell : cells.lookup cellName = some (.object cell))
      (hconnections : cell.lookup (bytes "connections") = some (.object connections))
      (hconnection : (name, .array connectionList) ∈ connections)
      (hnode : modules.lookup j.moduleName = some (.object node))
      (hports : node.lookup (bytes "ports") = some (.object ports))
      (hport : ports.lookup name = some (.object port))
      (hbits : port.lookup (bytes "bits") = some (.array portList))
      (hbit : connectionList[k]? = some bit) (hportBit : portList[k]? = some portBit)
      (ht : terminal i bit = some t) (ht' : terminal j portBit = some t') :
      Joined yielded t t'

/-- The terminals are connected by joints. -/
def Connected (yielded : Yielded) : Terminal → Terminal → Prop :=
  Relation.EqvGen (Joined modules yielded)

/-- The wire number of a net. -/
def wireNumber (s : State) (i : ModuleInstantiation) (label : Nat) : Nat :=
  translatedWireNumber i.wireNumberOffset (s.tables.cell i.connections) label

/-- A constant, or a net of an instance that has been entered or is `fresh`. -/
def Known (entered : List ModuleInstantiation) (fresh : Option ModuleInstantiation) :
    Terminal → Prop
  | .constant _ => True
  | .net i label => (i ∈ entered ∨ fresh = some i) ∧ HasLabel modules i.moduleName label

/-- The number `w` is that of a terminal connected with `t`. -/
def Stands (entered : List ModuleInstantiation) (yielded : Yielded) (t : Terminal) (w : Nat) :
    Prop :=
  ∃ t', Known modules entered none t' ∧ t'.number = w ∧ Connected modules yielded t t'

/-- The number `v` is that of a terminal connected with the one that has the number `k`. -/
def Linked (entered : List ModuleInstantiation) (yielded : Yielded)
    (fresh : Option ModuleInstantiation) (k v : Nat) : Prop :=
  ∃ t, Known modules entered fresh t ∧ t.number = k ∧ Stands modules entered yielded t v

/-- Every entry of the table links its numbers. -/
def TableLinked (entered : List ModuleInstantiation) (yielded : Yielded)
    (fresh : Option ModuleInstantiation) (table : WireTranslations) : Prop :=
  ∀ k v, table k = some v → Linked modules entered yielded fresh k v

/-- The labels of all modules are at least 2. -/
def LabelsFromTwo : Prop := ∀ m l, HasLabel modules m l → 2 ≤ l

variable {modules} {entered : List ModuleInstantiation} {yielded : Yielded}
  {fresh : Option ModuleInstantiation} {next : Nat}

/-! ### Intervals -/

/-- The next instance extends the tiling. -/
theorem Tiled.append (h : Tiled modules entered next) {i : ModuleInstantiation}
    (hi : i.wireNumberOffset = next) {maxWireLabel : Nat}
    (hmax : findMaxWireLabel modules i.moduleName = .ok maxWireLabel) :
  Tiled modules (entered ++ [i]) (next + (maxWireLabel + 1))
  := by
  constructor
  · rw [List.forall_mem_append, List.forall_mem_singleton]
    constructor
    · intro j hj
      obtain ⟨max', hmax', hlt⟩ := h.below j hj
      exact ⟨max', hmax', by omega⟩
    · exact ⟨maxWireLabel, hmax, by omega⟩
  · rw [List.pairwise_append]
    refine ⟨h.ordered, List.pairwise_singleton .., ?_⟩
    intro j hj i' hi' n hn
    rw [List.mem_singleton] at hi'
    obtain ⟨max', hmax', hlt⟩ := h.below j hj
    obtain ⟨max'', hmax'', hn⟩ := hn
    rw [hmax', Outcome.ok.injEq] at hmax''
    rw [hi', hi]
    omega
  · intro n hn
    by_cases hlt : n < next
    · obtain ⟨j, hj, hmem⟩ := h.cover n hlt
      exact ⟨j, List.mem_append_left _ hj, hmem⟩
    · exact ⟨i, by simp, maxWireLabel, hmax, by omega, by omega⟩

/-- A net of an entered instance has its number in the interval of the instance. -/
theorem Tiled.mem_interval (h : Tiled modules entered next) {i : ModuleInstantiation}
    (hi : i ∈ entered) {l : Nat} (hl : HasLabel modules i.moduleName l) :
  l + i.wireNumberOffset ∈ interval modules i
  := by
  obtain ⟨maxWireLabel, hmax, _⟩ := h.below i hi
  have hle := hl.le hmax
  exact ⟨maxWireLabel, hmax, by omega, by omega⟩

theorem Tiled.lt_of_mem (h : Tiled modules entered next) {i : ModuleInstantiation}
    (hi : i ∈ entered) {n : Nat} (hn : n ∈ interval modules i) :
  n < next
  := by
  obtain ⟨maxWireLabel, hmax, hlt⟩ := h.below i hi
  obtain ⟨max', hmax', hn⟩ := hn
  rw [hmax, Outcome.ok.injEq] at hmax'
  omega

/-- Of two entered instances, one has its interval before the other. -/
theorem Tiled.before_or_before (h : Tiled modules entered next) {i j : ModuleInstantiation}
    (hi : i ∈ entered) (hj : j ∈ entered) (hij : i ≠ j) :
  (∀ n ∈ interval modules i, n < j.wireNumberOffset)
    ∨ ∀ n ∈ interval modules j, n < i.wireNumberOffset
  := by
  have hsymm : Std.Symm (fun i j => (∀ n ∈ interval modules i, n < j.wireNumberOffset)
      ∨ ∀ n ∈ interval modules j, n < i.wireNumberOffset) := ⟨fun _ _ => Or.symm⟩
  apply (h.ordered.imp Or.inl).forall hi hj hij

/-- A number is in the interval of one entered instance only. -/
theorem Tiled.eq_of_mem (h : Tiled modules entered next) {i j : ModuleInstantiation}
    (hi : i ∈ entered) (hj : j ∈ entered) {n : Nat} (hni : n ∈ interval modules i)
    (hnj : n ∈ interval modules j) :
  i = j
  := by
  by_contra hij
  obtain ⟨_, _, hlei, _⟩ := id hni
  obtain ⟨_, _, hlej, _⟩ := id hnj
  rcases h.before_or_before hi hj hij with hlt | hlt
  · have := hlt n hni
    omega
  · have := hlt n hnj
    omega

/-! ### Connected terminals -/

theorem Connected.mono {yielded' : Yielded} (hsub : ∀ y ∈ yielded, y ∈ yielded') {t t' : Terminal}
    (h : Connected modules yielded t t') :
  Connected modules yielded' t t'
  := by
  apply Relation.EqvGen.mono _ t t' h
  rintro t t' ⟨hyielded, hcell, hconnections, hconnection, hnode, hports, hport, hbits, hbit,
    hportBit, ht, ht'⟩
  exact ⟨hsub _ hyielded, hcell, hconnections, hconnection, hnode, hports, hport, hbits, hbit,
    hportBit, ht, ht'⟩

theorem Known.mono {entered' : List ModuleInstantiation} {fresh' : Option ModuleInstantiation}
    (hsub : ∀ i, i ∈ entered ∨ fresh = some i → i ∈ entered' ∨ fresh' = some i) {t : Terminal}
    (h : Known modules entered fresh t) :
  Known modules entered' fresh' t
  := by
  cases t with
  | constant b => trivial
  | net i l => exact ⟨hsub i h.1, h.2⟩

/-- The numbers of known terminals are distinct. -/
theorem Known.number_injective (hlabels : LabelsFromTwo modules)
    (htiled : Tiled modules entered next)
    (hfresh : ∀ i, fresh = some i → i.wireNumberOffset = next) {t t' : Terminal}
    (ht : Known modules entered fresh t) (ht' : Known modules entered fresh t')
    (h : t.number = t'.number) :
  t = t'
  := by
  have hnet : ∀ i l b, Known modules entered fresh (.net i l) →
      Terminal.number (.net i l) ≠ Terminal.number (.constant b) := by
    intro i l b hknown heq
    have htwo := hlabels _ l hknown.2
    have hone := constantNumber_le b
    simp only [Terminal.number] at heq
    omega
  cases t with
  | constant b =>
      cases t' with
      | constant b' =>
          have hconstant : ∀ b b', constantNumber b = constantNumber b' → b = b' := by decide
          rw [hconstant b b' h]
      | net i l => apply absurd h.symm (hnet i l b ht')
  | net i l =>
      cases t' with
      | constant b' => apply absurd h (hnet i l b' ht)
      | net i' l' =>
          obtain ⟨hi, hl⟩ := ht
          obtain ⟨hi', hl'⟩ := ht'
          simp only [Terminal.number] at h
          have hii' : i = i' := by
            rcases hi with hi | hi
            · have hmem := htiled.mem_interval hi hl
              rcases hi' with hi' | hi'
              · apply htiled.eq_of_mem hi hi' hmem
                rw [h]
                apply htiled.mem_interval hi' hl'
              · have hlt := htiled.lt_of_mem hi hmem
                have heq := hfresh i' hi'
                omega
            · rcases hi' with hi' | hi'
              · have hlt := htiled.lt_of_mem hi' (htiled.mem_interval hi' hl')
                have heq := hfresh i hi
                omega
              · rw [hi, Option.some.injEq] at hi'
                apply hi'
          subst hii'
          rw [Nat.add_right_cancel h]

/-! ### Translation tables -/

theorem Known.of_none {t : Terminal} (h : Known modules entered none t) :
  Known modules entered fresh t
  := by
  apply h.mono
  rintro i (hi | hi)
  · exact .inl hi
  · cases hi

theorem Stands.mono {entered' : List ModuleInstantiation} (hsub : ∀ i ∈ entered, i ∈ entered')
    {yielded' : Yielded} (hyielded : ∀ y ∈ yielded, y ∈ yielded') {t : Terminal} {w : Nat}
    (h : Stands modules entered yielded t w) :
  Stands modules entered' yielded' t w
  := by
  obtain ⟨t', ht', hw, hconnected⟩ := h
  refine ⟨t', ht'.mono ?_, hw, hconnected.mono hyielded⟩
  rintro i (hi | hi)
  · exact .inl (hsub i hi)
  · cases hi

theorem Linked.mono {entered' : List ModuleInstantiation} {fresh' : Option ModuleInstantiation}
    (hentered : ∀ i ∈ entered, i ∈ entered')
    (hfresh : ∀ i, fresh = some i → i ∈ entered' ∨ fresh' = some i)
    {yielded' : Yielded} (hyielded : ∀ y ∈ yielded, y ∈ yielded') {k v : Nat}
    (h : Linked modules entered yielded fresh k v) :
  Linked modules entered' yielded' fresh' k v
  := by
  obtain ⟨t, ht, hk, hstands⟩ := h
  refine ⟨t, ht.mono ?_, hk, hstands.mono hentered hyielded⟩
  rintro i (hi | hi)
  · exact .inl (hentered i hi)
  · apply hfresh i hi

theorem Known.stands {t : Terminal} (h : Known modules entered none t) :
  Stands modules entered yielded t t.number
  := ⟨t, h, rfl, .refl t⟩

/-- What stands for a terminal stands for every terminal connected with it. -/
theorem Stands.of_connected {t t' : Terminal} {w : Nat} (h : Stands modules entered yielded t' w)
    (hconnected : Connected modules yielded t t') :
  Stands modules entered yielded t w
  := by
  obtain ⟨u, hu, hw, htu⟩ := h
  exact ⟨u, hu, hw, .trans _ _ _ hconnected htu⟩

/-- Numbers that stand for the same terminal are linked. -/
theorem Stands.linked {t : Terminal} {w w' : Nat} (h : Stands modules entered yielded t w)
    (h' : Stands modules entered yielded t w') :
  Linked modules entered yielded fresh w w'
  := by
  obtain ⟨u, hu, hw, htu⟩ := h
  exact ⟨u, hu.of_none, hw, h'.of_connected htu.symm⟩

/-- An entry with linked numbers keeps a table linked. -/
theorem TableLinked.update {table : WireTranslations}
    (h : TableLinked modules entered yielded fresh table) {k v : Nat}
    (hkv : Linked modules entered yielded fresh k v) :
  TableLinked modules entered yielded fresh (Function.update table k (some v))
  := by
  intro k' v' hv'
  by_cases hk : k' = k
  · rw [hk, Function.update_self, Option.some.injEq] at hv'
    rw [hk, ← hv']
    apply hkv
  · rw [Function.update_of_ne hk] at hv'
    apply h k' v' hv'

section Tables

variable (hlabels : LabelsFromTwo modules) (htiled : Tiled modules entered next)
  (hfresh : ∀ i, fresh = some i → i.wireNumberOffset = next)

include hlabels htiled hfresh

/-- An entry for the number of a known terminal stands for the terminal. -/
theorem TableLinked.stands_of_entry {table : WireTranslations}
    (h : TableLinked modules entered yielded fresh table) {t : Terminal}
    (ht : Known modules entered fresh t) {v : Nat} (hv : table t.number = some v) :
  Stands modules entered yielded t v
  := by
  obtain ⟨t', ht', hnumber, hstands⟩ := h _ _ hv
  obtain rfl := ht'.number_injective hlabels htiled hfresh ht hnumber
  apply hstands

/-- The translated number of a net of an entered instance stands for the net. -/
theorem TableLinked.stands {table : WireTranslations}
    (h : TableLinked modules entered yielded fresh table) {i : ModuleInstantiation} {l : Nat}
    (hl : Known modules entered none (.net i l)) :
  Stands modules entered yielded (.net i l) (translatedWireNumber i.wireNumberOffset table l)
  := by
  rw [translatedWireNumber]
  rcases htable : table (l + i.wireNumberOffset) with _ | v
  · apply hl.stands
  · apply h.stands_of_entry hlabels htiled hfresh hl.of_none htable

/-- The translated number of a connection bit of an entered instance stands for its terminal. -/
theorem TableLinked.stands_bit {table : WireTranslations}
    (h : TableLinked modules entered yielded fresh table) {i : ModuleInstantiation}
    (hi : i ∈ entered) {bits : List Json} (hbits : HasBits modules i.moduleName bits) {bit : Json}
    (hbit : bit ∈ bits) {w : Nat}
    (hw : translateConnectionBit bit i.wireNumberOffset table = .ok w) :
  ∃ t, terminal i bit = some t ∧ Stands modules entered yielded t w
  := by
  rcases translateConnectionBit_eq_ok hw with ⟨l, rfl, rfl⟩ | ⟨str, b, rfl, hb, rfl⟩
  · refine ⟨.net i l, rfl, ?_⟩
    apply h.stands hlabels htiled hfresh ⟨.inl hi, bits, hbits, hbit⟩
  · refine ⟨.constant b, by rw [terminal, hb]; rfl, ?_⟩
    apply Known.stands (t := .constant b) trivial

end Tables

/-- Connecting a submodule keeps the tables linked. -/
theorem connect_linked (hlabels : LabelsFromTwo modules) (htiled : Tiled modules entered next)
    {i j : ModuleInstantiation} (hi : i ∈ entered) (hj : j.wireNumberOffset = next)
    {cells cell : List (List UInt8 × Json)} {cellName : List UInt8}
    (hcell : cells.lookup cellName = some (.object cell))
    (hhas : HasCell modules i.moduleName cell j.moduleName)
    (hyielded : (i, (.object cells, cellName), j) ∈ yielded) {table t t' : WireTranslations}
    (htable : TableLinked modules entered yielded (some j) table)
    (h : connect modules i.wireNumberOffset next table cell j.moduleName = .ok (t, t')) :
  TableLinked modules entered yielded (some j) t
    ∧ TableLinked modules entered yielded (some j) t'
  := by
  have hfresh : ∀ i, some j = some i → i.wireNumberOffset = next := by
    rintro i ⟨⟩
    apply hj
  rw [connect] at h
  obtain ⟨nodeJson, hnodeJson, h⟩ := Outcome.bind_eq_ok.mp h
  obtain ⟨node, hnode, h⟩ := Outcome.bind_eq_ok.mp h
  obtain ⟨portsJson, hportsJson, h⟩ := Outcome.bind_eq_ok.mp h
  obtain ⟨ports, hports, h⟩ := Outcome.bind_eq_ok.mp h
  obtain ⟨connectionsJson, hconnectionsJson, h⟩ := Outcome.bind_eq_ok.mp h
  obtain ⟨connections, hconnections, h⟩ := Outcome.bind_eq_ok.mp h
  obtain ⟨⟨inputs, t₁⟩, hinputs, h⟩ := Outcome.bind_eq_ok.mp h
  rw [Json.field_eq_ok] at hnodeJson hportsJson hconnectionsJson
  rw [Json.asObject_eq_ok] at hnode hports hconnections
  rw [hnode] at hnodeJson
  rw [hports] at hportsJson
  rw [hconnections] at hconnectionsJson
  have hport : ∀ {name port portList connectionList},
      (name, .array connectionList) ∈ connections → ports.lookup name = some (.object port) →
      port.lookup (bytes "bits") = some (.array portList) →
      HasBits modules i.moduleName connectionList ∧ HasBits modules j.moduleName portList
      ∧ ∀ (k : Nat) bit portBit t t', connectionList[k]? = some bit → portList[k]? = some portBit →
        terminal i bit = some t → terminal j portBit = some t' →
        Connected modules yielded t t' := by
    intro name port portList connectionList hname hport hbits
    refine ⟨hhas.hasBits hconnectionsJson hname,
      .port hnodeJson hportsJson (Json.mem_of_lookup hport) hbits, ?_⟩
    intro k bit portBit t t' hbit hportBit ht ht'
    exact .rel _ _ (.joint hyielded hcell hconnectionsJson hname hnodeJson hportsJson hport hbits
      hbit hportBit ht ht')
  have hnet : ∀ {portList : List Json} {k l : Nat}, HasBits modules j.moduleName portList →
      portList[k]? = some (.integer l) → Known modules entered (some j) (.net j l) :=
    fun hbits hbit => ⟨.inr rfl, _, hbits, List.mem_of_getElem? hbit⟩
  have hinputs : TableLinked modules entered yielded (some j) t₁ := by
    apply connectPorts_induct
      (P := fun s => TableLinked modules entered yielded (some j) s.2) _ _ hinputs
    · intro name port portList connectionList hname hlookup hbits k bit hbit s s' hs hstep
      obtain ⟨hasBits, hasBits', hconnected⟩ := hport hname hlookup hbits
      obtain ⟨w, l, hw, hportBit, hs'⟩ := connectInputBit_eq_ok hstep
      obtain ⟨u, hu, hstands⟩ := htable.stands_bit hlabels htiled hfresh hi hasBits
        (List.mem_of_getElem? hbit) hw
      rw [hs', ← hj]
      apply hs.update
      refine ⟨.net j l, hnet hasBits' hportBit, rfl, ?_⟩
      apply hstands.of_connected (hconnected k bit _ u (.net j l) hbit hportBit hu rfl).symm
    · intro k v hv
      contradiction
  apply connectPorts_induct (P := fun s => TableLinked modules entered yielded (some j) s.1
    ∧ TableLinked modules entered yielded (some j) s.2) _ ⟨htable, hinputs⟩ h
  rintro name port portList connectionList hname hlookup hbits k bit hbit s s' ⟨hs, hs₂⟩ hstep
  obtain ⟨hasBits, hasBits', hconnected⟩ := hport hname hlookup hbits
  obtain ⟨w, hw, houtput⟩ := connectOutputBit_eq_ok hstep
  obtain ⟨u, hu, hstands⟩ := hs.stands_bit hlabels htiled hfresh hi hasBits
    (List.mem_of_getElem? hbit) hw
  rcases houtput with ⟨l, hportBit, houtput⟩ | ⟨str, b, hportBit, hb, rfl⟩
  · have hl := hnet hasBits' hportBit
    have hul := hconnected k bit _ u (.net j l) hbit hportBit hu rfl
    rw [← hj] at houtput
    rcases houtput with ⟨v, hv, rfl⟩ | rfl
    · refine ⟨hs.update ?_, hs₂⟩
      apply hstands.linked
      apply (hs₂.stands_of_entry hlabels htiled hfresh hl hv).of_connected hul
    · refine ⟨hs, hs₂.update ?_⟩
      exact ⟨.net j l, hl, rfl, hstands.of_connected hul.symm⟩
  · refine ⟨hs.update ?_, hs₂⟩
    have hul := hconnected k bit _ u (.constant b) hbit hportBit hu (by rw [terminal, hb]; rfl)
    apply hstands.linked
    apply (Known.stands (t := .constant b) trivial).of_connected hul

/-! ### The invariant of the loop over the modules -/

/-- What holds of the instances entered so far, the instance cells met so far, the instance about
to be entered, the state and the gates. -/
structure Separate (modules : List (List UInt8 × Json)) (top : ModuleInstantiation)
    (entered : List ModuleInstantiation) (yielded : Yielded) (fresh : Option ModuleInstantiation)
    (s : State) (nodes : List Node) : Prop where
  top : top ∈ entered ∨ fresh = some top
  memo : ∀ m maxWireLabel, s.maxWireNumbers.lookup m = some maxWireLabel →
    findMaxWireLabel modules m = .ok maxWireLabel
  tiled : Tiled modules entered s.nextFreeWireNumber
  offset : ∀ i, fresh = some i → i.wireNumberOffset = s.nextFreeWireNumber
  tables : ∀ p, TableLinked modules entered yielded fresh (s.tables.cell p)
  luts : ∀ w ∈ s.luts, w ≤ 1 ∨ w < s.nextFreeWireNumber
  nodes : ∀ n ∈ nodes, ∀ w ∈ n.wires [], w ≤ 1 ∨ w < s.nextFreeWireNumber

/-- Entering an instance reserves its wire numbers. -/
theorem enter_eq_ok {i : ModuleInstantiation} {s s' : State}
    (hmemo : ∀ m maxWireLabel, s.maxWireNumbers.lookup m = some maxWireLabel →
      findMaxWireLabel modules m = .ok maxWireLabel)
    (h : enter modules i s = .ok s') :
  ∃ maxWireLabel maxWireNumbers, findMaxWireLabel modules i.moduleName = .ok maxWireLabel
    ∧ s' = { s with
        maxWireNumbers := maxWireNumbers
        nextFreeWireNumber := s.nextFreeWireNumber + (maxWireLabel + 1) }
    ∧ ∀ m maxWireLabel, maxWireNumbers.lookup m = some maxWireLabel →
      findMaxWireLabel modules m = .ok maxWireLabel
  := by
  rw [enter] at h
  obtain ⟨s₁, hs₁, h⟩ := Outcome.bind_eq_ok.mp h
  obtain ⟨maxWireLabel, hmax, h⟩ := Outcome.bind_eq_ok.mp h
  have hlookup : s₁.maxWireNumbers.lookup i.moduleName = some maxWireLabel := by
    unfold unwrap at hmax
    split at hmax
    case h_1 heq => rw [heq, Outcome.ok.inj hmax]
    case h_2 => cases hmax
  obtain ⟨wires, hwires, h⟩ := Outcome.bind_eq_ok.mp h
  obtain ⟨next, hnext, h⟩ := Outcome.bind_eq_ok.mp h
  obtain ⟨-, rfl⟩ := add_eq_ok.mp hwires
  obtain ⟨-, rfl⟩ := add_eq_ok.mp hnext
  unfold memoize at hs₁
  split at hs₁
  case h_1 =>
    obtain rfl := Outcome.ok.inj hs₁
    exact ⟨maxWireLabel, s.maxWireNumbers, hmemo _ _ hlookup, (Outcome.ok.inj h).symm, hmemo⟩
  case h_2 hnone =>
    obtain ⟨max', hmax', hs₁⟩ := Outcome.bind_eq_ok.mp hs₁
    obtain rfl := Outcome.ok.inj hs₁
    rw [List.lookup_cons_self, Option.some.injEq] at hlookup
    refine ⟨maxWireLabel, (i.moduleName, max') :: s.maxWireNumbers, hlookup ▸ hmax',
      (Outcome.ok.inj h).symm, ?_⟩
    intro m maxWireLabel' hm
    rw [List.lookup_cons] at hm
    split at hm
    case h_1 heq =>
      rw [eq_of_beq heq, ← Option.some.inj hm]
      apply hmax'
    case h_2 => apply hmemo m maxWireLabel' hm

/-- A number that stands for a terminal is that of a constant or reserved. -/
theorem Stands.below (htiled : Tiled modules entered next) {t : Terminal} {w : Nat}
    (h : Stands modules entered yielded t w) :
  w ≤ 1 ∨ w < next
  := by
  obtain ⟨t', ht', rfl, _⟩ := h
  cases t' with
  | constant b => exact .inl (constantNumber_le b)
  | net i l =>
      have hi : i ∈ entered := by
        rcases ht'.1 with hi | hi
        · apply hi
        · cases hi
      exact .inr (htiled.lt_of_mem hi (htiled.mem_interval hi ht'.2))

/-- A cell of an instance that is built to a gate.  What holds of the constants, of the wires of the
nets of the instance and of all wires so far, holds of all wires afterwards. -/
theorem visit_node {torder : List (List UInt8 × List (List UInt8))} {i : ModuleInstantiation}
    {cs : List (Json × List UInt8)} (hcs : cellOrder modules torder i = .ok cs)
    {c : Json × List UInt8} (hc : c ∈ cs) {s s' : State} {n : Node}
    (h : buildCell modules i c s = .ok (s', .inl n)) {P : Nat → Prop} (hconstant : ∀ w ≤ 1, P w)
    (hnet : ∀ l, HasLabel modules i.moduleName l → P (wireNumber s i l))
    (hluts : ∀ w ∈ s.luts, P w) {nodes : List Node} (hnodes : ∀ n ∈ nodes, ∀ w ∈ n.wires [], P w) :
  ∃ luts lutTables, s' = { s with luts := luts, lutTables := lutTables } ∧ (∀ w ∈ luts, P w)
    ∧ ∀ m ∈ nodes ++ [n], ∀ w ∈ m.wires [], P w
  := by
  obtain ⟨cells, cell, cellType, hcells, hcell, htype, hbuilt⟩ := buildCell_eq_ok h
  have hhas := hasCell_of_mem hcs hc hcells hcell htype
  rcases hbuilt with ⟨g, n', _, hn', hgate⟩ | ⟨j, _, _, hj, _⟩
  · cases hn'
    obtain ⟨connections, hconnections, hgated⟩ := buildGate_eq_ok hgate
    obtain ⟨inputs, lutTables, rfl, hinputs⟩ := hgated.state
    have hwire : ∀ w, IsWire connections i.wireNumberOffset (s.tables.cell i.connections) w →
        P w := by
      rintro w ⟨pin, bits, l, hpin, hl, rfl⟩
      apply hnet l
      exact ⟨bits, hhas.hasBits hconnections hpin, hl⟩
    refine ⟨s.luts ++ inputs, lutTables, rfl, ?_, ?_⟩
    · intro w hw
      rcases List.mem_append.mp hw with hw | hw
      · apply hluts w hw
      · rcases hinputs w hw with hw | hw
        · apply hconstant w hw
        · apply hwire w hw
    · intro m hm w hw
      rcases List.mem_append.mp hm with hm | hm
      · apply hnodes m hm w hw
      · rw [List.mem_singleton] at hm
        apply hwire w (hgated.wires w (hm ▸ hw))
  · cases hj

/-- Every action of the loop over the modules keeps the instances separate. -/
theorem separate_invariant (hlabels : LabelsFromTwo modules) (top : ModuleInstantiation)
    (torder : List (List UInt8 × List (List UInt8))) :
  (hierarchy modules torder).Invariant (Separate modules top)
  := by
  constructor
  · intro entered yielded i s nodes cs s' h _ henter
    obtain ⟨maxWireLabel, maxWireNumbers, hmax, rfl, hmemo⟩ := enter_eq_ok h.memo henter
    have hfresh : ∀ j, some i = some j → j ∈ entered ++ [i] ∨ none = some j := by
      rintro j ⟨⟩
      exact .inl (List.mem_append_right _ (List.mem_singleton_self i))
    constructor
    · rcases h.top with htop | htop
      · exact .inl (List.mem_append_left _ htop)
      · apply hfresh top htop
    · apply hmemo
    · apply h.tiled.append (h.offset i rfl) hmax
    · intro j hj
      cases hj
    · intro p k v hv
      apply (h.tables p k v hv).mono (fun _ hj => List.mem_append_left _ hj) hfresh
        (fun _ hy => hy)
    · intro w hw
      have hlt := h.luts w hw
      simp only
      omega
    · intro n hn w hw
      have hlt := h.nodes n hn w hw
      simp only
      omega
  · intro entered yielded i s nodes cs c s' n h hi hcs hc hvisit
    have hnet : ∀ l, HasLabel modules i.moduleName l →
        wireNumber s i l ≤ 1 ∨ wireNumber s i l < s.nextFreeWireNumber := by
      intro l hl
      have hknown : Known modules entered none (.net i l) := ⟨.inl hi, hl⟩
      apply ((h.tables i.connections).stands hlabels h.tiled (by simp) hknown).below h.tiled
    obtain ⟨luts, lutTables, rfl, hluts, hnodes⟩ := visit_node hcs hc hvisit
      (P := fun w => w ≤ 1 ∨ w < s.nextFreeWireNumber) (fun w hw => .inl hw) hnet h.luts h.nodes
    exact ⟨h.top, h.memo, h.tiled, h.offset, h.tables, hluts, hnodes⟩
  · intro entered yielded i s nodes cs c s' j h hi hcs hc hvisit
    obtain ⟨cells, cell, cellType, t, t', hcells, hcell, hhas, _, hconnect, rfl, rfl⟩ :=
      visit_instance hcs hc hvisit
    have hc' : c = (.object cells, c.2) := by rw [← hcells]
    have htables : ∀ p, TableLinked modules entered
        (yielded ++ [(i, c, ⟨cellType, s.nextFreeWireNumber, s.tables.len⟩)])
        (some ⟨cellType, s.nextFreeWireNumber, s.tables.len⟩) (s.tables.cell p) :=
      fun p k v hv => (h.tables p k v hv).mono (fun _ hk => hk) (by simp)
        (fun _ hy => List.mem_append_left _ hy)
    obtain ⟨ht, ht'⟩ := connect_linked hlabels h.tiled hi rfl hcell hhas
      (List.mem_append_right _ (by rw [← hc']; apply List.mem_singleton_self))
      (htables i.connections) hconnect
    refine ⟨?_, h.memo, h.tiled, ?_, ?_, h.luts, h.nodes⟩
    · rcases h.top with htop | htop
      · exact .inl htop
      · cases htop
    · rintro k ⟨⟩
      rfl
    · apply Buffer.forall_cell_push _ ht'
      apply Buffer.forall_cell_set htables _ ht

/-- The invariant holds before the first module. -/
theorem separate_initial (topModuleName : List UInt8) :
  Separate modules (topModuleInstantiation topModuleName) [] []
    (some (topModuleInstantiation topModuleName)) initialState constantGates
  := by
  constructor
  · exact .inr rfl
  · intro m maxWireLabel h
    cases h
  · exact ⟨by simp, List.Pairwise.nil, fun n hn => absurd hn (Nat.not_lt_zero n)⟩
  · rintro i ⟨⟩
    rfl
  · intro p k v hv
    cases hv
  · simp [initialState]
  · simp [constantGates, Node.wires, Node.reads, Node.output, constantZeroWireNumber,
      constantOneWireNumber]

/-! ### Instances are apart -/

/-- The entered instances have disjoint intervals of wire numbers below the next free one.  Nets of
two instances have the same wire number only if a translation table sends one of them there and
they are connected, a net has the wire number of a constant only if it is connected with it, and
all other wire numbers of nets are below the next free one. -/
structure Apart (modules : List (List UInt8 × Json)) (entered : List ModuleInstantiation)
    (yielded : Yielded) (s : State) : Prop where
  below : ∀ i ∈ entered, ∃ maxWireLabel, findMaxWireLabel modules i.moduleName = .ok maxWireLabel
    ∧ i.wireNumberOffset + maxWireLabel < s.nextFreeWireNumber
  disjoint : entered.Pairwise (fun i j => Disjoint (interval modules i) (interval modules j))
  translated : ∀ i ∈ entered, ∀ j ∈ entered, i ≠ j → ∀ l l', HasLabel modules i.moduleName l →
    HasLabel modules j.moduleName l' → wireNumber s i l = wireNumber s j l' →
    s.tables.cell i.connections (l + i.wireNumberOffset) ≠ none
      ∨ s.tables.cell j.connections (l' + j.wireNumberOffset) ≠ none
  connected : ∀ i ∈ entered, ∀ j ∈ entered, ∀ l l', HasLabel modules i.moduleName l →
    HasLabel modules j.moduleName l' → wireNumber s i l = wireNumber s j l' →
    Connected modules yielded (.net i l) (.net j l')
  constant : ∀ i ∈ entered, ∀ l, HasLabel modules i.moduleName l → ∀ b,
    wireNumber s i l = constantNumber b → Connected modules yielded (.net i l) (.constant b)
  reserved : ∀ i ∈ entered, ∀ l, HasLabel modules i.moduleName l →
    wireNumber s i l ≤ 1 ∨ wireNumber s i l < s.nextFreeWireNumber

/-- Terminals that stand under one number are connected. -/
theorem Stands.connected (hlabels : LabelsFromTwo modules) (htiled : Tiled modules entered next)
    {t t' : Terminal} {w : Nat} (h : Stands modules entered yielded t w)
    (h' : Stands modules entered yielded t' w) :
  Connected modules yielded t t'
  := by
  obtain ⟨u, hu, hw, htu⟩ := h
  obtain ⟨u', hu', hw', htu'⟩ := h'
  obtain rfl := hu.number_injective hlabels htiled (by simp) hu' (hw.trans hw'.symm)
  exact .trans _ _ _ htu htu'.symm

/-- The invariant keeps instances apart. -/
theorem Separate.apart (hlabels : LabelsFromTwo modules) {top : ModuleInstantiation} {s : State}
    {nodes : List Node} (h : Separate modules top entered yielded fresh s nodes) :
  Apart modules entered yielded s
  := by
  have hstands : ∀ i ∈ entered, ∀ l, HasLabel modules i.moduleName l →
      Stands modules entered yielded (.net i l) (wireNumber s i l) := by
    intro i hi l hl
    apply (h.tables i.connections).stands hlabels h.tiled h.offset ⟨.inl hi, hl⟩
  constructor
  · apply h.tiled.below
  · apply h.tiled.ordered.imp
    intro i j hlt
    rw [Set.disjoint_left]
    rintro n hn ⟨_, _, hle, _⟩
    have := hlt n hn
    omega
  · intro i hi j hj hij l l' hl hl' heq
    by_contra hnone
    simp only [ne_eq, not_or, not_not] at hnone
    simp only [wireNumber, translatedWireNumber, hnone.1, hnone.2, Option.getD_none] at heq
    apply hij
    apply h.tiled.eq_of_mem hi hj (h.tiled.mem_interval hi hl)
    rw [heq]
    apply h.tiled.mem_interval hj hl'
  · intro i hi j hj l l' hl hl' heq
    apply (hstands i hi l hl).connected hlabels h.tiled
    rw [heq]
    apply hstands j hj l' hl'
  · intro i hi l hl b heq
    apply (hstands i hi l hl).connected hlabels h.tiled
    rw [heq]
    apply Known.stands (t := .constant b) trivial
  · intro i hi l hl
    apply (hstands i hi l hl).below h.tiled

/-- The input wires are nets of the top module. -/
theorem buildInputs_eq_ok {m : List UInt8} {inputs : List Nat}
    (h : buildInputs modules m = .ok inputs) :
  ∀ w ∈ inputs, HasLabel modules m w
  := by
  intro w hw
  obtain ⟨_, bits, bit, hbits, hbit, hwire⟩ := collectPorts_eq_ok h w hw
  split at hwire
  case h_1 val =>
    rw [intCast_eq_ok] at hwire
    exact ⟨bits, hbits, hwire ▸ hbit⟩
  case h_2 => cases hwire

/-- The output wires are wires of nets of the top module or constants. -/
theorem buildOutputs_eq_ok {m : List UInt8} {offset : Nat} {table : WireTranslations}
    {outputs : List Nat} (h : buildOutputs modules m offset table = .ok outputs) :
  ∀ w ∈ outputs, w ≤ 1 ∨ ∃ l, HasLabel modules m l ∧ w = translatedWireNumber offset table l
  := by
  intro w hw
  obtain ⟨_, bits, bit, hbits, hbit, hwire⟩ := collectPorts_eq_ok h w hw
  split at hwire
  case h_1 val =>
    obtain ⟨l, hl, hwire⟩ := Outcome.bind_eq_ok.mp hwire
    rw [intCast_eq_ok] at hl
    exact .inr ⟨l, ⟨bits, hbits, hl ▸ hbit⟩, translateWireNumber_eq_ok hwire⟩
  case h_2 str => exact .inl (constantWire_eq_ok hwire)
  case h_3 => cases hwire

/-- The wires of a gate are wires it mentions itself or inputs of lookup tables. -/
theorem mem_wires {n : Node} {luts : List Nat} {w : Nat} (h : w ∈ n.wires luts) :
  w ∈ n.wires [] ∨ w ∈ luts
  := by
  cases n with
  | lut offset tableOffset arity output =>
      rcases List.mem_append.mp h with h | h
      · exact .inr (List.mem_of_mem_drop (List.mem_of_mem_take h))
      · exact .inl (List.mem_append_right _ h)
  | zero _ => exact .inl h
  | one _ => exact .inl h
  | inv _ _ => exact .inl h
  | and _ _ _ => exact .inl h
  | and3 _ _ _ _ => exact .inl h
  | and4 _ _ _ _ _ => exact .inl h
  | xor _ _ _ => exact .inl h

/-- A circuit that is built comes from the end of the loop over the modules. -/
theorem exists_loop_of_buildTopModule {torder : List (List UInt8 × List (List UInt8))}
    {fuel : Nat} {topModuleName : List UInt8} {c : Circuit}
    (h : buildTopModule modules torder fuel topModuleName = some (.ok c)) :
  ∃ p, (hierarchy modules torder).loop fuel (initialProgress topModuleName) = some (.ok p)
    ∧ buildInputs modules topModuleName = .ok c.inputs
    ∧ buildOutputs modules topModuleName 0 (p.state.tables.cell 0) = .ok c.outputs
    ∧ c.nodes = p.nodes ∧ c.luts = p.state.luts
    ∧ 1 ≤ p.state.nextFreeWireNumber ∧ c.maxWireNumber = p.state.nextFreeWireNumber - 1
  := by
  rw [buildTopModule] at h
  rcases hinputs : buildInputs modules topModuleName with inputs | e | t
  · rw [hinputs, Hierarchy.after_ok, Option.map_eq_some_iff] at h
    obtain ⟨built, hloop, hbuilt⟩ := h
    obtain ⟨p, rfl, hfinish⟩ := Outcome.bind_eq_ok.mp hbuilt
    obtain ⟨outputs, houtputs, hfinish⟩ := Outcome.bind_eq_ok.mp hfinish
    obtain ⟨maxWireNumber, hmax, hfinish⟩ := Outcome.bind_eq_ok.mp hfinish
    obtain rfl := Outcome.ok.inj hfinish
    refine ⟨p, hloop, rfl, houtputs, rfl, rfl, ?_⟩
    rw [sub] at hmax
    split at hmax
    case isTrue hle => exact ⟨hle, (Outcome.ok.inj hmax).symm⟩
    case isFalse => cases hmax
  · rw [hinputs, Hierarchy.after_error] at h
    cases h
  · rw [hinputs, Hierarchy.after_panic] at h
    cases h

/-- The loop over the modules has reached its end when a circuit is built. -/
theorem buildTopModule_eq_ok {torder : List (List UInt8 × List (List UInt8))} {fuel : Nat}
    {topModuleName : List UInt8} {c : Circuit}
    (h : buildTopModule modules torder fuel topModuleName = some (.ok c)) :
  ∃ entered yielded p, (hierarchy modules torder).Reaches (initialProgress topModuleName)
      entered yielded p ∧ p.stack = []
    ∧ buildInputs modules topModuleName = .ok c.inputs
    ∧ buildOutputs modules topModuleName 0 (p.state.tables.cell 0) = .ok c.outputs
    ∧ c.nodes = p.nodes ∧ c.luts = p.state.luts
    ∧ 1 ≤ p.state.nextFreeWireNumber ∧ c.maxWireNumber = p.state.nextFreeWireNumber - 1
  := by
  obtain ⟨p, hloop, hbuilt⟩ := exists_loop_of_buildTopModule h
  obtain ⟨entered, yielded, hreaches, hstack⟩ := Hierarchy.Reaches.of_loop .start hloop
  exact ⟨entered, yielded, p, hreaches, hstack, hbuilt⟩

/-- When the loop over the modules has ended, every wire of the circuit other than the constants is
in the interval of exactly one instance. -/
theorem Separate.existsUnique {topModuleName : List UInt8} {s : State} {nodes : List Node}
    (hlabels : LabelsFromTwo modules)
    (h : Separate modules (topModuleInstantiation topModuleName) entered yielded none s nodes)
    {c : Circuit} (hinputs : buildInputs modules topModuleName = .ok c.inputs)
    (houtputs : buildOutputs modules topModuleName 0 (s.tables.cell 0) = .ok c.outputs)
    (hnodes : c.nodes = nodes) (hluts : c.luts = s.luts) {w : Nat}
    (hw : w ∈ c.mentioned ++ c.luts) (hw0 : w ≠ 0) (hw1 : w ≠ 1) :
  w < s.nextFreeWireNumber ∧ ∃! i, i ∈ entered ∧ w ∈ interval modules i
  := by
  have htop : topModuleInstantiation topModuleName ∈ entered := by
    rcases h.top with htop | htop
    · apply htop
    · cases htop
  have hbelow : w ≤ 1 ∨ w < s.nextFreeWireNumber := by
    simp only [Circuit.mentioned, List.mem_append, List.mem_flatMap] at hw
    rcases hw with ((hw | hw) | ⟨n, hn, hw⟩) | hw
    · have hl := buildInputs_eq_ok hinputs w hw
      exact .inr (h.tiled.lt_of_mem htop (h.tiled.mem_interval htop hl))
    · rcases buildOutputs_eq_ok houtputs w hw with hw | ⟨l, hl, rfl⟩
      · exact .inl hw
      · apply (h.apart hlabels).reserved _ htop l hl
    · rcases mem_wires hw with hw | hw
      · apply h.nodes n (hnodes ▸ hn) w hw
      · apply h.luts w (hluts ▸ hw)
    · apply h.luts w (hluts ▸ hw)
  have hlt : w < s.nextFreeWireNumber := by omega
  obtain ⟨i, hi, hmem⟩ := h.tiled.cover w hlt
  refine ⟨hlt, i, ⟨hi, hmem⟩, ?_⟩
  rintro j ⟨hj, hmemj⟩
  apply h.tiled.eq_of_mem hj hi hmemj hmem

/-! ### Checking the labels of a netlist -/

/-- The lists of bits of the ports and of the connections of the module `m`. -/
def bitLists (modules : List (List UInt8 × Json)) (m : List UInt8) : List (List Json) :=
  match modules.lookup m with
  | some (.object node) =>
      let ports := ((node.lookup (bytes "ports")).bind Json.object?).getD []
      let cells := ((node.lookup (bytes "cells")).bind Json.object?).getD []
      ports.filterMap (fun entry =>
          (entry.2.object?.bind (·.lookup (bytes "bits"))).bind Json.array?)
        ++ cells.flatMap (fun entry =>
          (((entry.2.object?.bind (·.lookup (bytes "connections"))).bind Json.object?).getD
            []).filterMap (fun connection => connection.2.array?))
  | _ => []

theorem HasBits.mem_bitLists {m : List UInt8} {bits : List Json} (h : HasBits modules m bits) :
  bits ∈ bitLists modules m
  := by
  cases h with
  | @port node ports port name hnode hports hport hbits =>
      simp only [bitLists, hnode, hports, Option.bind_some, Json.object?, Option.getD_some]
      apply List.mem_append_left
      apply List.mem_filterMap.mpr
      refine ⟨(name, .object port), hport, ?_⟩
      simp only [Option.bind_some, hbits, Json.array?]
  | @connection node cells cell connections name pin hnode hcells hcell hconnections hpin =>
      simp only [bitLists, hnode, hcells, Option.bind_some, Json.object?, Option.getD_some]
      apply List.mem_append_right
      apply List.mem_flatMap.mpr
      refine ⟨(name, .object cell), hcell, List.mem_filterMap.mpr ⟨(pin, .array bits), ?_, rfl⟩⟩
      simp only [Option.bind_some, hconnections]
      apply hpin

/-- The bit is no label below 2. -/
def isFromTwo : Json → Bool
  | .integer int => 2 ≤ int
  | _ => true

/-- The labels of a netlist are at least 2 if those in its lists of bits are. -/
theorem labelsFromTwo_of_bitLists
    (h : ∀ entry ∈ modules, ∀ bits ∈ bitLists modules entry.1, ∀ bit ∈ bits, isFromTwo bit) :
  LabelsFromTwo modules
  := by
  rintro m l ⟨bits, hbits, hl⟩
  have hmem : ∃ json, (m, json) ∈ modules := by
    cases hbits with
    | port hnode _ _ _ => exact ⟨_, Json.mem_of_lookup hnode⟩
    | connection hnode _ _ _ _ => exact ⟨_, Json.mem_of_lookup hnode⟩
  obtain ⟨json, hjson⟩ := hmem
  have htwo := h _ hjson bits hbits.mem_bitLists _ hl
  simp only [isFromTwo, decide_eq_true_eq] at htwo
  omega

theorem labelsFromTwo_adderModules :
  LabelsFromTwo adderModules
  := by
  apply labelsFromTwo_of_bitLists
  decide +kernel

end Builder

open Builder in
/-- If all labels of a netlist are at least 2, then the instances entered so far are apart whenever
the loop over the modules looks at its stack, and in a circuit that is built every wire number other
than those of the constants is in the interval of exactly one instance and at most the largest wire
number. -/
theorem Builder.instances_apart (b : Builder) {modules : List (List UInt8 × Json)}
    (hmodules : b.modules = .ok modules) (hlabels : LabelsFromTwo modules) :
  (∀ entered yielded p, (hierarchy modules b.torder).Reaches (initialProgress b.topModule)
      entered yielded p → Apart modules entered yielded p.state)
    ∧ ∀ fuel c, b.build fuel = some (.ok c) → ∃ entered yielded p,
      (hierarchy modules b.torder).Reaches (initialProgress b.topModule) entered yielded p
      ∧ p.stack = [] ∧ c.nodes = p.nodes ∧ c.maxWireNumber + 1 = p.state.nextFreeWireNumber
      ∧ ∀ w ∈ c.mentioned ++ c.luts, w ≠ 0 → w ≠ 1 → w ≤ c.maxWireNumber
        ∧ ∃! i, i ∈ entered ∧ w ∈ interval modules i
  := by
  have hseparate : ∀ entered yielded p, (hierarchy modules b.torder).Reaches
      (initialProgress b.topModule) entered yielded p →
      Separate modules (topModuleInstantiation b.topModule) entered yielded
        (Hierarchy.fresh p.stack) p.state p.nodes := by
    intro entered yielded p hp
    apply (Hierarchy.Reaches.induct (separate_invariant hlabels _ b.torder)
      (separate_initial b.topModule) hp).1
  constructor
  · intro entered yielded p hp
    apply (hseparate entered yielded p hp).apart hlabels
  · intro fuel c hbuild
    rw [build, hmodules, Hierarchy.after_ok] at hbuild
    obtain ⟨entered, yielded, p, hp, hstack, hinputs, houtputs, hnodes, hluts, hone, hmax⟩ :=
      buildTopModule_eq_ok hbuild
    have h := hseparate entered yielded p hp
    rw [hstack] at h
    refine ⟨entered, yielded, p, hp, hstack, hnodes, by omega, ?_⟩
    intro w hw hw0 hw1
    obtain ⟨hlt, hunique⟩ := h.existsUnique hlabels hinputs houtputs hnodes hluts hw hw0 hw1
    exact ⟨by omega, hunique⟩

open Builder in
/-- The instances of the full adder are apart, and every wire number but those of the constants is
in the interval of exactly one of them. -/
theorem Builder.instances_apart_adder :
  (∀ entered yielded p, (hierarchy adderModules adder.torder).Reaches
      (initialProgress adder.topModule) entered yielded p →
      Apart adderModules entered yielded p.state)
    ∧ ∀ fuel c, adder.build fuel = some (.ok c) → ∃ entered yielded p,
      (hierarchy adderModules adder.torder).Reaches (initialProgress adder.topModule) entered
        yielded p
      ∧ p.stack = [] ∧ c.nodes = p.nodes ∧ c.maxWireNumber + 1 = p.state.nextFreeWireNumber
      ∧ ∀ w ∈ c.mentioned ++ c.luts, w ≠ 0 → w ≠ 1 → w ≤ c.maxWireNumber
        ∧ ∃! i, i ∈ entered ∧ w ∈ interval adderModules i
  := by
  apply Builder.instances_apart adder rfl labelsFromTwo_adderModules

end SynCirc
