import SynCirc.Builder.Cells
import SynCirc.Netlist

/-!
# Connecting a submodule

The translation tables after connecting a submodule, computed from the connections of a `Netlist`.
The two tables are determined by what `Connects` says about them: the table of the submodule sends
its input nets to the wires of the connected bits and its output nets to the wires of connected
nets, and in the instantiating module the wire of a connected net is that of the port bit it is
connected to.
-/

namespace SynCirc

namespace Builder

open Netlist

/-- The wire of a bit. -/
def bitNumber (offset : Nat) (table : WireTranslations) : Bit → Nat
  | .constant b => constantNumber b
  | .net l => translatedWireNumber offset table l

/-- The sums of the labels and the offset fit in 64 bits. -/
def LabelsFit (offset : Nat) (labels : List Nat) : Prop := ∀ l ∈ labels, l + offset < 2 ^ 64

theorem LabelsFit.of_subset {offset : Nat} {labels labels' : List Nat}
    (h : LabelsFit offset labels) (hsubset : labels' ⊆ labels) :
  LabelsFit offset labels'
  := fun l hl => h l (hsubset hl)

/-- A net among bits whose nets fit. -/
theorem LabelsFit.bit {offset : Nat} {bits : List Bit} (h : LabelsFit offset (nets bits))
    {bit : Bit} (hbit : bit ∈ bits) :
  LabelsFit offset (nets [bit])
  := by
  intro l hl
  apply h l
  rw [mem_nets, List.mem_singleton] at hl
  rw [mem_nets, hl]
  apply hbit

/-- The translation table of a submodule after its inputs are connected. -/
def connectInputs (offset offset' : Nat) (table : WireTranslations) (inputs : List (Bit × Nat)) :
    WireTranslations :=
  inputs.foldl (fun inner p =>
    Function.update inner (p.2 + offset') (some (bitNumber offset table p.1))) (fun _ => none)

/-- The translation tables after a further output is connected. -/
def connectOutput (offset offset' : Nat) (s : WireTranslations × WireTranslations)
    (p : Nat × Bit) : WireTranslations × WireTranslations :=
  match p.2 with
  | .constant b =>
      (Function.update s.1 (translatedWireNumber offset s.1 p.1) (some (constantNumber b)), s.2)
  | .net l =>
      match s.2 (l + offset') with
      | some x => (Function.update s.1 (translatedWireNumber offset s.1 p.1) (some x), s.2)
      | none =>
          (s.1, Function.update s.2 (l + offset') (some (translatedWireNumber offset s.1 p.1)))

/-- The translation tables of the instantiating module and of the submodule after the outputs are
connected. -/
def connectOutputs (offset offset' : Nat) (s : WireTranslations × WireTranslations)
    (outputs : List (Nat × Bit)) : WireTranslations × WireTranslations :=
  outputs.foldl (connectOutput offset offset') s

/-! ### Inputs -/

section Inputs

variable {offset offset' : Nat} {table : WireTranslations}

theorem connectInputs_append (inputs : List (Bit × Nat)) (p : Bit × Nat) :
  connectInputs offset offset' table (inputs ++ [p])
    = Function.update (connectInputs offset offset' table inputs) (p.2 + offset')
        (some (bitNumber offset table p.1))
  := by
  rw [connectInputs, List.foldl_append]
  rfl

/-- A net that is not an input of the submodule has no entry. -/
theorem connectInputs_of_notMem {inputs : List (Bit × Nat)} {l : Nat}
    (h : l ∉ inputs.map Prod.snd) :
  connectInputs offset offset' table inputs (l + offset') = none
  := by
  induction inputs using List.reverseRecOn with
  | nil => rfl
  | append_singleton inputs p ih =>
      rw [List.map_append, List.mem_append, not_or, List.map_singleton, List.mem_singleton] at h
      rw [connectInputs_append, Function.update_of_ne (by omega), ih h.1]

/-- An input net of the submodule is sent to the wire of the connected bit. -/
theorem connectInputs_of_mem {inputs : List (Bit × Nat)} (hnodup : (inputs.map Prod.snd).Nodup)
    {p : Bit × Nat} (h : p ∈ inputs) :
  connectInputs offset offset' table inputs (p.2 + offset') = some (bitNumber offset table p.1)
  := by
  induction inputs using List.reverseRecOn with
  | nil => cases h
  | append_singleton inputs q ih =>
      rw [List.map_append, List.map_singleton, List.nodup_append] at hnodup
      rw [connectInputs_append]
      rcases List.mem_append.mp h with h | h
      · have hne : p.2 ≠ q.2 :=
          hnodup.2.2 p.2 (List.mem_map_of_mem h) q.2 (List.mem_singleton_self _)
        rw [Function.update_of_ne (by omega), ih hnodup.1 h]
      · rw [List.mem_singleton.mp h, Function.update_self]

end Inputs

/-! ### Outputs -/

/-- What the translation tables `outer` of the instantiating module and `inner` of the submodule
are after connecting `inputs` and `outputs`, when that of the instantiating module was `table`. -/
structure Connects (offset offset' : Nat) (table : WireTranslations) (inputs : List (Bit × Nat))
    (outputs : List (Nat × Bit)) (outer inner : WireTranslations) : Prop where
  input : ∀ p ∈ inputs, inner (p.2 + offset') = some (bitNumber offset table p.1)
  entry : ∀ l x, inner (l + offset') = some x →
    (∃ p ∈ inputs, p.2 = l ∧ x = bitNumber offset table p.1)
      ∨ l ∉ inputs.map Prod.snd
        ∧ ∃ w, (w, .net l) ∈ outputs ∧ x = translatedWireNumber offset table w
  net : ∀ w l, (w, .net l) ∈ outputs →
    inner (l + offset') = some (translatedWireNumber offset outer w)
  constant : ∀ w b, (w, .constant b) ∈ outputs →
    translatedWireNumber offset outer w = constantNumber b
      ∨ b = false ∧ translatedWireNumber offset outer w = translatedWireNumber offset table w
  other : ∀ l, l ∉ outputs.map Prod.fst → outer (l + offset) = table (l + offset)
  kept : ∀ l x, table (l + offset) = some x → outer (l + offset) = some x

section Outputs

variable {offset offset' : Nat} {table outer inner : WireTranslations} {inputs : List (Bit × Nat)}
  {outputs : List (Nat × Bit)}

/-- The tables before any output is connected. -/
theorem connects_nil (hnodup : (inputs.map Prod.snd).Nodup) :
  Connects offset offset' table inputs [] table (connectInputs offset offset' table inputs)
  := by
  constructor
  · intro p hp
    apply connectInputs_of_mem hnodup hp
  · intro l x hx
    by_cases hl : l ∈ inputs.map Prod.snd
    · obtain ⟨p, hp, rfl⟩ := List.mem_map.mp hl
      rw [connectInputs_of_mem hnodup hp, Option.some.injEq] at hx
      exact .inl ⟨p, hp, rfl, hx.symm⟩
    · rw [connectInputs_of_notMem hl] at hx
      cases hx
  · intro w l h
    cases h
  · intro w b h
    cases h
  · intro l _
    rfl
  · intro l x hx
    apply hx

/-- A table that is only changed at the number of one net. -/
theorem translatedWireNumber_update_of_ne {k x w : Nat} (h : w + offset ≠ k) :
  translatedWireNumber offset (Function.update outer k (some x)) w
    = translatedWireNumber offset outer w
  := by
  rw [translatedWireNumber, translatedWireNumber, Function.update_of_ne h]

theorem translatedWireNumber_of_none {w : Nat} (h : outer (w + offset) = none) :
  translatedWireNumber offset outer w = w + offset
  := by
  rw [translatedWireNumber, h]
  rfl

theorem translatedWireNumber_of_some {w x : Nat} (h : outer (w + offset) = some x) :
  translatedWireNumber offset outer w = x
  := by
  rw [translatedWireNumber, h]
  rfl

theorem translatedWireNumber_congr {outer' : WireTranslations} {w : Nat}
    (h : outer (w + offset) = outer' (w + offset)) :
  translatedWireNumber offset outer w = translatedWireNumber offset outer' w
  := by
  rw [translatedWireNumber, translatedWireNumber, h]

/-- Sending a net that has not been connected, and has no entry, to another wire. -/
theorem Connects.alias (h : Connects offset offset' table inputs outputs outer inner) {w : Nat}
    (hw : w ∉ outputs.map Prod.fst) (hnone : table (w + offset) = none) {bit : Bit} {x : Nat}
    (hbit : ∀ l, bit = .net l → inner (l + offset') = some x)
    (hconstant : ∀ b, bit = .constant b → x = constantNumber b) :
  Connects offset offset' table inputs (outputs ++ [(w, bit)])
    (Function.update outer (w + offset) (some x)) inner
  := by
  have hkeep : ∀ w' ∈ outputs.map Prod.fst,
      translatedWireNumber offset (Function.update outer (w + offset) (some x)) w'
        = translatedWireNumber offset outer w' := by
    intro w' hw'
    apply translatedWireNumber_update_of_ne
    have hne : w' ≠ w := fun heq => hw (heq ▸ hw')
    omega
  have hself : translatedWireNumber offset (Function.update outer (w + offset) (some x)) w = x :=
    translatedWireNumber_of_some (Function.update_self ..)
  constructor
  · apply h.input
  · intro l y hy
    rcases h.entry l y hy with hp | ⟨hl, w', hw', hy⟩
    · exact .inl hp
    · exact .inr ⟨hl, w', List.mem_append_left _ hw', hy⟩
  · intro w' l hmem
    rcases List.mem_append.mp hmem with hmem | hmem
    · rw [hkeep w' (List.mem_map_of_mem hmem)]
      apply h.net w' l hmem
    · obtain ⟨rfl, rfl⟩ := Prod.mk.inj (List.mem_singleton.mp hmem)
      rw [hself]
      apply hbit l rfl
  · intro w' b hmem
    rcases List.mem_append.mp hmem with hmem | hmem
    · rw [hkeep w' (List.mem_map_of_mem hmem)]
      apply h.constant w' b hmem
    · obtain ⟨rfl, rfl⟩ := Prod.mk.inj (List.mem_singleton.mp hmem)
      rw [hself]
      exact .inl (hconstant b rfl)
  · intro l hl
    rw [List.map_append, List.mem_append, not_or, List.map_singleton, List.mem_singleton] at hl
    rw [Function.update_of_ne (by omega), h.other l hl.1]
  · intro l y hy
    have hne : l ≠ w := by
      rintro rfl
      rw [hnone] at hy
      cases hy
    rw [Function.update_of_ne (by omega), h.kept l y hy]

/-- A constant 0 that is connected to a net with an entry below the numbers of the module. -/
theorem Connects.zero (h : Connects offset offset' table inputs outputs outer inner) {w x y : Nat}
    (hw : w ∉ outputs.map Prod.fst) (hx : x < offset) :
  Connects offset offset' table inputs (outputs ++ [(w, .constant false)])
    (Function.update outer x (some y)) inner
  := by
  have hkeep : ∀ w', Function.update outer x (some y) (w' + offset) = outer (w' + offset) := by
    intro w'
    apply Function.update_of_ne
    omega
  constructor
  · apply h.input
  · intro l z hz
    rcases h.entry l z hz with hp | ⟨hl, w', hw', hz⟩
    · exact .inl hp
    · exact .inr ⟨hl, w', List.mem_append_left _ hw', hz⟩
  · intro w' l hmem
    rcases List.mem_append.mp hmem with hmem | hmem
    · rw [translatedWireNumber_congr (hkeep w')]
      apply h.net w' l hmem
    · cases (Prod.mk.inj (List.mem_singleton.mp hmem)).2
  · intro w' b hmem
    rw [translatedWireNumber_congr (hkeep w')]
    rcases List.mem_append.mp hmem with hmem | hmem
    · apply h.constant w' b hmem
    · obtain ⟨rfl, hb⟩ := Prod.mk.inj (List.mem_singleton.mp hmem)
      rw [Bit.constant.injEq] at hb
      exact .inr ⟨hb, translatedWireNumber_congr (h.other w' hw)⟩
  · intro l hl
    rw [List.map_append, List.mem_append, not_or] at hl
    rw [hkeep, h.other l hl.1]
  · intro l z hz
    rw [hkeep, h.kept l z hz]

/-- Connecting a net to an output net of the submodule that has not been connected. -/
theorem Connects.drive (h : Connects offset offset' table inputs outputs outer inner) {w l : Nat}
    (hw : w ∉ outputs.map Prod.fst) (hnone : inner (l + offset') = none) :
  Connects offset offset' table inputs (outputs ++ [(w, .net l)]) outer
    (Function.update inner (l + offset') (some (translatedWireNumber offset outer w)))
  := by
  have hkeep : ∀ l' x, inner (l' + offset') = some x →
      Function.update inner (l + offset') (some (translatedWireNumber offset outer w))
        (l' + offset') = some x := by
    intro l' x hx
    have hne : l' ≠ l := by
      rintro rfl
      rw [hnone] at hx
      cases hx
    rw [Function.update_of_ne (by omega), hx]
  constructor
  · intro p hp
    apply hkeep _ _ (h.input p hp)
  · intro l' x hx
    by_cases hl : l' = l
    · rw [hl, Function.update_self, Option.some.injEq] at hx
      right
      constructor
      · intro hmem
        obtain ⟨p, hp, hpl⟩ := List.mem_map.mp hmem
        have hentry := h.input p hp
        rw [hpl, hl, hnone] at hentry
        cases hentry
      · refine ⟨w, List.mem_append_right _ (by rw [hl]; apply List.mem_singleton_self), ?_⟩
        rw [← hx]
        apply translatedWireNumber_congr (h.other w hw)
    · rw [Function.update_of_ne (by omega)] at hx
      rcases h.entry l' x hx with hp | ⟨hl', w', hw', hx⟩
      · exact .inl hp
      · exact .inr ⟨hl', w', List.mem_append_left _ hw', hx⟩
  · intro w' l' hmem
    rcases List.mem_append.mp hmem with hmem | hmem
    · apply hkeep _ _ (h.net w' l' hmem)
    · obtain ⟨rfl, hl⟩ := Prod.mk.inj (List.mem_singleton.mp hmem)
      rw [Bit.net.injEq] at hl
      rw [hl, Function.update_self]
  · intro w' b hmem
    rcases List.mem_append.mp hmem with hmem | hmem
    · apply h.constant w' b hmem
    · cases (Prod.mk.inj (List.mem_singleton.mp hmem)).2
  · intro l' hl'
    rw [List.map_append, List.mem_append, not_or] at hl'
    apply h.other l' hl'.1
  · apply h.kept

/-- The wire of a net that has not been connected. -/
theorem Connects.number (h : Connects offset offset' table inputs outputs outer inner) {w : Nat}
    (hw : w ∉ outputs.map Prod.fst) :
  translatedWireNumber offset outer w = translatedWireNumber offset table w
  := translatedWireNumber_congr (h.other w hw)

/-- Connecting a net to a constant. -/
theorem Connects.connectConstant (h : Connects offset offset' table inputs outputs outer inner)
    {w : Nat} (hw : w ∉ outputs.map Prod.fst) {b : Bool}
    (hone : b = true → table (w + offset) = none)
    (hbelow : ∀ x, table (w + offset) = some x → x < offset) :
  Connects offset offset' table inputs (outputs ++ [(w, .constant b)])
    (connectOutput offset offset' (outer, inner) (w, .constant b)).1
    (connectOutput offset offset' (outer, inner) (w, .constant b)).2
  := by
  rw [connectOutput, h.number hw]
  rcases htable : table (w + offset) with _ | x
  · rw [translatedWireNumber_of_none htable]
    apply h.alias hw htable
    · rintro l ⟨⟩
    · rintro b' ⟨⟩
      rfl
  · rw [translatedWireNumber_of_some htable]
    cases b with
    | true =>
        have hnone := hone rfl
        rw [htable] at hnone
        cases hnone
    | false => apply h.zero hw (hbelow x htable)

/-- Connecting a net to an output net of the submodule.  If that has been connected, the net has no
entry. -/
theorem Connects.connectNet (h : Connects offset offset' table inputs outputs outer inner)
    {w l : Nat} (hw : w ∉ outputs.map Prod.fst)
    (hnone : inner (l + offset') ≠ none → table (w + offset) = none) :
  Connects offset offset' table inputs (outputs ++ [(w, .net l)])
    (connectOutput offset offset' (outer, inner) (w, .net l)).1
    (connectOutput offset offset' (outer, inner) (w, .net l)).2
  := by
  rcases hinner : inner (l + offset') with _ | x
  · simp only [connectOutput, hinner]
    apply h.drive hw hinner
  · have htable := hnone (by rw [hinner]; simp)
    simp only [connectOutput, hinner]
    rw [h.number hw, translatedWireNumber_of_none htable]
    apply h.alias hw htable
    · rintro l' ⟨⟩
      apply hinner
    · rintro b ⟨⟩

/-- The nets of the submodule with an entry after one more output is connected. -/
theorem connectOutput_ne_none {w l l' : Nat} :
  (connectOutput offset offset' (outer, inner) (w, .net l)).2 (l' + offset') ≠ none
    ↔ l' = l ∨ inner (l' + offset') ≠ none
  := by
  rcases hinner : inner (l + offset') with _ | x
  · simp only [connectOutput, hinner]
    by_cases hl : l' = l
    · simp [hl]
    · rw [Function.update_of_ne (by omega)]
      simp [hl]
  · simp only [connectOutput, hinner]
    constructor
    · apply Or.inr
    · rintro (rfl | hne)
      · rw [hinner]
        simp
      · apply hne

/-- Connecting further outputs, where `known` are the nets of the submodule that have an entry. -/
theorem Connects.connectOutputs (done : List (Nat × Bit)) {rest : List (Nat × Bit)}
    {known : List Nat}
    (houtputs : ((done ++ rest).map Prod.fst).Nodup)
    (hknown : ∀ l, l ∈ known ↔ inner (l + offset') ≠ none)
    (haliases : ∀ w ∈ aliases known rest, table (w + offset) = none)
    (hbelow : ∀ w ∈ rest.map Prod.fst, ∀ x, table (w + offset) = some x → x < offset)
    (h : Connects offset offset' table inputs done outer inner) :
  Connects offset offset' table inputs (done ++ rest)
    (connectOutputs offset offset' (outer, inner) rest).1
    (connectOutputs offset offset' (outer, inner) rest).2
  := by
  induction rest generalizing done outer inner known with
  | nil =>
      rw [List.append_nil]
      apply h
  | cons p rest ih =>
      obtain ⟨w, bit⟩ := p
      have hw : w ∉ done.map Prod.fst := by
        rw [List.map_append, List.map_cons, List.nodup_append] at houtputs
        intro hmem
        apply houtputs.2.2 w hmem w List.mem_cons_self rfl
      rw [List.map_cons, List.forall_mem_cons] at hbelow
      rw [List.append_cons] at houtputs
      rw [List.append_cons, Builder.connectOutputs, List.foldl_cons]
      cases bit with
      | constant b =>
          have hrest : ∀ w' ∈ aliases known rest, table (w' + offset) = none := by
            intro w' hw'
            apply haliases w'
            cases b with
            | true => exact List.mem_cons_of_mem w hw'
            | false => exact hw'
          apply ih _ houtputs hknown hrest hbelow.2
          apply h.connectConstant hw _ hbelow.1
          rintro rfl
          apply haliases w List.mem_cons_self
      | net l =>
          by_cases hl : l ∈ known
          · rw [aliases, if_pos hl, List.forall_mem_cons] at haliases
            apply ih _ houtputs _ haliases.2 hbelow.2 (h.connectNet hw (fun _ => haliases.1))
            intro l'
            rw [connectOutput_ne_none, ← hknown, or_iff_right_of_imp]
            rintro rfl
            apply hl
          · rw [aliases, if_neg hl] at haliases
            have hnet := h.connectNet (l := l) hw (fun hne => absurd ((hknown l).mpr hne) hl)
            apply ih _ houtputs _ haliases hbelow.2 hnet
            intro l'
            rw [connectOutput_ne_none, List.mem_cons, hknown]

/-- The tables after the outputs are connected, if no alias is lost: the nets connected to output
bits that are not driven themselves have no entry, and entries for other connected nets are below
the numbers of the module. -/
theorem connects_connectOutputs (hinputs : (inputs.map Prod.snd).Nodup)
    (houtputs : (outputs.map Prod.fst).Nodup)
    (haliases : ∀ w ∈ aliases (inputs.map Prod.snd) outputs, table (w + offset) = none)
    (hbelow : ∀ w ∈ outputs.map Prod.fst, ∀ x, table (w + offset) = some x → x < offset) :
  Connects offset offset' table inputs outputs
    (connectOutputs offset offset' (table, connectInputs offset offset' table inputs) outputs).1
    (connectOutputs offset offset' (table, connectInputs offset offset' table inputs) outputs).2
  := by
  apply (connects_nil hinputs).connectOutputs [] houtputs _ haliases hbelow
  intro l
  by_cases hl : l ∈ inputs.map Prod.snd
  · obtain ⟨p, hp, rfl⟩ := List.mem_map.mp hl
    rw [connectInputs_of_mem hinputs hp]
    simp [hl]
  · rw [connectInputs_of_notMem hl]
    simp [hl]

end Outputs

end Builder

end SynCirc
