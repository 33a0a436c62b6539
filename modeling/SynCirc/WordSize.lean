import SynCirc.Reparse
import SynCirc.BristolRange

/-!
# Wire numbers in a machine word

The wire numbers of a circuit that is read from a text, in either format, fit in a machine word, and
so does its largest wire number.  So what is read can be written, and what is written is read back
as the same circuit (`Circuit.exists_reparse`).
-/

namespace Zig

theorem castInt_eq_ok {bound x y : Nat} (h : castInt bound x = .ok y) :
  y < bound ∧ y = x
  := by
  rw [castInt] at h
  split at h
  case isTrue hlt =>
    cases h
    exact ⟨hlt, rfl⟩
  case isFalse => contradiction

/-- A byte of an integer leaves the value in its type. -/
theorem parseDigit_lt {radix bound : Nat} {sign : Sign} {x y : Nat} {c : UInt8} (hx : x < bound)
    (h : parseDigit radix bound sign x c = .ok y) :
  y < bound
  := by
  rw [parseDigit] at h
  split at h
  · cases h
    apply hx
  · obtain ⟨digit, -, h⟩ := Outcome.bind_eq_ok.mp h
    obtain ⟨shifted, hshift, h⟩ := Outcome.bind_eq_ok.mp h
    obtain ⟨digit', -, h⟩ := Outcome.bind_eq_ok.mp h
    have hshifted : shifted < bound := by
      rw [shiftDigit] at hshift
      split at hshift
      · cases hshift
        apply hx
      · obtain ⟨_, -, hshift⟩ := Outcome.bind_eq_ok.mp hshift
        apply (castInt_eq_ok hshift).1
    cases sign with
    | pos => apply (castInt_eq_ok h).1
    | neg =>
        simp only at h
        split at h
        · cases h
          omega
        · contradiction

/-- An integer that is parsed is a value of its type. -/
theorem parseInt_lt {radix bound x : Nat} {buf : List UInt8} (hbound : 0 < bound)
    (h : parseInt radix bound buf = .ok x) :
  x < bound
  := by
  have hdigits : ∀ sign (buf : List UInt8) (a : Nat), a < bound →
      buf.foldlM (parseDigit radix bound sign) a = .ok x → x < bound := by
    intro sign buf
    induction buf with
    | nil =>
        intro a ha hfold
        cases hfold
        apply ha
    | cons c buf ih =>
        intro a ha hfold
        rw [List.foldlM_cons] at hfold
        obtain ⟨b, hb, hfold⟩ := Outcome.bind_eq_ok.mp hfold
        apply ih b (parseDigit_lt ha hb) hfold
  have hsign : ∀ sign buf, parseWithSign radix bound sign buf = .ok x → x < bound := by
    intro sign buf hparse
    rw [parseWithSign] at hparse
    split at hparse
    · contradiction
    split at hparse
    · contradiction
    apply hdigits sign buf 0 hbound hparse
  cases buf with
  | nil => contradiction
  | cons c rest =>
      rw [parseInt] at h
      split at h
      · apply hsign _ _ h
      split at h
      · apply hsign _ _ h
      · apply hsign _ _ h

theorem Outcome.mapError_eq_ok {ε ε' α : Type} {f : ε → ε'} {x : Outcome ε α} {a : α} :
  x.mapError f = ok a ↔ x = ok a
  := by
  cases x with
  | ok b => simp [mapError]
  | error e => simp [mapError]
  | panic t => simp [mapError]

end Zig

namespace SynCirc

open Zig

namespace Parser

theorem IsWire.lt {raw : List UInt8} {w : Nat} (h : IsWire raw w) :
  w < 2 ^ 64
  := parseInt_lt (by decide) (Outcome.mapError_eq_ok.mp h)

theorem forall_lt_of_isWire {ts : List (List UInt8)} {ws : List Nat}
    (h : List.Forall₂ IsWire ts ws) :
  ∀ w ∈ ws, w < 2 ^ 64
  := by
  induction h with
  | nil => simp
  | cons hw _ ih =>
      rw [List.forall_mem_cons]
      exact ⟨hw.lt, ih⟩

theorem Denotes.forall_lt {tokens : List (List UInt8)} {l : Line} (h : Denotes tokens l) :
  ∀ w ∈ l.wires, w < 2 ^ 64
  := by
  cases h with
  | inputs hts => apply forall_lt_of_isWire hts
  | outputs hts => apply forall_lt_of_isWire hts
  | gate hgate hts hcount =>
      rw [Line.wires, (readsGate_of_gateOf hgate).wires [] _ hcount]
      apply forall_lt_of_isWire hts
  | lut hts _ houtput _ =>
      rw [Line.wires, List.forall_mem_append, List.forall_mem_singleton]
      exact ⟨forall_lt_of_isWire hts, houtput.lt⟩

/-- The largest wire number of a circuit that is read fits in a machine word. -/
theorem maxWireNumber_lt {text : List UInt8} {c : Circuit} (h : parseCircuit text = .ok c) :
  c.maxWireNumber < 2 ^ 64
  := by
  rw [parseCircuit_eq] at h
  obtain ⟨ls, hls, h⟩ := Outcome.bind_eq_ok.mp h
  obtain rfl := Outcome.ok.inj h
  have hread := Outcome.mapM_eq_ok_iff.mp hls
  rw [maxWireNumber_foldl_absorb]
  apply Circuit.foldl_max_lt (by decide)
  intro w hw
  obtain ⟨l, hl, hw⟩ := List.mem_flatMap.mp hw
  obtain ⟨line, -, hline⟩ := exists_mem_of_forall₂ hread hl
  apply (readLine_eq_ok.mp hline).2.forall_lt w hw

end Parser

namespace BristolParser

theorem IsIndex.lt {raw : List UInt8} {w : Nat} (h : IsIndex raw w) :
  w < 2 ^ 64
  := parseInt_lt (by decide) (Outcome.mapError_eq_ok.mp h)

/-- A number in a text fits in a machine word. -/
theorem number_lt (raw : List UInt8) :
  number raw < 2 ^ 64
  := by
  rw [number]
  split
  case h_1 w hw =>
    have hindex : IsIndex raw w := hw
    apply hindex.lt
  case h_2 => decide

/-- The number of inputs in the header of a text that is read fits in a machine word. -/
theorem inputCount_lt {text : List UInt8} {c : Circuit} (h : parseBristol text = .ok c) :
  inputCount text < 2 ^ 64
  := by
  rw [parseBristol_eq, parseHeader] at h
  obtain ⟨_, h, -⟩ := Outcome.bind_eq_ok.mp h
  obtain ⟨⟨iter, stream₁⟩, h₁, h⟩ := Outcome.bind_eq_ok.mp h
  obtain ⟨_, -, h⟩ := Outcome.bind_eq_ok.mp h
  obtain ⟨⟨iter', stream₂⟩, h₂, h⟩ := Outcome.bind_eq_ok.mp h
  obtain ⟨counts, hcounts, h⟩ := Outcome.bind_eq_ok.mp h
  obtain ⟨first, hlines, -⟩ := nextLine_eq_ok h₁
  obtain ⟨second, rfl, rfl⟩ := nextLine_eq_ok h₂
  have hone : lineTokens text 1 = tokenize second := by
    rw [lineTokens, hlines]
    rfl
  rw [inputCount, hone]
  generalize tokenize second = tokens at hcounts
  rcases tokens with _ | ⟨field1, _ | ⟨field2, _ | ⟨field3, rest⟩⟩⟩
  · contradiction
  · contradiction
  · apply number_lt
  · simp only [parsePortCounts, next, Outcome.ok_bind] at hcounts
    obtain ⟨numInputWiresA, hA, hcounts⟩ := Outcome.bind_eq_ok.mp hcounts
    obtain ⟨numInputWiresB, hB, hcounts⟩ := Outcome.bind_eq_ok.mp hcounts
    obtain ⟨_, hcheck, -⟩ := Outcome.bind_eq_ok.mp hcounts
    simp only [IsIndex.number_eq hA, IsIndex.number_eq hB]
    rw [check] at hcheck
    split at hcheck
    case isTrue hlt => apply hlt
    case isFalse => contradiction

end BristolParser

/-- The wire numbers of a circuit that is read from a text in the SynCirc format fit in a machine
word. -/
theorem wiresFit_of_parseCircuit {text : List UInt8} {c : Circuit} (h : parseCircuit text = .ok c) :
  c.WiresFit
  := by
  intro w hw
  apply Nat.lt_of_le_of_lt ((Parser.parseCircuit_eq_ok h).1.mentioned hw)
    (Parser.maxWireNumber_lt h)

open BristolParser in
/-- The wire numbers of a circuit that is read from a text in the Bristol format fit in a machine
word, and it has no lookup tables. -/
theorem wiresFit_of_parseBristol {text : List UInt8} {c : Circuit} (h : parseBristol text = .ok c) :
  c.WiresFit ∧ c.maxWireNumber < 2 ^ 64 ∧ c.LutFree
  := by
  obtain ⟨hports, hread⟩ := parseBristol_eq_ok h
  have hgates : ∀ w ∈ gateWires text, w < 2 ^ 64 := by
    intro w hw
    obtain ⟨line, -, hw⟩ := List.mem_flatMap.mp hw
    obtain ⟨raw, -, rfl⟩ := List.mem_map.mp hw
    apply number_lt
  refine ⟨?_, ?_, hread.isLut⟩
  · intro w hw
    rw [Circuit.mentioned, List.mem_append, List.mem_append] at hw
    rcases hw with (hw | hw) | hw
    · rw [hports.inputs, List.mem_range] at hw
      apply hw.trans (inputCount_lt h)
    · rw [hports.outputs, List.mem_range'_1] at hw
      have hlt : wireCount text < 2 ^ 64 := number_lt _
      have hle := hports.counts
      omega
    · obtain ⟨n, hn, hw⟩ := List.mem_flatMap.mp hw
      apply hgates w (hread.wires n hn _ w hw)
  · rw [hread.maxWireNumber]
    apply Circuit.foldl_max_lt (by decide) hgates

/-- A circuit that is read from a text in either format, with lookup tables that fit, is written as
a text that is read back as a circuit with the same lines and the same values of the wires.  This
circuit is written as the same text. -/
theorem Circuit.exists_reparse {text : List UInt8} {c : Circuit}
    (h : (parseCircuit text = .ok c ∧ ∀ line ∈ lines text, Parser.LutFits line)
      ∨ parseBristol text = .ok c)
    (hlen : ∀ line ∈ lines (Emit.text c), line.length < Parser.maxLineLen) :
  ∃ c', parseCircuit (Emit.text c) = .ok c' ∧ c.SameLines c'
    ∧ (∀ inputs, c'.values inputs = c.values inputs) ∧ Emit.text c' = Emit.text c
  := by
  have hreadable : c.WiresFit ∧ (∀ n ∈ c.nodes, n.LutInRange c.luts c.lutTables)
      ∧ ∀ n ∈ c.nodes, n.arityFits = true := by
    rcases h with ⟨hparse, hfits⟩ | hparse
    · have hfitted := (Parser.parseCircuit_eq_ok hparse).2.1.mpr hfits
      use wiresFit_of_parseCircuit hparse, hfitted.1.forall_lutInRange, hfitted.2
    · obtain ⟨hwires, -, hfree⟩ := wiresFit_of_parseBristol hparse
      use hwires, lutInRange_of_lutFree hfree
      apply List.all_eq_true.mp (all_arityFits_of_lutFree hfree)
  obtain ⟨hwires, hluts, harity⟩ := hreadable
  obtain ⟨c', hparse, hsame, -⟩ := exists_parseCircuit_text hwires hluts harity hlen
  use c', hparse, hsame, hsame.values_eq
  apply hsame.text_eq

end SynCirc
