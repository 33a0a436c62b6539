import SynCirc.Zig.Outcome
import Mathlib.Data.List.Basic

/-!
# Text

What a Zig program does with text: it prints bytes and integers, reads a stream line by line,
splits a line into tokens and parses integers.  A text is a list of bytes.

The lemmas go from printed text back to the values.  A line that ends in a line break is read
back whole (`lines_append`), the tokens of a line of words are the words (`tokenize_words`),
and a printed integer is parsed back if it is in range (`parseInt_formatInt`).
-/

namespace Zig

/-- The bytes of an ASCII text. -/
def bytes (s : String) : List UInt8 := s.toList.map Char.toUInt8

/-- The byte of a blank. -/
def blank : UInt8 := 32

/-- The byte of a line break. -/
def newline : UInt8 := 10

/-- A printed unsigned integer. -/
def formatInt (n : Nat) : List UInt8 := (Nat.toDigits 10 n).map Char.toUInt8

/-- Words separated by single blanks. -/
def words : List (List UInt8) → List UInt8
  | [] => []
  | t :: ts => t ++ ts.flatMap (fun t => blank :: t)

/-- The lines of a stream, without their line breaks.  The last one may lack its line break,
and is then a line only if it is not empty. -/
def lines : List UInt8 → List (List UInt8)
  | [] => []
  | b :: bs =>
      if b = newline then [] :: lines bs
      else match lines bs with
        | [] => [[b]]
        | l :: ls => (b :: l) :: ls

/-- The tokens of a line whose current token has begun with `token`. -/
def tokenizeFrom (token : List UInt8) : List UInt8 → List (List UInt8)
  | [] => if token = [] then [] else [token]
  | b :: bs =>
      if b = blank then
        if token = [] then tokenizeFrom [] bs else token :: tokenizeFrom [] bs
      else tokenizeFrom (token ++ [b]) bs

/-- The nonempty tokens of a line between its blanks. -/
def tokenize (line : List UInt8) : List (List UInt8) := tokenizeFrom [] line

/-! ### Parsing integers -/

inductive ParseIntError where
  | overflow
  | invalidCharacter
  deriving DecidableEq, Repr

/-- The value of a digit, for a radix up to ten. -/
def charToDigit (radix : Nat) (c : UInt8) : Outcome ParseIntError Nat :=
  if 48 ≤ c ∧ c ≤ 57 ∧ (c - 48).toNat < radix then .ok (c - 48).toNat
  else .error .invalidCharacter

/-- A value of an unsigned type with `bound` values. -/
def castInt (bound x : Nat) : Outcome ParseIntError Nat :=
  if x < bound then .ok x else .error .overflow

/-- The digits are added after a plus sign and subtracted after a minus sign. -/
inductive Sign where
  | pos
  | neg

/-- The value `x` moved by one digit.  The radix is only cast when it is needed. -/
def shiftDigit (radix bound x : Nat) : Outcome ParseIntError Nat := do
  if x = 0 then return x else
  let radix ← castInt bound radix
  castInt bound (x * radix)

/-- One byte of an integer, after bytes with the value `x`. -/
def parseDigit (radix bound : Nat) (sign : Sign) (x : Nat) (c : UInt8) :
    Outcome ParseIntError Nat := do
  if c = 95 then return x else
  let digit ← charToDigit radix c
  let x ← shiftDigit radix bound x
  let digit ← castInt bound digit
  match sign with
  | .pos => castInt bound (x + digit)
  | .neg => if digit ≤ x then return x - digit else .error .overflow

def parseWithSign (radix bound : Nat) (sign : Sign) (buf : List UInt8) :
    Outcome ParseIntError Nat :=
  if buf = [] then .error .invalidCharacter
  else if buf.head? = some 95 ∨ buf.getLast? = some 95 then .error .invalidCharacter
  else buf.foldlM (parseDigit radix bound sign) 0

/-- Parse an integer of the unsigned type with `bound` values. -/
def parseInt (radix bound : Nat) (buf : List UInt8) : Outcome ParseIntError Nat :=
  match buf with
  | [] => .error .invalidCharacter
  | c :: rest =>
      if c = 43 then parseWithSign radix bound .pos rest
      else if c = 45 then parseWithSign radix bound .neg rest
      else parseWithSign radix bound .pos buf

/-! ### Lines and tokens of printed text -/

/-- A printed line is read back, and the rest of the stream after it. -/
theorem lines_append {l : List UInt8} (hl : newline ∉ l) (rest : List UInt8) :
  lines (l ++ newline :: rest) = l :: lines rest
  := by
  induction l with
  | nil => rfl
  | cons b l ih =>
      rw [List.mem_cons, not_or] at hl
      rw [List.cons_append, lines, if_neg (Ne.symm hl.1), ih hl.2]

/-- The lines of a stream of printed lines. -/
theorem lines_flatMap {ls : List (List UInt8)} (hls : ∀ l ∈ ls, newline ∉ l) :
  lines (ls.flatMap (fun l => l ++ [newline])) = ls
  := by
  induction ls with
  | nil => rfl
  | cons l ls ih =>
      rw [List.forall_mem_cons] at hls
      rw [List.flatMap_cons, List.append_assoc, List.singleton_append, lines_append hls.1,
        ih hls.2]

/-- A token that ends at the end of the line. -/
theorem tokenizeFrom_end {token t : List UInt8} (ht : blank ∉ t) (hne : token ++ t ≠ []) :
  tokenizeFrom token t = [token ++ t]
  := by
  induction t generalizing token with
  | nil =>
      rw [List.append_nil] at hne ⊢
      rw [tokenizeFrom, if_neg hne]
  | cons b t ih =>
      rw [List.mem_cons, not_or] at ht
      rw [tokenizeFrom, if_neg (Ne.symm ht.1), ih ht.2 (by simp), List.append_assoc]
      rfl

/-- A token that ends at a blank. -/
theorem tokenizeFrom_blank {token t : List UInt8} (ht : blank ∉ t) (hne : token ++ t ≠ [])
    (rest : List UInt8) :
  tokenizeFrom token (t ++ blank :: rest) = (token ++ t) :: tokenize rest
  := by
  induction t generalizing token with
  | nil =>
      rw [List.append_nil] at hne ⊢
      rw [List.nil_append, tokenizeFrom, if_pos rfl, if_neg hne]
      rfl
  | cons b t ih =>
      rw [List.mem_cons, not_or] at ht
      rw [List.cons_append, tokenizeFrom, if_neg (Ne.symm ht.1), ih ht.2 (by simp),
        List.append_assoc]
      rfl

/-- A word can be printed and read back as one token. -/
structure IsWord (t : List UInt8) : Prop where
  ne_nil : t ≠ []
  no_blank : blank ∉ t
  no_newline : newline ∉ t

/-- The tokens of a line of words are the words. -/
theorem tokenize_words {ts : List (List UInt8)} (hts : ∀ t ∈ ts, IsWord t) :
  tokenize (words ts) = ts
  := by
  induction ts with
  | nil => rfl
  | cons t ts ih =>
      rw [List.forall_mem_cons] at hts
      obtain ⟨ht, hts⟩ := hts
      cases ts with
      | nil =>
          rw [words, List.flatMap_nil, List.append_nil, tokenize,
            tokenizeFrom_end ht.no_blank (List.append_ne_nil_of_right_ne_nil [] ht.ne_nil),
            List.nil_append]
      | cons t' ts =>
          have hcons : words (t :: t' :: ts) = t ++ blank :: words (t' :: ts) := by
            rw [words, words, List.flatMap_cons]
            rfl
          rw [hcons, tokenize,
            tokenizeFrom_blank ht.no_blank (List.append_ne_nil_of_right_ne_nil [] ht.ne_nil),
            ih hts, List.nil_append]

/-- A line of words has no line break. -/
theorem newline_notMem_words {ts : List (List UInt8)} (hts : ∀ t ∈ ts, IsWord t) :
  newline ∉ words ts
  := by
  cases ts with
  | nil => simp [words]
  | cons t ts =>
      rw [List.forall_mem_cons] at hts
      intro hmem
      rw [words, List.mem_append, List.mem_flatMap] at hmem
      rcases hmem with hmem | ⟨t', ht', hmem⟩
      · apply hts.1.no_newline hmem
      · rw [List.mem_cons] at hmem
        rcases hmem with hmem | hmem
        · contradiction
        · apply (hts.2 t' ht').no_newline hmem

/-- The length of a line of words of bounded length. -/
theorem length_words_le {ts : List (List UInt8)} {k : Nat} (hts : ∀ t ∈ ts, t.length ≤ k) :
  (words ts).length ≤ ts.length * (k + 1)
  := by
  have hrest : ∀ ts : List (List UInt8), (∀ t ∈ ts, t.length ≤ k) →
      (ts.flatMap (fun t => blank :: t)).length ≤ ts.length * (k + 1) := by
    intro ts
    induction ts with
    | nil => simp
    | cons t ts ih =>
        intro hts
        rw [List.forall_mem_cons] at hts
        have hle := ih hts.2
        rw [List.flatMap_cons, List.length_append, List.length_cons, List.length_cons,
          Nat.succ_mul]
        omega
  cases ts with
  | nil => simp [words]
  | cons t ts =>
      rw [List.forall_mem_cons] at hts
      have hle := hrest ts hts.2
      rw [words, List.length_append, List.length_cons, Nat.succ_mul]
      omega

/-! ### Printed integers -/

/-- The byte of a decimal digit. -/
def digitByte (d : Nat) : UInt8 := (Nat.digitChar d).toUInt8

theorem formatInt_of_lt {d : Nat} (hd : d < 10) :
  formatInt d = [digitByte d]
  := by
  rw [formatInt, Nat.toDigits_of_lt_base hd]
  rfl

theorem formatInt_digit {m d : Nat} (hm : 0 < m) (hd : d < 10) :
  formatInt (10 * m + d) = formatInt m ++ [digitByte d]
  := by
  rw [formatInt, ← Nat.toDigits_append_toDigits (by decide) hm hd,
    Nat.toDigits_of_lt_base hd, List.map_append]
  rfl

/-- The bytes of a printed integer are digits. -/
theorem mem_formatInt {n : Nat} {b : UInt8} (hb : b ∈ formatInt n) :
  ∃ d, d < 10 ∧ b = digitByte d
  := by
  induction n using Nat.base_induction 10 (by decide) with
  | single d hd =>
      rw [formatInt_of_lt hd, List.mem_singleton] at hb
      exact ⟨d, hd, hb⟩
  | digit m d hd hm ih =>
      rw [formatInt_digit hm hd, List.mem_append, List.mem_singleton] at hb
      rcases hb with hb | hb
      · apply ih hb
      · exact ⟨d, hd, hb⟩

theorem formatInt_ne_nil (n : Nat) :
  formatInt n ≠ []
  := by
  rw [formatInt, ne_eq, List.map_eq_nil_iff]
  apply Nat.toDigits_ne_nil

/-- A printed integer of 64 bits has at most 20 digits. -/
theorem length_formatInt_le {n : Nat} (hn : n < 10 ^ 20) :
  (formatInt n).length ≤ 20
  := by
  rw [formatInt, List.length_map, Nat.length_toDigits_le_iff (by decide) (by decide)]
  apply hn

/-- A digit is no other byte. -/
theorem digitByte_ne {d : Nat} (hd : d < 10) :
  digitByte d ≠ blank ∧ digitByte d ≠ newline ∧ digitByte d ≠ 95 ∧ digitByte d ≠ 43
    ∧ digitByte d ≠ 45
  := by
  revert d
  decide

theorem charToDigit_digitByte {d : Nat} (hd : d < 10) :
  charToDigit 10 (digitByte d) = .ok d
  := by
  revert d
  decide

theorem isWord_formatInt (n : Nat) :
  IsWord (formatInt n)
  := by
  refine ⟨formatInt_ne_nil n, ?_, ?_⟩
  · intro hmem
    obtain ⟨d, hd, heq⟩ := mem_formatInt hmem
    apply (digitByte_ne hd).1 heq.symm
  · intro hmem
    obtain ⟨d, hd, heq⟩ := mem_formatInt hmem
    apply (digitByte_ne hd).2.1 heq.symm

theorem shiftDigit_of {bound x : Nat} (hbound : 10 < bound) (hx : 10 * x < bound) :
  shiftDigit 10 bound x = .ok (10 * x)
  := by
  rw [shiftDigit]
  by_cases hzero : x = 0
  · rw [if_pos hzero, hzero]
    rfl
  · have hradix : castInt bound 10 = .ok 10 := if_pos hbound
    rw [if_neg hzero, hradix, Outcome.ok_bind, Nat.mul_comm]
    apply if_pos hx

/-- One more digit. -/
theorem parseDigit_digitByte {bound x d : Nat} (hd : d < 10) (hbound : 10 < bound)
    (hx : 10 * x + d < bound) :
  parseDigit 10 bound .pos x (digitByte d) = .ok (10 * x + d)
  := by
  have hdigit : castInt bound d = .ok d := if_pos (by omega)
  rw [parseDigit, if_neg (digitByte_ne hd).2.2.1, charToDigit_digitByte hd, Outcome.ok_bind,
    shiftDigit_of hbound (by omega), Outcome.ok_bind, hdigit, Outcome.ok_bind]
  apply if_pos hx

/-- The digits of a printed integer add up to it. -/
theorem foldlM_parseDigit {bound n : Nat} (hbound : 10 < bound) (hn : n < bound) :
  (formatInt n).foldlM (parseDigit 10 bound .pos) 0 = .ok n
  := by
  induction n using Nat.base_induction 10 (by decide) with
  | single d hd =>
      have hparse : parseDigit 10 bound .pos 0 (digitByte d) = .ok d := by
        have h := parseDigit_digitByte (x := 0) hd hbound (by omega)
        rw [Nat.mul_zero, Nat.zero_add] at h
        apply h
      rw [formatInt_of_lt hd, List.foldlM_cons, hparse]
      rfl
  | digit m d hd hm ih =>
      rw [formatInt_digit hm hd, List.foldlM_append, ih (by omega), Outcome.ok_bind,
        List.foldlM_cons, parseDigit_digitByte hd hbound hn]
      rfl

/-- A printed integer in range is parsed back. -/
theorem parseInt_formatInt {bound n : Nat} (hbound : 10 < bound) (hn : n < bound) :
  parseInt 10 bound (formatInt n) = .ok n
  := by
  have hdigit : ∀ b ∈ formatInt n, b ≠ 95 ∧ b ≠ 43 ∧ b ≠ 45 := by
    intro b hb
    obtain ⟨d, hd, rfl⟩ := mem_formatInt hb
    apply (digitByte_ne hd).2.2
  have hhead : (formatInt n).head? ≠ some 95 := by
    intro heq
    apply (hdigit 95 (List.mem_of_head? heq)).1 rfl
  have hlast : (formatInt n).getLast? ≠ some 95 := by
    intro heq
    apply (hdigit 95 (List.mem_of_getLast? heq)).1 rfl
  have hsign : parseWithSign 10 bound .pos (formatInt n) = .ok n := by
    rw [parseWithSign, if_neg (formatInt_ne_nil n), if_neg (not_or.mpr ⟨hhead, hlast⟩)]
    apply foldlM_parseDigit hbound hn
  rcases hformat : formatInt n with _ | ⟨b, bs⟩
  · apply absurd hformat (formatInt_ne_nil n)
  · have hb := hdigit b (by rw [hformat]; apply List.mem_cons_self)
    rw [hformat] at hsign
    rw [parseInt, if_neg hb.2.1, if_neg hb.2.2, hsign]

end Zig
