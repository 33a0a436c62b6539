import SynCirc.Command.Basic

/-!
# Converting a circuit

`convert` reads a circuit and writes it in another format, under the same root name in the same
directory.  The output file is created before the circuit is written to it, so a conversion that
breaks off while it writes leaves a file that is cut off.  A conversion changes no other file
(`Convert.run_cases`).  So a property of the texts of a circuit that every conversion from text to
text keeps is kept by all conversions that do not break off, whatever file they are about
(`Holds.converts`).
-/

namespace SynCirc

open Zig

namespace Command

namespace Convert

inductive OutputFormat where
  | verilog
  | syncirc
  | bristol
  deriving DecidableEq, Repr

/-- The format with the given name. -/
def stringToEnum (str : List UInt8) : Option OutputFormat :=
  if str = bytes "verilog" then some .verilog
  else if str = bytes "syncirc" then some .syncirc
  else if str = bytes "bristol" then some .bristol
  else none

structure Options where
  inputFilePath : Option (List UInt8)
  outputFormat : OutputFormat

/-- The options without any argument. -/
def defaultOptions : Options := ⟨none, .syncirc⟩

def parseArgs (options : Options) : List (List UInt8) → Outcome Error Options
  | [] => .ok options
  | arg :: args =>
      if bytes "-h" = arg ∨ bytes "--help" = arg then .error .usage
      else if bytes "-f" = arg then
        match args with
        | [] => fatal (bytes "expected parameter after '" ++ arg ++ bytes "'")
        | value :: args =>
            match stringToEnum value with
            | some format => parseArgs { options with outputFormat := format } args
            | none => fatal (bytes "invalid output format '" ++ value ++ bytes "'")
      else if options.inputFilePath = none ∧ ¬ bytes "-" <+: arg then
        parseArgs { options with inputFilePath := some arg } args
      else fatal (bytes "unrecognized parameter: '" ++ arg ++ bytes "'")

/-- The extension of the files of a format. -/
def OutputFormat.extension : OutputFormat → List UInt8
  | .verilog => bytes ".v"
  | .syncirc => bytes ".syncirc"
  | .bristol => bytes ".bristol"

/-- The circuit that is written in a format. -/
def lower (memory : Linearize.Memory) (circuit : Circuit) :
    OutputFormat → Outcome Error Circuit
  | .syncirc => .ok circuit
  | .verilog => .ok circuit
  | .bristol => (Linearize.run memory circuit).mapError .linearize

/-- The text of a circuit in a format. -/
def writeCircuit (root : List UInt8) (circuit : Circuit) :
    OutputFormat → Outcome Error (List UInt8)
  | .syncirc => emitSyncirc circuit
  | .verilog => (EmitVerilog.writeCircuit circuit root).mapError .emitVerilog
  | .bristol => (EmitBristol.writeCircuit circuit none).mapError .emitBristol

/-- The file that a conversion writes: its directory, its name, and its text, or how the emission of
the text breaks off. -/
structure OutputFile where
  dir : Nat
  name : List UInt8
  text : Outcome Error (List UInt8)

/-- What a conversion does before it creates its output file. -/
def prepare (memory : Linearize.Memory) (args : List (List UInt8)) (fs : FileSystem) :
    Outcome Error OutputFile := do
  let options ← parseArgs defaultOptions args
  match options.inputFilePath with
  | none => fatal (bytes "no input file provided")
  | some path => do
      let input ← readInput fs path
      let root := rootName (basename path) input.format.extension
      let circuit2 ← lower memory input.circuit options.outputFormat
      return ⟨input.dir, root ++ options.outputFormat.extension,
        writeCircuit root circuit2 options.outputFormat⟩

/-- How a conversion with the given arguments ends, and the file system it leaves.  If the emission
breaks off, the output file holds `leftover`, the part of the text that has left the buffer of the
writer by then. -/
def run (memory : Linearize.Memory) (leftover : List UInt8) (args : List (List UInt8))
    (fs : FileSystem) : Outcome Error Unit × FileSystem :=
  match prepare memory args fs with
  | .error e => (.error e, fs)
  | .panic t => (.panic t, fs)
  | .ok file =>
      match file.text with
      | .ok text => (.ok (), fs.writeFile file.dir file.name text)
      | .error e => (.error e, fs.writeFile file.dir file.name leftover)
      | .panic t => (.panic t, fs.writeFile file.dir file.name leftover)

/-! ### Conversions from text to text -/

/-- The format of the files that can be read again. -/
def OutputFormat.inputFormat : OutputFormat → Option InputFormat
  | .verilog => none
  | .syncirc => some .syncirc
  | .bristol => some .bristol

/-- The text of the circuit in a text, in another format. -/
def convertText (memory : Linearize.Memory) (root text : List UInt8) (format : InputFormat)
    (outputFormat : OutputFormat) : Outcome Error (List UInt8) := do
  let circuit ← parse text format
  let circuit2 ← lower memory circuit outputFormat
  writeCircuit root circuit2 outputFormat

end Convert

open SynCirc.Command.Convert

/-- What is read from a path. -/
theorem readInput_eq_ok {fs : FileSystem} {path : List UInt8} {input : Input}
    (h : readInput fs path = .ok input) :
  ∃ text, fs.handle (workingDir path) = some input.dir
    ∧ basename path
      = input.format.fileName (rootName (basename path) input.format.extension)
    ∧ fs.dir input.dir (basename path) = some text ∧ parse text input.format = .ok input.circuit
  := by
  rw [readInput, openDir] at h
  split at h
  case h_2 => contradiction
  case h_1 dir hdir =>
    rw [Outcome.ok_bind] at h
    split at h
    case h_1 => contradiction
    case h_2 format hformat =>
      obtain ⟨circuit, hread, h⟩ := Outcome.bind_eq_ok.mp h
      obtain rfl := Outcome.ok.inj h
      rw [readCircuit, openFile] at hread
      split at hread
      case h_2 => contradiction
      case h_1 text htext =>
        exact ⟨text, hdir, eq_fileName_of_classifyFileExt hformat, htext, hread⟩

/-- The output file belongs to a file of the same root name in the same directory. -/
theorem Convert.prepare_eq_ok {memory : Linearize.Memory} {args : List (List UInt8)}
    {fs : FileSystem} {file : OutputFile} (h : prepare memory args fs = .ok file) :
  ∃ root text, ∃ format : InputFormat, ∃ outputFormat circuit circuit2,
    fs.dir file.dir (format.fileName root) = some text
    ∧ parse text format = .ok circuit
    ∧ lower memory circuit outputFormat = .ok circuit2
    ∧ file.name = root ++ outputFormat.extension
    ∧ file.text = writeCircuit root circuit2 outputFormat
  := by
  obtain ⟨options, -, h⟩ := Outcome.bind_eq_ok.mp h
  split at h
  case h_1 => contradiction
  case h_2 path _ =>
    obtain ⟨input, hinput, h⟩ := Outcome.bind_eq_ok.mp h
    obtain ⟨circuit2, hlower, h⟩ := Outcome.bind_eq_ok.mp h
    obtain rfl := Outcome.ok.inj h
    obtain ⟨text, -, hname, htext, hparse⟩ := readInput_eq_ok hinput
    refine ⟨_, text, input.format, options.outputFormat, input.circuit, circuit2, ?_, hparse,
      hlower, rfl, rfl⟩
    rw [← hname]
    apply htext

/-- A conversion fails without any effect, or it writes the file of one root name with the converted
text of its file in another format, or it breaks off while it writes this file. -/
theorem Convert.run_cases (memory : Linearize.Memory) (leftover : List UInt8)
    (args : List (List UInt8)) (fs : FileSystem) :
  ((run memory leftover args fs).1 ≠ .ok () ∧ (run memory leftover args fs).2 = fs)
  ∨ ∃ dir root text, ∃ format : InputFormat, ∃ outputFormat circuit circuit2 contents,
    fs.dir dir (format.fileName root) = some text
    ∧ parse text format = .ok circuit
    ∧ lower memory circuit outputFormat = .ok circuit2
    ∧ (run memory leftover args fs).2
      = fs.writeFile dir (root ++ outputFormat.extension) contents
    ∧ (writeCircuit root circuit2 outputFormat = .ok contents
      ∨ ((∀ text', writeCircuit root circuit2 outputFormat ≠ .ok text')
        ∧ (run memory leftover args fs).1 ≠ .ok ()))
  := by
  rw [run]
  cases hprepare : prepare memory args fs with
  | error e => exact .inl ⟨nofun, rfl⟩
  | panic t => exact .inl ⟨nofun, rfl⟩
  | ok file =>
      right
      obtain ⟨root, text, format, outputFormat, circuit, circuit2, htext, hparse, hlower, hname,
        hwrite⟩ := prepare_eq_ok hprepare
      simp only [hwrite, hname]
      cases hcontents : writeCircuit root circuit2 outputFormat with
      | ok contents =>
          exact ⟨file.dir, root, text, format, outputFormat, circuit, circuit2, contents, htext,
            hparse, hlower, rfl, .inl hcontents⟩
      | error e =>
          refine ⟨file.dir, root, text, format, outputFormat, circuit, circuit2, leftover, htext,
            hparse, hlower, rfl, .inr ⟨?_, nofun⟩⟩
          rw [hcontents]
          exact fun _ => nofun
      | panic t =>
          refine ⟨file.dir, root, text, format, outputFormat, circuit, circuit2, leftover, htext,
            hparse, hlower, rfl, .inr ⟨?_, nofun⟩⟩
          rw [hcontents]
          exact fun _ => nofun

/-! ### Properties of the texts of a circuit -/

/-- A conversion with any arguments turns one file system into the other.  It succeeds, unless
conversions may fail. -/
def Converts (mayFail : Prop) (fs fs' : FileSystem) : Prop :=
  ∃ memory leftover args, (Convert.run memory leftover args fs).2 = fs'
    ∧ ((Convert.run memory leftover args fs).1 = .ok () ∨ mayFail)

/-- In the directory, every text of a circuit under the root name has a property. -/
def Holds (P : InputFormat → List UInt8 → Prop) (dir : Nat) (root : List UInt8)
    (fs : FileSystem) : Prop :=
  ∀ (format : InputFormat) text, fs.dir dir (format.fileName root) = some text → P format text

/-- Conversions keep a property of the texts of a circuit under the root name. -/
def KeptFor (P : InputFormat → List UInt8 → Prop) (root : List UInt8) : Prop :=
  ∀ memory format text outputFormat text' format', P format text →
    convertText memory root text format outputFormat = .ok text' →
    outputFormat.inputFormat = some format' → P format' text'

/-- No conversion of a text with the property under the root name breaks off while it writes a text
that can be read again. -/
def WrittenFor (P : InputFormat → List UInt8 → Prop) (root : List UInt8) : Prop :=
  ∀ memory format text outputFormat format' circuit circuit2, P format text →
    parse text format = .ok circuit → outputFormat.inputFormat = some format' →
    lower memory circuit outputFormat = .ok circuit2 →
    ∃ text', writeCircuit root circuit2 outputFormat = .ok text'

/-- The file of a root name and a format is written under this root name only, in this format. -/
theorem eq_of_append_extension {root root' : List UInt8} {format : InputFormat}
    {outputFormat : OutputFormat}
    (h : root' ++ outputFormat.extension = format.fileName root) :
  root' = root ∧ outputFormat.inputFormat = some format
  := by
  have hne : outputFormat.extension ≠ [] := by
    cases outputFormat <;> decide
  have hne' : format.extension ≠ [] := by
    cases format <;> decide
  have hlast := congrArg List.getLast? h
  rw [InputFormat.fileName, List.getLast?_append_of_ne_nil _ hne,
    List.getLast?_append_of_ne_nil _ hne'] at hlast
  have hformat : outputFormat.inputFormat = some format := by
    revert hlast
    cases outputFormat <;> cases format <;> decide
  have hextension : outputFormat.extension = format.extension := by
    revert hformat
    cases outputFormat <;> cases format <;> decide
  rw [hextension] at h
  exact ⟨List.append_cancel_right h, hformat⟩

variable {P : InputFormat → List UInt8 → Prop} {dir : Nat} {root : List UInt8} {mayFail : Prop}
  {fs fs' : FileSystem}

/-- A conversion keeps a property that is kept from text to text, if it does not break off while it
writes a text of the circuit. -/
theorem Holds.converts (hkept : KeptFor P root) (hwritten : mayFail → WrittenFor P root)
    (h : Holds P dir root fs) (hconverts : Converts mayFail fs fs') :
  Holds P dir root fs'
  := by
  obtain ⟨memory, leftover, args, rfl, hsucceeds⟩ := hconverts
  rcases Convert.run_cases memory leftover args fs with ⟨-, hrun⟩ | ⟨dir', root', text, format,
    outputFormat, circuit, circuit2, contents, htext, hparse, hlower, hrun, hwrite⟩
  · rw [hrun]
    apply h
  rw [hrun]
  intro format' text' htext'
  by_cases hfile : dir = dir' ∧ format'.fileName root = root' ++ outputFormat.extension
  case neg =>
    rw [not_and_or] at hfile
    rw [FileSystem.dir_writeFile_of_ne fs hfile] at htext'
    apply h format' text' htext'
  case pos =>
    obtain ⟨rfl, hname⟩ := hfile
    obtain ⟨rfl, hformat⟩ := eq_of_append_extension hname.symm
    rw [hname, FileSystem.dir_writeFile_self, Option.some.injEq] at htext'
    rw [← htext']
    have hP := h format text htext
    have hcontents : writeCircuit root' circuit2 outputFormat = .ok contents := by
      rcases hwrite with hwrite | ⟨hbreaks, hfails⟩
      · apply hwrite
      · obtain ⟨text'', htext''⟩ := hwritten (hsucceeds.resolve_left hfails) memory format text
          outputFormat format' circuit circuit2 hP hparse hformat hlower
        apply absurd htext'' (hbreaks text'')
    apply hkept memory format text outputFormat contents format' hP _ hformat
    rw [convertText, hparse, Outcome.ok_bind, hlower, Outcome.ok_bind]
    apply hcontents

/-- Any number of conversions keep it. -/
theorem Holds.converts_all (hkept : KeptFor P root) (hwritten : mayFail → WrittenFor P root)
    (h : Holds P dir root fs) (hconverts : Relation.ReflTransGen (Converts mayFail) fs fs') :
  Holds P dir root fs'
  := by
  induction hconverts with
  | refl => apply h
  | tail _ hstep ih => apply ih.converts hkept hwritten hstep

end Command

end SynCirc
