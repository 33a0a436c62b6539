import SynCirc.Command.Convert
import SynCirc.Builder.Basic
import SynCirc.Torder

/-!
# The compiler

The compiler runs external tools on a C, C++ or Verilog file, which leave a netlist and the order of
its cells in the directory of the file, builds the circuit of the netlist, and writes it under the
root name of the file.  The tools, and the JSON parser of the standard library, are parameters
(`Tools`).  A compilation that fails returns its error only; what the tools, the deletions and the
emission have left in the directory by then is not part of the model.
-/

namespace Zig

/-- Run the program, or another one if it returns an error. -/
def Outcome.catchError {ε ε' α : Type} (x : Outcome ε α) (handler : Outcome ε' α) : Outcome ε' α :=
  match x with
  | .ok a => .ok a
  | .error _ => handler
  | .panic t => .panic t

end Zig

namespace SynCirc

open Zig

namespace Command

namespace Compile

/-- How the compiler fails. -/
inductive Error where
  | command (e : Command.Error)
  | parseJson
  | fileTooBig
  | torder (e : Torder.Error)
  | build (e : Builder.Error)
  | deleteFile (name : List UInt8)

/-- Log a message and exit. -/
def fatal {α : Type} (msg : List UInt8) : Outcome Error α := .error (.command (.fatal msg))

/-! ### Options -/

inductive InputFormat where
  | c
  | cxx
  | verilog
  deriving DecidableEq, Repr

inductive OutputFormat where
  | syncirc
  | bristol
  deriving DecidableEq, Repr

inductive SynthesisScript where
  | synth
  | manual
  deriving DecidableEq, Repr

def classifyFileExt (fileName : List UInt8) : Option InputFormat :=
  if bytes ".c" <:+ fileName then some .c
  else if bytes ".cpp" <:+ fileName then some .cxx
  else if bytes ".v" <:+ fileName then some .verilog
  else none

/-- The extension that is cut off.  That of C++ files has the length of the one that is looked
for. -/
def InputFormat.extension : InputFormat → List UInt8
  | .c => bytes ".c"
  | .cxx => bytes ".cxx"
  | .verilog => bytes ".v"

/-- The output format with the given name. -/
def OutputFormat.ofString (str : List UInt8) : Option OutputFormat :=
  if str = bytes "syncirc" then some .syncirc
  else if str = bytes "bristol" then some .bristol
  else none

/-- The script with the given name. -/
def SynthesisScript.ofString (str : List UInt8) : Option SynthesisScript :=
  if str = bytes "synth" then some .synth
  else if str = bytes "manual" then some .manual
  else none

structure Options where
  inputFilePath : Option (List UInt8)
  keepIntermediateFiles : Bool
  verbose : Bool
  script : SynthesisScript
  pubLutSize : Option Nat
  topLevelFnModule : List UInt8
  loopBound : Nat
  outputFormat : OutputFormat
  includeDirs : List (List UInt8)

/-- The options without any argument. -/
def defaultOptions : Options where
  inputFilePath := none
  keepIntermediateFiles := false
  verbose := false
  script := .manual
  pubLutSize := none
  topLevelFnModule := bytes "main"
  loopBound := 10000
  outputFormat := .bristol
  includeDirs := []

/-- The parameters that take a value. -/
def parameters : List (List UInt8) :=
  [bytes "-s", bytes "-L", bytes "-t", bytes "-I", bytes "--loop-bound", bytes "-f"]

/-- The options with the value of a parameter.  The bound of the loops is read as a byte. -/
def parseValue (options : Options) (arg value : List UInt8) : Outcome Error Options :=
  if bytes "-s" = arg then
    match SynthesisScript.ofString value with
    | some script => .ok { options with script := script }
    | none => fatal (bytes "invalid script '" ++ value ++ bytes "'")
  else if bytes "-L" = arg then do
    let size ← (parseInt 10 (2 ^ 8) value).catchError
      (fatal (bytes "invalid LUT size '" ++ value ++ bytes "'"))
    return { options with pubLutSize := some size }
  else if bytes "-t" = arg then .ok { options with topLevelFnModule := value }
  else if bytes "-I" = arg then .ok { options with includeDirs := options.includeDirs ++ [value] }
  else if bytes "--loop-bound" = arg then do
    let bound ← (parseInt 10 (2 ^ 8) value).catchError
      (fatal (bytes "invalid loop bound size '" ++ value ++ bytes "'"))
    return { options with loopBound := bound }
  else
    match OutputFormat.ofString value with
    | some format => .ok { options with outputFormat := format }
    | none => fatal (bytes "invalid output format '" ++ value ++ bytes "'")

def parseArgs (options : Options) : List (List UInt8) → Outcome Error Options
  | [] => .ok options
  | arg :: args =>
      if bytes "-h" = arg ∨ bytes "--help" = arg then .error (.command .usage)
      else if bytes "-k" = arg then parseArgs { options with keepIntermediateFiles := true } args
      else if bytes "-v" = arg then parseArgs { options with verbose := true } args
      else if arg ∈ parameters then
        match args with
        | [] => fatal (bytes "expected parameter after '" ++ arg ++ bytes "'")
        | value :: args => do
            let options ← parseValue options arg value
            parseArgs options args
      else if options.inputFilePath = none ∧ ¬ bytes "-" <+: arg then
        parseArgs { options with inputFilePath := some arg } args
      else fatal (bytes "unrecognized parameter: '" ++ arg ++ bytes "'")

/-! ### Files -/

/-- The largest size of a file with a netlist. -/
def maxJsonSize : Nat := 4 * 1024 * 1024 * 1024

/-- What the compiler calls that is not part of it.  A tool changes the directory it works in, or
fails with an error of the given name. -/
structure Tools where
  cxxToVerilog :
    (cxxFilePath irFilePath optIrFilePath verilogFilePath topLevelFnModule : List UInt8) →
    (includeDirs : List (List UInt8)) → (loopBound : Nat) → Dir → Except (List UInt8) Dir
  verilogToJson : (verilogFilePath jsonFilePath torderFilePath topLevelModule : List UInt8) →
    SynthesisScript → (pubLutSize : Option Nat) → Dir → Except (List UInt8) Dir
  parseJson : List UInt8 → Option Json

/-- The directory after a tool has run, or a message. -/
def execute (msg : String) : Except (List UInt8) Dir → Outcome Error Dir
  | .ok dir => .ok dir
  | .error name => fatal (bytes msg ++ name)

def openFile (dir : Dir) (name : List UInt8) : Outcome Error (List UInt8) :=
  (Command.openFile dir name).mapError .command

def deleteFile (dir : Dir) (name : List UInt8) : Outcome Error Dir :=
  if (dir name).isSome then .ok (Function.update dir name none) else .error (.deleteFile name)

/-- Delete the files with the given names. -/
def deleteFiles (dir : Dir) (names : List (List UInt8)) : Outcome Error Dir :=
  names.foldlM deleteFile dir

/-! ### The netlist -/

/-- A compilation: its options, the path of the input file, and its directory, format and root
name. -/
structure Compilation where
  options : Options
  path : List UInt8
  handle : Nat
  inputFileType : InputFormat
  rootName : List UInt8

/-- The compilation with the given arguments. -/
def start (args : List (List UInt8)) (fs : FileSystem) : Outcome Error Compilation := do
  let options ← parseArgs defaultOptions args
  match options.inputFilePath with
  | none => fatal (bytes "no input file provided")
  | some path =>
      if options.pubLutSize ≠ none ∧ options.outputFormat = .bristol then
        fatal (bytes "cannot output bristol files using LUTs")
      else do
        let handle ← (openDir fs (workingDir path)).mapError .command
        match classifyFileExt (basename path) with
        | none => fatal (bytes "unrecognized input file type")
        | some format =>
            return ⟨options, path, handle, format, rootName (basename path) format.extension⟩

namespace Compilation

variable (tools : Tools) (c : Compilation)

/-- The name of the file with the root name and the given extension. -/
def file (extension : String) : List UInt8 := c.rootName ++ bytes extension

/-- The directory after high-level synthesis, which leaves a Verilog file. -/
def synthesize (dir : Dir) : Outcome Error Dir :=
  match c.inputFileType with
  | .verilog => .ok dir
  | _ => do
      let dir ← execute "xls execution error: " (tools.cxxToVerilog (basename c.path)
        (c.file ".ir") (c.file ".opt.ir") (c.file ".v") c.options.topLevelFnModule
        c.options.includeDirs c.options.loopBound dir)
      if c.options.keepIntermediateFiles then return dir else
      deleteFiles dir [c.file ".ir", c.file ".opt.ir"]

def parseJson (dir : Dir) : Outcome Error Json := do
  let contents ← openFile dir (c.file ".json")
  if maxJsonSize < contents.length then .error .fileTooBig else
  match tools.parseJson contents with
  | some root => .ok root
  | none => .error .parseJson

/-- The directory after the tools have run, and the netlist they leave. -/
def netlist (dir : Dir) : Outcome Error (Dir × Builder) := do
  let dir ← c.synthesize tools dir
  let dir ← execute "yosys execution error: " (tools.verilogToJson (c.file ".v") (c.file ".json")
    (c.file ".torder") c.options.topLevelFnModule c.options.script c.options.pubLutSize dir)
  let root ← c.parseJson tools dir
  let contents ← openFile dir (c.file ".torder")
  let torder ← (parseTorder contents).mapError .torder
  return (dir, ⟨root, torder, c.options.topLevelFnModule⟩)

/-- The format of the circuit that is written. -/
def outputFormat : Command.InputFormat :=
  match c.options.outputFormat with
  | .syncirc => .syncirc
  | .bristol => .bristol

/-- The text of a circuit in the output format. -/
def emit (memory : Linearize.Memory) (circuit : Circuit) : Outcome Error (List UInt8) :=
  match c.options.outputFormat with
  | .syncirc => (emitSyncirc circuit).mapError .command
  | .bristol => (emitBristol memory circuit).mapError .command

/-- The intermediate files that are deleted at the end. -/
def intermediateFiles : List (List UInt8) :=
  if c.options.keepIntermediateFiles then []
  else (if c.inputFileType = .verilog then [] else [c.file ".v"])
    ++ [c.file ".json", c.file ".torder"]

/-- The file system after the circuit has been written and intermediate files have been deleted. -/
def finish (memory : Linearize.Memory) (fs : FileSystem) (dir : Dir) (circuit : Circuit) :
    Outcome Error FileSystem := do
  let text ← c.emit memory circuit
  let dir := Function.update dir (c.outputFormat.fileName c.rootName) (some text)
  let dir ← deleteFiles dir c.intermediateFiles
  return fs.setDir c.handle dir

end Compilation

/-- The compilation with the given arguments, the directory after the tools have run, and the
netlist they leave. -/
def prepare (tools : Tools) (args : List (List UInt8)) (fs : FileSystem) :
    Outcome Error (Compilation × Dir × Builder) := do
  let c ← start args fs
  let (dir, builder) ← c.netlist tools (fs.dir c.handle)
  return (c, dir, builder)

/-- The file system after a compilation with the given arguments, with at most `fuel` turns of the
loop over the modules of the netlist, or nothing if they do not suffice. -/
def run (tools : Tools) (memory : Linearize.Memory) (fuel : Nat) (args : List (List UInt8))
    (fs : FileSystem) : Option (Outcome Error FileSystem) :=
  Hierarchy.after (prepare tools args fs) fun (c, dir, builder) =>
    (builder.build fuel).map
      (fun circuit => circuit.mapError .build >>= c.finish memory fs dir)

end Compile

end Command

end SynCirc
