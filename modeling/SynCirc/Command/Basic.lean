import SynCirc.WordSize
import SynCirc.EmitVerilog
import SynCirc.DepthAnalysis.Basic

/-!
# The commands

`convert`, `eval`, `stats` and the compiler are programs over a file system: they open the directory
of their input file, tell its format by its extension, and read and write files of that directory.
A file system gives the directory that is opened at a path, and the contents of the files of a
directory, by name.  Several paths may open one directory; two names are two files.

The arguments of a command are those after its name.  A file can always be created and written, and
there is memory for everything that is read.
-/

namespace Zig

/-- The separator of the components of a path. -/
def slash : UInt8 := 47

/-- The path without the slashes at its end. -/
def stripSlashes (path : List UInt8) : List UInt8 :=
  (path.reverse.dropWhile (· == slash)).reverse

/-- The last component of a path. -/
def basename (path : List UInt8) : List UInt8 :=
  ((stripSlashes path).reverse.takeWhile (· != slash)).reverse

/-- What stands before the last component of a path, or nothing if the path has one component. -/
def dirname (path : List UInt8) : Option (List UInt8) :=
  match (stripSlashes path).reverse.dropWhile (· != slash) with
  | [] => none
  | [_] => some [slash]
  | _ :: dir => some dir.reverse

end Zig

namespace SynCirc

open Zig

/-- The contents of the files of a directory. -/
abbrev Dir := List UInt8 → Option (List UInt8)

/-- The directories, by number, and the number of the one that is opened at a path. -/
structure FileSystem where
  handle : List UInt8 → Option Nat
  dir : Nat → Dir

namespace FileSystem

/-- The file system with other files in a directory. -/
def setDir (fs : FileSystem) (i : Nat) (dir : Dir) : FileSystem :=
  { fs with dir := Function.update fs.dir i dir }

/-- Create a file of a directory, or overwrite it. -/
def writeFile (fs : FileSystem) (i : Nat) (name contents : List UInt8) : FileSystem :=
  fs.setDir i (Function.update (fs.dir i) name (some contents))

variable (fs : FileSystem)

@[simp]
theorem dir_setDir_self (i : Nat) (dir : Dir) :
  (fs.setDir i dir).dir i = dir
  := Function.update_self ..

theorem dir_setDir_of_ne {i j : Nat} (h : j ≠ i) (dir : Dir) :
  (fs.setDir i dir).dir j = fs.dir j
  := Function.update_of_ne h ..

/-- The file that is written. -/
@[simp]
theorem dir_writeFile_self (i : Nat) (name contents : List UInt8) :
  (fs.writeFile i name contents).dir i name = some contents
  := by
  rw [writeFile, dir_setDir_self, Function.update_self]

/-- All other files stay as they are. -/
theorem dir_writeFile_of_ne {i j : Nat} {name name' : List UInt8} (h : j ≠ i ∨ name' ≠ name)
    (contents : List UInt8) :
  (fs.writeFile i name contents).dir j name' = fs.dir j name'
  := by
  by_cases hj : j = i
  · rw [hj, writeFile, dir_setDir_self, Function.update_of_ne (h.resolve_left (not_not.mpr hj))]
  · rw [writeFile, dir_setDir_of_ne fs hj]

end FileSystem

namespace Command

/-- How a command fails. -/
inductive Error where
  | usage
  | fatal (msg : List UInt8)
  | openDir (path : List UInt8)
  | openFile (name : List UInt8)
  | parseBristol (e : BristolParser.Error)
  | parseCircuit (e : Parser.Error)
  | evaluate (e : EvalCircuit.Error)
  | analyzeDepth (e : DepthAnalysis.Error)
  | emitBristol (e : EmitBristol.Error)
  | emitVerilog (e : EmitVerilog.Error)
  | linearize (e : Linearize.Error)
  deriving DecidableEq, Repr

/-- Log a message and exit. -/
def fatal {α : Type} (msg : List UInt8) : Outcome Error α := .error (.fatal msg)

/-! ### Files -/

/-- The formats of the input files of `convert`, `eval` and `stats`. -/
inductive InputFormat where
  | bristol
  | syncirc
  deriving DecidableEq, Repr

/-- The extension of the files of a format. -/
def InputFormat.extension : InputFormat → List UInt8
  | .bristol => bytes ".bristol"
  | .syncirc => bytes ".syncirc"

def classifyFileExt (fileName : List UInt8) : Option InputFormat :=
  if bytes ".bristol" <:+ fileName then some .bristol
  else if bytes ".syncirc" <:+ fileName then some .syncirc
  else none

/-- The name of a file without its extension. -/
def rootName (fileName extension : List UInt8) : List UInt8 :=
  fileName.take (fileName.length - extension.length)

/-- The directory of a file. -/
def workingDir (path : List UInt8) : List UInt8 := (dirname path).getD (bytes ".")

def openDir (fs : FileSystem) (path : List UInt8) : Outcome Error Nat :=
  match fs.handle path with
  | some dir => .ok dir
  | none => .error (.openDir path)

def openFile (dir : Dir) (name : List UInt8) : Outcome Error (List UInt8) :=
  match dir name with
  | some contents => .ok contents
  | none => .error (.openFile name)

/-- The circuit in a text of a format. -/
def parse (text : List UInt8) : InputFormat → Outcome Error Circuit
  | .bristol => (parseBristol text).mapError .parseBristol
  | .syncirc => (parseCircuit text).mapError .parseCircuit

/-- The circuit in a file. -/
def readCircuit (dir : Dir) (name : List UInt8) (format : InputFormat) :
    Outcome Error Circuit := do
  let text ← openFile dir name
  parse text format

/-- An input file that has been read. -/
structure Input where
  dir : Nat
  format : InputFormat
  circuit : Circuit

/-- Read the circuit at a path. -/
def readInput (fs : FileSystem) (path : List UInt8) : Outcome Error Input := do
  let dir ← openDir fs (workingDir path)
  match classifyFileExt (basename path) with
  | none => fatal (bytes "unrecognized input file type")
  | some format => do
      let circuit ← readCircuit (fs.dir dir) (basename path) format
      return ⟨dir, format, circuit⟩

/-! ### Texts of circuits -/

/-- The text of a circuit in the SynCirc format. -/
def emitSyncirc (circuit : Circuit) : Outcome Error (List UInt8) :=
  (Emit.writeCircuit circuit none).mapError Empty.elim

/-- The text of a circuit in the Bristol format. -/
def emitBristol (memory : Linearize.Memory) (circuit : Circuit) : Outcome Error (List UInt8) := do
  let circuit2 ← (Linearize.run memory circuit).mapError .linearize
  (EmitBristol.writeCircuit circuit2 none).mapError .emitBristol

/-! ### File names -/

/-- The name of the file of a format. -/
def InputFormat.fileName (format : InputFormat) (root : List UInt8) : List UInt8 :=
  root ++ format.extension

theorem length_extension (format : InputFormat) :
  format.extension.length = 8
  := by
  cases format <;> decide

/-- The extension tells the format. -/
theorem classifyFileExt_fileName (format : InputFormat) (root : List UInt8) :
  classifyFileExt (format.fileName root) = some format
  := by
  cases format with
  | bristol =>
      have hsuffix : bytes ".bristol" <:+ InputFormat.bristol.fileName root :=
        List.suffix_append _ _
      rw [classifyFileExt, if_pos hsuffix]
  | syncirc =>
      have hsuffix : bytes ".syncirc" <:+ InputFormat.syncirc.fileName root :=
        List.suffix_append _ _
      have hother : ¬ bytes ".bristol" <:+ InputFormat.syncirc.fileName root := by
        intro hsuffix
        have hdrop := List.suffix_iff_eq_drop.mp hsuffix
        rw [InputFormat.fileName, List.length_append, length_extension,
          show (bytes ".bristol").length = 8 by decide, Nat.add_sub_cancel, List.drop_left] at hdrop
        revert hdrop
        decide
      rw [classifyFileExt, if_neg hother, if_pos hsuffix]

theorem rootName_append (root extension : List UInt8) :
  rootName (root ++ extension) extension = root
  := by
  rw [rootName, List.length_append, Nat.add_sub_cancel, List.take_left]

/-- A file with a known extension is that of its root in the format. -/
theorem eq_fileName_of_classifyFileExt {name : List UInt8} {format : InputFormat}
    (h : classifyFileExt name = some format) :
  name = format.fileName (rootName name format.extension)
  := by
  have hsuffix : format.extension <:+ name := by
    rw [classifyFileExt] at h
    split at h
    case isTrue hsuffix =>
      cases h
      apply hsuffix
    case isFalse =>
      split at h
      case isTrue hsuffix =>
        cases h
        apply hsuffix
      case isFalse => contradiction
  obtain ⟨root, rfl⟩ := hsuffix
  rw [rootName_append]
  rfl

end Command

end SynCirc
