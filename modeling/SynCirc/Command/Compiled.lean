import SynCirc.Builder.Wired
import SynCirc.Command.Compile
import SynCirc.Command.Preservation

/-!
# The compiled circuit computes the function of the netlist

If the tools leave a closed design, the compiler builds a portable circuit that computes the
function of the top module (`Builder.IsClosedDesign.exists_portable`) and writes a text of it
(`Compile.exists_run_eq`).  So whatever conversions take place afterwards, `eval` prints the values
of the function for all texts of the circuit (`Compile.eval_compiled`).
-/

namespace SynCirc

open Zig

/-- The netlist is a closed design whose wires can be numbered in 64 bits and whose top module has
inputs and outputs. -/
structure Builder.IsClosedDesign (b : Builder) (modules : List (List UInt8 × Json))
    (top : Netlist.Module (List UInt8)) : Prop where
  modules_eq : b.modules = .ok modules
  design : Builder.Design modules b.torder b.topModule
  closed : Builder.Closed modules b.torder b.topModule
  wires : Builder.wireCount modules b.torder (modules.length + 1) b.topModule < 2 ^ 64
  read : Builder.readModule modules b.torder b.topModule = some top
  inputs_ne_nil : top.inputs ≠ []
  outputs_ne_nil : top.outputs ≠ []

namespace Builder

variable {b : Builder} {modules : List (List UInt8 × Json)}
  {top : Netlist.Module (List UInt8)}

/-- The circuit of a closed design is portable and computes the function of the top module. -/
theorem IsClosedDesign.exists_portable (h : b.IsClosedDesign modules top) :
  ∃ c, b.expansion = .ok c ∧ (∃ k, ∀ fuel ≥ k, b.build fuel = some (.ok c))
    ∧ c.Portable
    ∧ ((∀ m, Below modules b.topModule m → ¬ HasLut modules m) → c.LutFree)
    ∧ ∀ inputs, inputs.length = top.inputs.length → ∀ d > modules.length,
      evaluateCircuit c inputs
        = .ok (top.function (readModule modules b.torder) d b.topModule inputs)
  := by
  obtain ⟨_, _, _, _, hreads⟩ := readModule_eq_some h.read
  obtain ⟨l, hl⟩ := List.exists_mem_of_ne_nil _ h.inputs_ne_nil
  have hnets : (∃ l, HasLabel modules b.topModule l) ∨ top.cells ≠ [] :=
    .inl ⟨l, hreads.hasLabel_input hl⟩
  have hkeeps : KeepsAliases modules b.torder b.topModule :=
    fun m module hm hread => (h.closed m module hm hread).keepsAliases
  obtain ⟨top', hread', hwf⟩ := h.design.wellFormed b.topModule .refl
  rw [h.read, Option.some.injEq] at hread'
  rw [← hread'] at hwf
  obtain ⟨c, hbuild, hinputs, houtputs, hcounted, hrange, hwired, hfits, hlut⟩ :=
    h.design.exists_wired h.closed h.read hnets h.wires
  refine ⟨c, ?_, ?_, ⟨⟨hrange, ?_, ?_⟩, hfits, ?_, hwired.outputs_driven, hcounted⟩, hlut, ?_⟩
  · rw [expansion, h.modules_eq, Outcome.ok_bind, hbuild]
  · obtain ⟨k, hk⟩ := h.design.acyclic.exists_buildTopModule_eq b.torder b.topModule
    use k
    intro fuel hfuel
    rw [build, h.modules_eq, Hierarchy.after_ok, hk fuel hfuel, hbuild]
  · rw [hinputs]
    apply h.inputs_ne_nil
  · rw [hinputs]
    apply (List.nodup_append.mp hwf.nodup).1
  · rw [← List.length_pos_iff, houtputs, List.length_pos_iff]
    apply h.outputs_ne_nil
  · intro inputs hlength d hd
    obtain ⟨c', hbuild', heval⟩ :=
      h.design.exists_buildRecursively_eq hkeeps h.read hnets h.wires hd hlength
    rw [hbuild, Outcome.ok.injEq] at hbuild'
    rw [hbuild', heval]

end Builder

namespace Command

namespace Compile

/-! ### Files -/

theorem file_ne_fileName (c : Compilation) (format : Command.InputFormat) {extension : String}
    (hne : bytes extension ≠ format.extension) :
  c.file extension ≠ format.fileName c.rootName
  := by
  intro h
  apply hne (List.append_cancel_left h)

/-- No intermediate file has the name of a text of the circuit. -/
theorem notMem_intermediateFiles (c : Compilation) (format : Command.InputFormat) :
  format.fileName c.rootName ∉ c.intermediateFiles
  := by
  have hv : format.fileName c.rootName ≠ c.file ".v" := by
    apply (file_ne_fileName c format _).symm
    cases format <;> decide
  have hjson : format.fileName c.rootName ≠ c.file ".json" := by
    apply (file_ne_fileName c format _).symm
    cases format <;> decide
  have htorder : format.fileName c.rootName ≠ c.file ".torder" := by
    apply (file_ne_fileName c format _).symm
    cases format <;> decide
  rw [Compilation.intermediateFiles]
  split
  · apply List.not_mem_nil
  · split <;> simp [hv, hjson, htorder]

/-- Different files that exist can be deleted, and the other files stay as they are. -/
theorem exists_deleteFiles {dir : Dir} {names : List (List UInt8)} (hnodup : names.Nodup)
    (hfiles : ∀ name ∈ names, (dir name).isSome) :
  ∃ dir', deleteFiles dir names = .ok dir' ∧ ∀ name ∉ names, dir' name = dir name
  := by
  induction names generalizing dir with
  | nil => exact ⟨dir, rfl, fun _ _ => rfl⟩
  | cons name names ih =>
      rw [List.nodup_cons] at hnodup
      rw [List.forall_mem_cons] at hfiles
      have hother : ∀ name' ≠ name, Function.update dir name none name' = dir name' :=
        fun name' hne => Function.update_of_ne hne ..
      have hrest : ∀ name' ∈ names, (Function.update dir name none name').isSome := by
        intro name' hname'
        rw [hother name' (fun heq => hnodup.1 (heq ▸ hname'))]
        apply hfiles.2 name' hname'
      obtain ⟨dir', hdelete, hdir'⟩ := ih hnodup.2 hrest
      refine ⟨dir', ?_, ?_⟩
      · rw [deleteFiles, List.foldlM_cons, deleteFile, if_pos hfiles.1, Outcome.ok_bind]
        apply hdelete
      · intro name' hname'
        rw [List.mem_cons, not_or] at hname'
        rw [hdir' name' hname'.2, hother name' hname'.1]

/-- The files the tools leave, from which the circuit is built. -/
theorem netlist_eq_ok {tools : Tools} {c : Compilation} {dir dir' : Dir} {b : Builder}
    (h : c.netlist tools dir = .ok (dir', b)) :
  (dir' (c.file ".json")).isSome ∧ (dir' (c.file ".torder")).isSome
  := by
  have hfile : ∀ {name contents}, openFile dir' name = .ok contents → (dir' name).isSome := by
    intro name contents hopen
    rw [openFile, Outcome.mapError_eq_ok, Command.openFile] at hopen
    split at hopen
    case h_1 heq =>
      rw [heq]
      rfl
    case h_2 => contradiction
  obtain ⟨_, _, h⟩ := Outcome.bind_eq_ok.mp h
  obtain ⟨dir₁, _, h⟩ := Outcome.bind_eq_ok.mp h
  obtain ⟨root, hjson, h⟩ := Outcome.bind_eq_ok.mp h
  obtain ⟨contents, htorder, h⟩ := Outcome.bind_eq_ok.mp h
  obtain ⟨torder, _, h⟩ := Outcome.bind_eq_ok.mp h
  cases h
  obtain ⟨json, hjson, _⟩ := Outcome.bind_eq_ok.mp hjson
  exact ⟨hfile hjson, hfile htorder⟩

/-- The intermediate files that are deleted at the end are different and exist. -/
theorem intermediateFiles_exist {tools : Tools} {c : Compilation} {dir dir' : Dir} {b : Builder}
    (h : c.netlist tools dir = .ok (dir', b))
    (hverilog : c.file ".v" ∈ c.intermediateFiles → (dir' (c.file ".v")).isSome) :
  c.intermediateFiles.Nodup ∧ ∀ name ∈ c.intermediateFiles, (dir' name).isSome
  := by
  obtain ⟨hjson, htorder⟩ := netlist_eq_ok h
  have hne : ∀ {extension extension' : String}, bytes extension ≠ bytes extension' →
      c.file extension ≠ c.file extension' :=
    fun hne heq => hne (List.append_cancel_left heq)
  have hvj : c.file ".v" ≠ c.file ".json" := hne (by decide)
  have hvt : c.file ".v" ≠ c.file ".torder" := hne (by decide)
  have hjt : c.file ".json" ≠ c.file ".torder" := hne (by decide)
  rw [Compilation.intermediateFiles] at hverilog ⊢
  split
  case isTrue => simp
  case isFalse hkeep =>
    split
    case isTrue => simp [hjt, hjson, htorder]
    case isFalse htype =>
      rw [if_neg hkeep, if_neg htype] at hverilog
      simp [hvj, hvt, hjt, hjson, htorder, hverilog]

/-! ### The compiled circuit -/

variable {tools : Tools} {args : List (List UInt8)} {fs : FileSystem} {c : Compilation}
  {dir : Dir} {b : Builder} {modules : List (List UInt8 × Json)}
  {top : Netlist.Module (List UInt8)}

/-- The tools run in the directory of the input file. -/
theorem prepare_eq_ok (h : prepare tools args fs = .ok (c, dir, b)) :
  fs.handle (workingDir c.path) = some c.handle
    ∧ c.netlist tools (fs.dir c.handle) = .ok (dir, b)
  := by
  obtain ⟨c', hstart, h⟩ := Outcome.bind_eq_ok.mp h
  obtain ⟨⟨dir', b'⟩, hnetlist, h⟩ := Outcome.bind_eq_ok.mp h
  cases h
  refine ⟨?_, hnetlist⟩
  obtain ⟨options, _, hstart⟩ := Outcome.bind_eq_ok.mp hstart
  split at hstart
  case h_1 => contradiction
  case h_2 path _ =>
    split at hstart
    case isTrue => contradiction
    case isFalse =>
      obtain ⟨handle, hhandle, hstart⟩ := Outcome.bind_eq_ok.mp hstart
      split at hstart
      case h_1 => contradiction
      case h_2 format _ =>
        cases hstart
        rw [Outcome.mapError_eq_ok, openDir] at hhandle
        split at hhandle
        case h_1 heq =>
          cases hhandle
          apply heq
        case h_2 => contradiction

/-- The circuit can be written in the output format, and its text is one of a circuit with what
survives conversions. -/
theorem exists_emit {circuit : Circuit} (hportable : circuit.Portable)
    (hconvertible : c.options.outputFormat = .bristol → circuit.Convertible)
    (memory : Linearize.Memory) {R : Circuit → Prop} (hR : Survives R) (hcircuit : R circuit) :
  ∃ text, c.emit memory circuit = .ok text ∧ IsTextOf R c.outputFormat text
  := by
  rw [Compilation.emit, Compilation.outputFormat]
  cases hformat : c.options.outputFormat with
  | syncirc =>
      obtain ⟨text, htext⟩ := exists_emitSyncirc hportable
      exact ⟨text, by rw [htext]; rfl, hR.isTextOf_syncirc hportable hcircuit htext⟩
  | bristol =>
      obtain ⟨text, htext⟩ := exists_emitBristol hportable (hconvertible hformat) memory
      exact ⟨text, by rw [htext]; rfl, hR.isTextOf_bristol hportable hcircuit htext⟩

/-- With enough turns of the loop over the modules, the compiler writes a text of the circuit that
is built. -/
theorem exists_run_eq (hprepare : prepare tools args fs = .ok (c, dir, b))
    (hverilog : c.file ".v" ∈ c.intermediateFiles → (dir (c.file ".v")).isSome)
    {memory : Linearize.Memory} {circuit : Circuit} {text : List UInt8} {k : Nat}
    (hbuild : ∀ fuel ≥ k, b.build fuel = some (.ok circuit))
    (hemit : c.emit memory circuit = .ok text) :
  ∃ dir', dir' (c.outputFormat.fileName c.rootName) = some text
    ∧ (∀ format ≠ c.outputFormat,
      dir' (format.fileName c.rootName) = dir (format.fileName c.rootName))
    ∧ ∀ fuel ≥ k, run tools memory fuel args fs = some (.ok (fs.setDir c.handle dir'))
  := by
  obtain ⟨-, hnetlist⟩ := prepare_eq_ok hprepare
  obtain ⟨hnodup, hexist⟩ := intermediateFiles_exist hnetlist hverilog
  have hwritten : ∀ name ∈ c.intermediateFiles,
      (Function.update dir (c.outputFormat.fileName c.rootName) (some text) name).isSome := by
    intro name hname
    rw [Function.update_of_ne]
    · apply hexist name hname
    · rintro rfl
      apply notMem_intermediateFiles c c.outputFormat hname
  obtain ⟨dir', hdelete, hdir'⟩ := exists_deleteFiles hnodup hwritten
  refine ⟨dir', ?_, ?_, ?_⟩
  · rw [hdir' _ (notMem_intermediateFiles c c.outputFormat), Function.update_self]
  · intro format hformat
    have hne : format.fileName c.rootName ≠ c.outputFormat.fileName c.rootName := by
      intro heq
      have hclassify := congrArg Command.classifyFileExt heq
      rw [classifyFileExt_fileName, classifyFileExt_fileName, Option.some.injEq] at hclassify
      apply hformat hclassify
    rw [hdir' _ (notMem_intermediateFiles c format), Function.update_of_ne hne]
  · intro fuel hfuel
    rw [run, hprepare, Hierarchy.after_ok]
    simp only [hbuild fuel hfuel, Option.map_some, Outcome.mapError, Outcome.ok_bind,
      Compilation.finish, hemit, hdelete]
    rfl

/-- After a compilation and any conversions of its result, `eval` prints for every text of the
circuit whose lines fit in the buffer of the parser the values of the function of the top module.
Conversions may fail if the circuit is convertible, otherwise they succeed. -/
theorem eval_compiled (memory : Linearize.Memory)
    (hprepare : prepare tools args fs = .ok (c, dir, b))
    (h : b.IsClosedDesign modules top)
    (hlut : c.options.outputFormat = .bristol →
      ∀ m, Builder.Below modules b.topModule m → ¬ Builder.HasLut modules m)
    (hfit : c.options.outputFormat = .bristol →
      ∀ circuit, b.expansion = .ok circuit → circuit.wireBudget + 1 < 2 ^ 64)
    (hverilog : c.file ".v" ∈ c.intermediateFiles → (dir (c.file ".v")).isSome)
    (honly : ∀ format ≠ c.outputFormat, dir (format.fileName c.rootName) = none) :
  ∃ circuit text fs₁, b.expansion = .ok circuit ∧ c.emit memory circuit = .ok text
    ∧ (∃ k, ∀ fuel ≥ k, run tools memory fuel args fs = some (.ok fs₁))
    ∧ fs₁.handle = fs.handle ∧ fs₁.dir c.handle (c.outputFormat.fileName c.rootName) = some text
    ∧ ∀ fs₂, Relation.ReflTransGen (Converts circuit.Convertible) fs₁ fs₂ →
      ∀ path text, ∀ format : Command.InputFormat,
      fs₂.handle (workingDir path) = fs.handle (workingDir c.path) →
      basename path = format.fileName c.rootName →
      fs₂.dir c.handle (basename path) = some text → LinesFit format text →
      ∀ bits rawInputs, bits.length = top.inputs.length → rawInputs ≠ [] →
      rawInputs.flatten = Emit.formatTable bits → ∀ d > modules.length,
      Eval.run (path :: rawInputs) fs₂ = .ok (Eval.printOutputs
        (top.function (Builder.readModule modules b.torder) d b.topModule bits))
  := by
  obtain ⟨circuit, hexpansion, ⟨k, hk⟩, hportable, hfree, hcomputes⟩ := h.exists_portable
  have hconvertible : c.options.outputFormat = .bristol → circuit.Convertible :=
    fun hformat => ⟨hfree (hlut hformat), hfit hformat circuit hexpansion⟩
  have hR := (survives_function (evaluateCircuit circuit)).and
    (survives_convertible circuit.Convertible)
  obtain ⟨text₁, hemit, htext₁⟩ :=
    exists_emit hportable hconvertible memory hR ⟨fun _ => rfl, id⟩
  obtain ⟨dir₁, hwritten, hother, hrun⟩ := exists_run_eq hprepare hverilog hk hemit
  refine ⟨circuit, text₁, fs.setDir c.handle dir₁, hexpansion, hemit, ⟨k, hrun⟩, rfl, ?_, ?_⟩
  · rw [FileSystem.dir_setDir_self]
    apply hwritten
  intro fs₂ hconverts path text format hpath hname htext hlines bits rawInputs hlength hne hbits
    d hd
  have hholds : Holds (IsTextOf (fun c => (∀ x, evaluateCircuit c x = evaluateCircuit circuit x)
      ∧ (circuit.Convertible → c.Convertible))) c.handle c.rootName
      (fs.setDir c.handle dir₁) := by
    intro format' text' htext'
    rw [FileSystem.dir_setDir_self] at htext'
    by_cases hformat : format' = c.outputFormat
    · rw [hformat, hwritten, Option.some.injEq] at htext'
      rw [hformat, ← htext']
      apply htext₁
    · rw [hother format' hformat, honly format' hformat] at htext'
      contradiction
  have hisText := hholds.converts_all (hR.keptFor c.rootName)
    (fun hconvertible => writtenFor_isTextOf (fun c hc => hc.2 hconvertible) _) hconverts format
    text (hname ▸ htext)
  obtain ⟨circuit₂, hparse⟩ := hisText.readable hlines
  obtain ⟨-, hfunction, -⟩ := hisText.portable circuit₂ hparse
  have heval := hfunction bits
  rw [hcomputes bits hlength d hd] at heval
  rw [(prepare_eq_ok hprepare).1] at hpath
  apply Eval.run_eq_ok (exists_readInput hpath hname htext hparse) heval hne hbits

/-- Tools that leave the netlist of the full adder. -/
def adderTools : Tools where
  cxxToVerilog := fun _ _ _ _ _ _ _ dir => .ok dir
  verilogToJson := fun _ jsonFilePath torderFilePath _ _ _ dir =>
    .ok (Function.update (Function.update dir jsonFilePath (some [])) torderFilePath (some
      (Torder.render (bytes "1. Executing TORDER pass (print cells in topological order).")
        Builder.adder.torder)))
  parseJson := fun _ => some Builder.adder.root

/-- A directory with a Verilog file. -/
def adderDir : Dir := Function.update (fun _ => none) (bytes "adder.v") (some [])

/-- A file system with this directory. -/
def adderFiles : FileSystem where
  handle := fun path => if path = bytes "." then some 0 else none
  dir := fun _ => adderDir

/-- The compilation of the full adder. -/
def adderCompilation : Compilation where
  options := { defaultOptions with
    inputFilePath := some (bytes "adder.v")
    topLevelFnModule := bytes "full" }
  path := bytes "adder.v"
  handle := 0
  inputFileType := .verilog
  rootName := bytes "adder"

/-- The directory after the tools have run. -/
def adderDir₁ : Dir :=
  Function.update (Function.update adderDir (bytes "adder.json") (some [])) (bytes "adder.torder")
    (some (Torder.render (bytes "1. Executing TORDER pass (print cells in topological order).")
      Builder.adder.torder))

theorem prepare_adder :
  prepare adderTools [bytes "-t", bytes "full", bytes "adder.v"] adderFiles
    = .ok (adderCompilation, adderDir₁, Builder.adder)
  := by
  have hstart : start [bytes "-t", bytes "full", bytes "adder.v"] adderFiles
      = .ok adderCompilation := rfl
  have htorder : parseTorder (Torder.render
      (bytes "1. Executing TORDER pass (print cells in topological order).") Builder.adder.torder)
      = .ok Builder.adder.torder := by decide +kernel
  have hnetlist : adderCompilation.netlist adderTools adderDir
      = .ok (adderDir₁, Builder.adder) := by
    have hyosys : execute "yosys execution error: " (adderTools.verilogToJson (bytes "adder.v")
        (bytes "adder.json") (bytes "adder.torder") (bytes "full") .manual none adderDir)
        = .ok adderDir₁ := rfl
    have hjson : adderCompilation.parseJson adderTools adderDir₁ = .ok Builder.adder.root := rfl
    have hopen : openFile adderDir₁ (bytes "adder.torder") = .ok (Torder.render
        (bytes "1. Executing TORDER pass (print cells in topological order).")
        Builder.adder.torder) := rfl
    have hsynthesize : adderCompilation.synthesize adderTools adderDir = .ok adderDir := rfl
    rw [Compilation.netlist, hsynthesize, Outcome.ok_bind]
    refine (congrArg (· >>= _) hyosys).trans ?_
    simp only [Outcome.ok_bind, hjson]
    refine (congrArg (· >>= _) hopen).trans ?_
    simp only [Outcome.ok_bind, htorder]
    rfl
  have hdir : adderFiles.dir adderCompilation.handle = adderDir := rfl
  rw [prepare, hstart, Outcome.ok_bind, hdir]
  simp only [hnetlist]
  rfl

/-- The full adder is a closed design. -/
theorem isClosedDesign_adder :
  Builder.adder.IsClosedDesign Builder.adderModules Builder.adderTop
  := by
  refine ⟨rfl, Builder.design_adder, Builder.closed_adder, Builder.wireCount_adder, rfl, ?_, ?_⟩
  · apply List.cons_ne_nil
  · apply List.cons_ne_nil

theorem not_hasLut_adder :
  ∀ m, Builder.Below Builder.adderModules Builder.adder.topModule m →
    ¬ Builder.HasLut Builder.adderModules m
  := by
  rintro m hm ⟨cell, cellType, hcell, hlut⟩
  have hnone : ∀ entry ∈ Builder.adderModules,
      ∀ t ∈ Builder.cellTypes Builder.adderModules entry.1, Builder.gateType t ≠ some .lut := by
    decide +kernel
  obtain ⟨entry, hentry, rfl⟩ := Builder.mem_of_below (by decide +kernel) hm
  apply hnone entry hentry cellType hcell.mem_cellTypes hlut

/-- The circuit of the full adder. -/
def adderCircuit : Circuit where
  nodes := [.zero 0, .one 1, .xor 2 3 7, .and 2 3 8, .xor 7 4 5, .and 7 4 9, .xor 8 9 6]
  luts := []
  inputs := [2, 3, 4]
  outputs := [5, 6]
  lutTables := []
  maxWireNumber := 21

/-- The text of the full adder in the Bristol format. -/
def adderBristol : List UInt8 :=
  bytes ("9 24\n3 2\n\n1 1 0 3 INV\n2 1 0 3 4 AND\n1 1 0 5 INV\n2 1 0 5 6 XOR\n"
    ++ "2 1 0 1 7 XOR\n2 1 0 1 8 AND\n2 1 7 2 22 XOR\n2 1 7 2 9 AND\n2 1 8 9 23 XOR\n")

/-- The full adder is compiled, and its text is evaluated. -/
theorem eval_compiled_adder :
  ∃ fs₁, (∃ k, ∀ fuel ≥ k, run adderTools (.filled 0) fuel
      [bytes "-t", bytes "full", bytes "adder.v"] adderFiles = some (.ok fs₁))
    ∧ Eval.run [bytes "adder.bristol", bytes "110"] fs₁ = .ok (bytes "01\n")
  := by
  have hexpansion : Builder.adder.expansion = .ok adderCircuit := rfl
  have hemit : adderCompilation.emit (.filled 0) adderCircuit = .ok adderBristol := by
    have hbristol : emitBristol (.filled 0) adderCircuit = .ok adderBristol := by decide +kernel
    rw [Compilation.emit]
    simp only [adderCompilation, defaultOptions, hbristol]
    rfl
  obtain ⟨circuit, text, fs₁, hcircuit, htext, hrun, hhandle, hwritten, heval⟩ :=
    eval_compiled (.filled 0) prepare_adder isClosedDesign_adder
      (fun _ => not_hasLut_adder)
      (by
        intro _ circuit hcircuit
        rw [hexpansion, Outcome.ok.injEq] at hcircuit
        rw [← hcircuit]
        decide)
      (by decide)
      (by
        intro format hformat
        cases format with
        | bristol => contradiction
        | syncirc => rfl)
  rw [hexpansion, Outcome.ok.injEq] at hcircuit
  rw [← hcircuit, hemit, Outcome.ok.injEq] at htext
  rw [← htext] at hwritten
  refine ⟨fs₁, hrun, ?_⟩
  have hpath : workingDir (bytes "adder.bristol") = workingDir adderCompilation.path := by decide
  have hlines : LinesFit .bristol adderBristol := by
    rw [LinesFit]
    decide +kernel
  have hname : basename (bytes "adder.bristol")
      = InputFormat.bristol.fileName adderCompilation.rootName := by decide
  rw [heval fs₁ .refl (bytes "adder.bristol") adderBristol .bristol (by rw [hhandle, hpath])
    hname (hname ▸ hwritten) hlines [true, true, false] [bytes "110"] rfl (List.cons_ne_nil _ _)
    (by decide) 3 (by decide)]
  rfl

end Compile

end Command

end SynCirc
