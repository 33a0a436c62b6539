import SynCirc.Zig.Text

/-!
# The order of the cells

The order in which the cells of a module are built is read from what a pass of the synthesis tool
prints: an empty line, a line that ends in the name of the pass, and then, for each module, a line
with its name and a line for each of its cells.

The parser collects the cells of the current module and puts them into a map when the next module
begins or the stream ends.
-/

namespace SynCirc

open Zig

namespace Torder

/-- The cells of the modules, in order. -/
abbrev Modules := List (List UInt8 × List (List UInt8))

inductive Error where
  | torderParseError
  | streamTooLong
  deriving DecidableEq, Repr

def expectedDebugLine : List UInt8 :=
  bytes "Executing TORDER pass (print cells in topological order)."

def modulePrefix : List UInt8 := bytes "module "

def cellPrefix : List UInt8 := bytes "  cell "

/-- The length of the buffer for a line and its line break. -/
def bufLen : Nat := 4096

/-- The map with a value put under a key, in place of the one there was. -/
def put (modules : Modules) (name : List UInt8) (cells : List (List UInt8)) : Modules :=
  modules.filter (fun m => m.1 ≠ name) ++ [(name, cells)]

/-- A line that fits into the buffer. -/
def checkLine (line : List UInt8) : Outcome Error (List UInt8) :=
  if bufLen ≤ line.length then .error .streamTooLong else .ok line

/-- The next line, which has to exist, and the lines after it. -/
def nextLine : List (List UInt8) → Outcome Error (List UInt8 × List (List UInt8))
  | [] => .panic .nullUnwrap
  | line :: ls => do
      let line ← checkLine line
      return (line, ls)

/-- The state of the parser: the modules that are finished, and the current one. -/
structure State where
  modules : Modules
  currentModuleName : List UInt8
  currentCellList : List (List UInt8)

/-- Finish the current module. -/
def State.finish (s : State) : Modules := put s.modules s.currentModuleName s.currentCellList

/-- One line of the modules. -/
def parseLine (s : State) (line : List UInt8) : Outcome Error State := do
  let line ← checkLine line
  if modulePrefix <+: line then
    return ⟨s.finish, line.drop modulePrefix.length, []⟩
  else if cellPrefix <+: line then
    return { s with currentCellList := s.currentCellList ++ [line.drop cellPrefix.length] }
  else .error .torderParseError

end Torder

open Torder

/-- The order of the cells read from a stream. -/
def parseTorder (text : List UInt8) : Outcome Torder.Error Modules := do
  let (emptyLine, ls) ← nextLine (lines text)
  if emptyLine.length > 0 then .error .torderParseError else
  let (debugLine, ls) ← nextLine ls
  if ¬ expectedDebugLine <:+ debugLine then .error .torderParseError else
  let (line, ls) ← nextLine ls
  if ¬ modulePrefix <+: line then .error .torderParseError else
  let s ← ls.foldlM parseLine ⟨[], line.drop modulePrefix.length, []⟩
  return s.finish

namespace Torder

/-! ### Printed modules -/

/-- The line of a module. -/
def moduleLine (name : List UInt8) : List UInt8 := modulePrefix ++ name

/-- The line of a cell. -/
def cellLine (name : List UInt8) : List UInt8 := cellPrefix ++ name

/-- The lines of a module and its cells. -/
def moduleLines (m : List UInt8 × List (List UInt8)) : List (List UInt8) :=
  moduleLine m.1 :: m.2.map cellLine

/-- The text of lines. -/
def unlines (ls : List (List UInt8)) : List UInt8 := ls.flatMap fun l => l ++ [newline]

/-- What the pass prints, with `debugLine` for the name of the pass. -/
def render (debugLine : List UInt8) (modules : Modules) : List UInt8 :=
  unlines ([] :: debugLine :: modules.flatMap moduleLines)

/-- The line and its line break fit into the buffer. -/
def Fits (line : List UInt8) : Prop := line.length < bufLen

instance (line : List UInt8) : Decidable (Fits line) := inferInstanceAs (Decidable (_ < _))

/-! ### The lines of the modules -/

theorem checkLine_of_fits {line : List UInt8} (h : Fits line) :
  checkLine line = .ok line
  := if_neg (Nat.not_le.mpr h)

theorem not_modulePrefix_cellLine (name : List UInt8) :
  ¬ modulePrefix <+: cellLine name
  := by
  rintro ⟨rest, h⟩
  have hhead : some (109 : UInt8) = some 32 := congrArg List.head? h
  revert hhead
  decide

theorem parseLine_moduleLine (s : State) {name : List UInt8} (h : Fits (moduleLine name)) :
  parseLine s (moduleLine name) = .ok ⟨s.finish, name, []⟩
  := by
  have hprefix : modulePrefix <+: moduleLine name := List.prefix_append _ _
  rw [parseLine, checkLine_of_fits h, Outcome.ok_bind, if_pos hprefix, moduleLine, List.drop_left]
  rfl

theorem parseLine_cellLine (s : State) {name : List UInt8} (h : Fits (cellLine name)) :
  parseLine s (cellLine name)
    = .ok { s with currentCellList := s.currentCellList ++ [name] }
  := by
  have hprefix : cellPrefix <+: cellLine name := List.prefix_append _ _
  rw [parseLine, checkLine_of_fits h, Outcome.ok_bind, if_neg (not_modulePrefix_cellLine name),
    if_pos hprefix, cellLine, List.drop_left]
  rfl

/-- The cells are appended to those of the current module. -/
theorem foldlM_cellLines (s : State) {cells : List (List UInt8)}
    (h : ∀ c ∈ cells, Fits (cellLine c)) :
  (cells.map cellLine).foldlM parseLine s
    = .ok { s with currentCellList := s.currentCellList ++ cells }
  := by
  induction cells generalizing s with
  | nil =>
      rw [List.append_nil]
      rfl
  | cons c cells ih =>
      rw [List.forall_mem_cons] at h
      rw [List.map_cons, List.foldlM_cons, parseLine_cellLine s h.1, Outcome.ok_bind, ih _ h.2,
        List.append_assoc, List.singleton_append]

theorem put_of_notMem {modules : Modules} {name : List UInt8} (h : name ∉ modules.map Prod.fst)
    (cells : List (List UInt8)) :
  put modules name cells = modules ++ [(name, cells)]
  := by
  rw [put, List.filter_eq_self.mpr]
  intro m hm
  rw [decide_eq_true_iff]
  rintro rfl
  apply h (List.mem_map_of_mem hm)

/-- The modules are appended to those that are finished. -/
theorem foldlM_moduleLines (s : State) {modules : Modules}
    (hnodup : ((s.finish ++ modules).map Prod.fst).Nodup)
    (h : ∀ line ∈ modules.flatMap moduleLines, Fits line) :
  ∃ s', (modules.flatMap moduleLines).foldlM parseLine s = .ok s'
    ∧ s'.finish = s.finish ++ modules
  := by
  induction modules generalizing s with
  | nil =>
      use s
      rw [List.append_nil]
      exact ⟨rfl, rfl⟩
  | cons m modules ih =>
      obtain ⟨name, cells⟩ := m
      rw [List.flatMap_cons, List.forall_mem_append, moduleLines, List.forall_mem_cons,
        List.forall_mem_map] at h
      obtain ⟨⟨hmodule, hcells⟩, hmodules⟩ := h
      have hfinish : State.finish ⟨s.finish, name, cells⟩ = s.finish ++ [(name, cells)] := by
        apply put_of_notMem
        rw [List.map_append, List.map_cons, List.nodup_append] at hnodup
        intro hmem
        exact hnodup.2.2 name hmem name List.mem_cons_self rfl
      obtain ⟨s', hs', hfinish'⟩ := ih ⟨s.finish, name, cells⟩
        (by rwa [hfinish, List.append_assoc]) hmodules
      use s'
      rw [List.flatMap_cons, moduleLines, List.foldlM_append, List.foldlM_cons,
        parseLine_moduleLine s hmodule, Outcome.ok_bind, foldlM_cellLines _ hcells,
        Outcome.ok_bind, List.nil_append, hs', hfinish', hfinish, List.append_assoc]
      exact ⟨rfl, rfl⟩

/-! ### The stream -/

theorem nextLine_of_fits {line : List UInt8} (h : Fits line) (ls : List (List UInt8)) :
  nextLine (line :: ls) = .ok (line, ls)
  := by
  rw [nextLine, checkLine_of_fits h]
  rfl

/-- After the three lines of the head the modules are read. -/
theorem parseTorder_head {debugLine name : List UInt8} (hdebug : expectedDebugLine <:+ debugLine)
    (hfits : Fits debugLine) (hname : Fits (moduleLine name)) {text : List UInt8}
    {ls : List (List UInt8)} (htext : lines text = [] :: debugLine :: moduleLine name :: ls) :
  parseTorder text = State.finish <$> ls.foldlM parseLine ⟨[], name, []⟩
  := by
  have hempty : Fits [] := by decide
  have hprefix : modulePrefix <+: moduleLine name := List.prefix_append _ _
  simp only [parseTorder, htext, nextLine_of_fits hempty, nextLine_of_fits hfits,
    nextLine_of_fits hname, Outcome.ok_bind, List.length_nil, gt_iff_lt, Nat.lt_irrefl, if_false,
    hdebug, hprefix, not_true_eq_false]
  rw [moduleLine, List.drop_left]
  rfl

/-- A line either goes to the next state or is rejected. -/
theorem parseLine_of_fits (s : State) {line : List UInt8} (h : Fits line) :
  (∃ s', parseLine s line = .ok s') ∨ parseLine s line = .error .torderParseError
  := by
  rw [parseLine, checkLine_of_fits h, Outcome.ok_bind]
  split
  · left
    exact ⟨_, rfl⟩
  · split
    · left
      exact ⟨_, rfl⟩
    · right
      rfl

theorem parseLine_of_not_prefix (s : State) {line : List UInt8} (h : Fits line)
    (hmodule : ¬ modulePrefix <+: line) (hcell : ¬ cellPrefix <+: line) :
  parseLine s line = .error .torderParseError
  := by
  rw [parseLine, checkLine_of_fits h, Outcome.ok_bind, if_neg hmodule, if_neg hcell]

/-- The lines are rejected if one of them is. -/
theorem foldlM_of_not_prefix (s : State) {pre : List (List UInt8)} (hpre : ∀ line ∈ pre, Fits line)
    {line : List UInt8} (h : Fits line) (hmodule : ¬ modulePrefix <+: line)
    (hcell : ¬ cellPrefix <+: line) (rest : List (List UInt8)) :
  (pre ++ line :: rest).foldlM parseLine s = .error .torderParseError
  := by
  induction pre generalizing s with
  | nil =>
      rw [List.nil_append, List.foldlM_cons, parseLine_of_not_prefix s h hmodule hcell]
      rfl
  | cons l pre ih =>
      rw [List.forall_mem_cons] at hpre
      rw [List.cons_append, List.foldlM_cons]
      rcases parseLine_of_fits s hpre.1 with ⟨s', hs'⟩ | herror
      · rw [hs', Outcome.ok_bind]
        apply ih s' hpre.2
      · rw [herror]
        rfl

/-- The parser recovers the modules and their cells from what is printed, and it rejects a stream in
which a line after the first module is neither that of a module nor that of a cell. -/
theorem parseTorder_render {debugLine : List UInt8} (hdebug : expectedDebugLine <:+ debugLine)
    (hbreak : newline ∉ debugLine) (hfits : Fits debugLine) :
  (∀ modules : Modules, modules ≠ [] → (modules.map Prod.fst).Nodup →
      (∀ line ∈ modules.flatMap moduleLines, newline ∉ line ∧ Fits line) →
      parseTorder (render debugLine modules) = .ok modules)
    ∧ ∀ (text name : List UInt8) (pre : List (List UInt8)) (line : List UInt8)
      (rest : List (List UInt8)),
      lines text = [] :: debugLine :: moduleLine name :: (pre ++ line :: rest) →
      Fits (moduleLine name) → (∀ l ∈ pre, Fits l) → Fits line →
      ¬ modulePrefix <+: line → ¬ cellPrefix <+: line →
      parseTorder text = .error .torderParseError
  := by
  constructor
  · intro modules hne hnodup hlines
    obtain ⟨⟨name, cells⟩, modules, rfl⟩ := List.exists_cons_of_ne_nil hne
    have htext : lines (render debugLine ((name, cells) :: modules))
        = [] :: debugLine :: moduleLine name
          :: (cells.map cellLine ++ modules.flatMap moduleLines) := by
      apply lines_flatMap
      rw [List.forall_mem_cons, List.forall_mem_cons]
      exact ⟨List.not_mem_nil, hbreak, fun line hline => (hlines line hline).1⟩
    rw [List.flatMap_cons, List.forall_mem_append, moduleLines, List.forall_mem_cons,
      List.forall_mem_map] at hlines
    obtain ⟨⟨hmodule, hcells⟩, hmodules⟩ := hlines
    have hfinish : State.finish ⟨[], name, cells⟩ = [(name, cells)] := rfl
    obtain ⟨s, hs, hfinish'⟩ := foldlM_moduleLines ⟨[], name, cells⟩
      (by rwa [hfinish]) (fun line hline => (hmodules line hline).2)
    rw [parseTorder_head hdebug hfits hmodule.2 htext, List.foldlM_append,
      foldlM_cellLines _ fun c hc => (hcells c hc).2, Outcome.ok_bind, List.nil_append, hs]
    exact congrArg Outcome.ok hfinish'
  · intro text name pre line rest htext hmodule hpre hline hnotmodule hnotcell
    rw [parseTorder_head hdebug hfits hmodule htext,
      foldlM_of_not_prefix _ hpre hline hnotmodule hnotcell]
    rfl

/-- A module without cells comes after one with cells, and a blank line is rejected. -/
theorem parseTorder_render_half :
  parseTorder (render expectedDebugLine [(bytes "half", [bytes "x", bytes "y"]), (bytes "top", [])])
      = .ok [(bytes "half", [bytes "x", bytes "y"]), (bytes "top", [])]
    ∧ parseTorder (unlines [[], expectedDebugLine, bytes "module half", bytes "  cell x", [],
        bytes "module top"])
      = .error .torderParseError
  := by
  obtain ⟨hrender, hreject⟩ := parseTorder_render (List.suffix_refl expectedDebugLine) (by decide)
    (by decide)
  constructor
  · apply hrender
    · decide
    · decide
    · decide
  · apply hreject _ (bytes "half") [bytes "  cell x"] [] [bytes "module top"]
    · decide
    · decide
    · decide
    · decide
    · decide
    · decide

end Torder

end SynCirc
