import KittyOs.Lib.CallRuns
import KittyOs.VkfsModel

/-!
# Handles of open VKFS files

Runs of `open_file` and `close_file`. The handles given out and not yet closed are
kept beside the vector, each with the path it was opened with. As the duplicate
check refuses every path while a file is open, a reachable vector holds at most one
element, so it never moves under a live handle.
-/

namespace KittyOs.VkfsHandles

open KittyOs.Lib.CallRuns KittyOs.MachineWord KittyOs.RuntimeBlob KittyOs.VkfsModel

set_option autoImplicit false

structure Session where
  openFiles : OpenFiles
  live : List (U64 × CString)
deriving DecidableEq

def Session.start : Session := ⟨.empty, []⟩

/-- A call; an `open` comes with the buffer it would be given if the vector grows. -/
inductive FileCall where
  | openFile (path : CString) (fresh : Allocation)
  | closeFile (file : U64)
deriving DecidableEq

def perform (modules : List Module) (session : Session) : FileCall → Option Session
  | .openFile path fresh =>
      let (file, openFiles) := openFile modules session.openFiles path fresh
      some ⟨openFiles, if file = 0 then session.live else session.live ++ [(file, path)]⟩
  | .closeFile file =>
      some ⟨closeFile session.openFiles file, session.live.filter fun opened => opened.1 ≠ file⟩

/-- The path of the file behind a handle. -/
def denotes (openFiles : OpenFiles) (file : U64) : Option CString :=
  (openFiles.indexOf file).bind fun index => openFiles.files[index]?.map OpenFile.path

def LiveDenote (session : Session) : Prop :=
  ∀ opened ∈ session.live, denotes session.openFiles opened.1 = some opened.2

def IsModule (modules : List Module) (path : CString) : Prop :=
  ∃ module ∈ modules, module.path = path

def IsOpen (session : Session) (path : CString) : Prop := ∃ opened ∈ session.live, opened.2 = path

/-- An `open` gives a handle exactly for a module that is not open, and live handles
denote their paths when the call has returned. -/
def Serves (modules : List Module) (session : Session) (call : FileCall) : Prop :=
  (match call with
    | .openFile path fresh =>
        (openFile modules session.openFiles path fresh).1 ≠ 0 ↔
          IsModule modules path ∧ ¬IsOpen session path
    | .closeFile _ => True) ∧
  ∀ next, perform modules session call = some next → LiveDenote next

/-- An `open` of a module finds no file open, or that one. -/
def AsksAlone (modules : List Module) (session : Session) : FileCall → Prop
  | .openFile path _ => IsModule modules path → session.live = [] ∨ IsOpen session path
  | .closeFile _ => True

/-- What a reachable session looks like: nothing is open, or one file is. -/
inductive Reached : Session → Prop where
  | idle (buffer : U64) (capacity : Nat) (placed : capacity = 0 ∨ buffer ≠ 0) :
      Reached ⟨⟨buffer, capacity, []⟩, []⟩
  | single (buffer : U64) (capacity : Nat) (path : CString) (placed : buffer ≠ 0) :
      Reached ⟨⟨buffer, capacity, [⟨path⟩]⟩, [(buffer, path)]⟩

theorem any_module_iff (modules : List Module) (path : CString) :
    (modules.any fun module => strcmp path module.path = 0) = true ↔ IsModule modules path := by
  simp only [List.any_eq_true, decide_eq_true_eq, strcmp_zero_iff, IsModule]
  constructor
  · rintro ⟨module, member, same⟩
    exact ⟨module, member, same.symm⟩
  · rintro ⟨module, member, same⟩
    exact ⟨module, member, same.symm⟩

theorem handle_zero (openFiles : OpenFiles) : openFiles.handle 0 = openFiles.buffer := by
  simp [OpenFiles.handle]

theorem index_of_single (buffer : U64) (capacity : Nat) (opened : OpenFile) (file : U64) :
    OpenFiles.indexOf ⟨buffer, capacity, [opened]⟩ file =
      if buffer = file then some 0 else none := by
  have first : OpenFiles.handle ⟨buffer, capacity, [opened]⟩ 0 = buffer := handle_zero _
  have only : OpenFiles.indexOf ⟨buffer, capacity, [opened]⟩ file =
      [0].find? fun index => OpenFiles.handle ⟨buffer, capacity, [opened]⟩ index == file := rfl
  rw [only, List.find?_cons, first]
  by_cases same : buffer = file
  · simp [same]
  · have differs : (buffer == file) = false := by simpa using same
    rw [differs, if_neg same]
    rfl

/-! ### The calls -/

/-- While a file is open every path is refused. -/
theorem open_refused (modules : List Module) (buffer : U64) (capacity : Nat) (opened : OpenFile)
    (path : CString) (fresh : Allocation) :
    openFile modules ⟨buffer, capacity, [opened]⟩ path fresh =
      (0, ⟨buffer, capacity, [opened]⟩) := by
  rw [openFile, if_pos]
  simp [strcmp_zero_iff]

theorem open_idle_missing {modules : List Module} {path : CString}
    (missing : ¬IsModule modules path) (buffer : U64) (capacity : Nat) (fresh : Allocation) :
    openFile modules ⟨buffer, capacity, []⟩ path fresh = (0, ⟨buffer, capacity, []⟩) := by
  have absent := mt (any_module_iff modules path).mp missing
  rw [openFile, if_neg (by simp), if_neg absent]

theorem open_idle_module {modules : List Module} {path : CString}
    (named : IsModule modules path) {buffer : U64} {capacity : Nat}
    (placed : capacity = 0 ∨ buffer ≠ 0) (fresh : Allocation) :
    ∃ moved grown, moved ≠ 0 ∧
      openFile modules ⟨buffer, capacity, []⟩ path fresh = (moved, ⟨moved, grown, [⟨path⟩]⟩) := by
  have present := (any_module_iff modules path).mpr named
  let openFiles : OpenFiles := ⟨buffer, capacity, []⟩
  refine ⟨(openFiles.pushBack ⟨path⟩ fresh).buffer, (openFiles.pushBack ⟨path⟩ fresh).capacity,
    ?_, ?_⟩
  · by_cases full : openFiles.full = true
    · simp only [OpenFiles.pushBack, full, if_true]
      exact fresh.property
    · have spare : capacity ≠ 0 := by
        intro none
        exact full (by simp [openFiles, OpenFiles.full, none])
      simp only [OpenFiles.pushBack, full]
      exact placed.resolve_left spare
  · rw [openFile, if_neg (by simp), if_pos present]
    exact Prod.ext (handle_zero _) rfl

/-! ### The run -/

theorem reached_step {modules : List Module} {session next : Session} {call : FileCall}
    (reached : Reached session) (went : perform modules session call = some next) :
    Reached next := by
  cases call with
  | openFile path fresh =>
      simp only [perform, Option.some.injEq] at went
      rw [← went]
      cases reached with
      | idle buffer capacity placed =>
          by_cases named : IsModule modules path
          · obtain ⟨moved, grown, nonzero, opened⟩ := open_idle_module named placed fresh
            simp only [opened, nonzero, if_false, List.nil_append]
            exact .single moved grown path nonzero
          · simp only [open_idle_missing named, if_true]
            exact .idle buffer capacity placed
      | single buffer capacity other placed =>
          simp only [open_refused, if_true]
          exact .single buffer capacity other placed
  | closeFile file =>
      simp only [perform, Option.some.injEq] at went
      rw [← went]
      cases reached with
      | idle buffer capacity placed => exact .idle buffer capacity placed
      | single buffer capacity other placed =>
          simp only [closeFile, index_of_single]
          by_cases same : buffer = file
          · simp only [same, if_true, List.eraseIdx_zero, List.tail_cons, List.filter_cons,
              List.filter_nil, ne_eq, not_true_eq_false, decide_false, Bool.false_eq_true, if_false]
            exact .idle file capacity (Or.inr (same ▸ placed))
          · simp only [same, if_false, List.filter_cons, List.filter_nil, ne_eq,
              not_false_eq_true, decide_true, if_true]
            exact .single buffer capacity other placed

theorem reached_live_denote {session : Session} (reached : Reached session) :
    LiveDenote session := by
  cases reached with
  | idle buffer capacity placed => simp [LiveDenote]
  | single buffer capacity path placed => simp [LiveDenote, denotes, index_of_single]

theorem serves_iff_alone {modules : List Module} {session : Session} (reached : Reached session)
    (call : FileCall) : Serves modules session call ↔ AsksAlone modules session call := by
  have denote : ∀ next, perform modules session call = some next → LiveDenote next :=
    fun next went => reached_live_denote (reached_step reached went)
  simp only [Serves, and_iff_left denote]
  cases call with
  | closeFile file => exact Iff.rfl
  | openFile path fresh =>
      cases reached with
      | idle buffer capacity placed =>
          refine iff_of_true ?_ fun _ => Or.inl rfl
          by_cases named : IsModule modules path
          · obtain ⟨moved, grown, nonzero, opened⟩ := open_idle_module named placed fresh
            dsimp only
            rw [opened]
            exact iff_of_true nonzero ⟨named, by simp [IsOpen]⟩
          · simp [open_idle_missing named, named]
      | single buffer capacity other placed =>
          simp [open_refused, AsksAlone, imp_iff_not_or]

theorem handles_served_iff_asked_alone (modules : List Module) (calls : List FileCall) :
    Throughout (perform modules) (Serves modules) .start calls ↔
      Throughout (perform modules) (AsksAlone modules) .start calls := by
  have started : Reached .start := .idle 0 0 (Or.inl rfl)
  apply throughout_iff _ _ started
  · intro session call next reached _ went
    exact reached_step reached went
  · intro session call reached
    exact serves_iff_alone reached call

def pathA : CString := ⟨[0x61], by decide⟩

def pathB : CString := ⟨[0x62], by decide⟩

def twoModules : List Module := [⟨pathA, 0x1000, 16⟩, ⟨pathB, 0x2000, 16⟩]

/-- With `a` open, `b` names a module that is not open and is refused. -/
theorem second_file_refused :
    perform twoModules .start (.openFile pathA ⟨0x5000, by decide⟩) =
        some ⟨⟨0x5000, 1, [⟨pathA⟩]⟩, [(0x5000, pathA)]⟩ ∧
      IsModule twoModules pathB ∧
      ¬IsOpen ⟨⟨0x5000, 1, [⟨pathA⟩]⟩, [(0x5000, pathA)]⟩ pathB ∧
      (openFile twoModules ⟨0x5000, 1, [⟨pathA⟩]⟩ pathB ⟨0x6000, by decide⟩).1 = 0 := by
  refine ⟨by decide, ⟨⟨pathB, 0x2000, 16⟩, by decide, rfl⟩, ?_, by decide⟩
  rintro ⟨opened, member, same⟩
  rw [List.mem_singleton.mp member] at same
  exact absurd same (by decide)

end KittyOs.VkfsHandles
