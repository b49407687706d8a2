import Mathlib.Logic.Function.Basic

/-!
# Programs that access a device

A program is the tree of the accesses it may make: what it does after an access depends
on the value the device answered with. Before each access the device may change by
itself, or by what other code does to it.
-/

namespace KittyOs.Lib.AccessPrograms

set_option autoImplicit false

universe u

inductive Program (Access Value : Type) (Result : Type u) where
  | done (result : Result)
  | access (request : Access) (next : Value → Program Access Value Result)

variable {Access Value Device : Type} {Result Other : Type u}

namespace Program

def bind (program : Program Access Value Result)
    (next : Result → Program Access Value Other) : Program Access Value Other :=
  match program with
  | .done result => next result
  | .access request rest => .access request fun value => (rest value).bind next

instance : Monad (Program Access Value) where
  pure := .done
  bind := bind

/-- The result, the number of accesses made so far and the device after the program.
`meanwhile` is what happens to the device before the access with the given number. -/
def run (respond : Device → Access → Value × Device) (meanwhile : Nat → Device → Device) :
    Program Access Value Result → Nat → Device → Result × Nat × Device
  | .done result, count, device => (result, count, device)
  | .access request next, count, device =>
      let answer := respond (meanwhile count device) request
      (next answer.1).run respond meanwhile (count + 1) answer.2

def request (access : Access) : Program Access Value Value := .access access .done

variable (respond : Device → Access → Value × Device) (meanwhile : Nat → Device → Device)

@[simp] theorem run_pure (result : Result) (count : Nat) (device : Device) :
    run respond meanwhile (pure result : Program Access Value Result) count device =
      (result, count, device) :=
  rfl

@[simp] theorem run_request (access : Access) (count : Nat) (device : Device) :
    run respond meanwhile (request access : Program Access Value Value) count device =
      ((respond (meanwhile count device) access).1, count + 1,
        (respond (meanwhile count device) access).2) :=
  rfl

@[simp] theorem run_bind (program : Program Access Value Result)
    (next : Result → Program Access Value Other) (count : Nat) (device : Device) :
    run respond meanwhile (program >>= next) count device =
      run respond meanwhile (next (run respond meanwhile program count device).1)
        (run respond meanwhile program count device).2.1
        (run respond meanwhile program count device).2.2 := by
  induction program generalizing count device with
  | done result => rfl
  | access request rest ih => exact ih _ _ _

/-! ### With nothing else going on -/

def runAlone : Program Access Value Result → Device → Result × Device
  | .done result, device => (result, device)
  | .access request next, device =>
      (next (respond device request).1).runAlone (respond device request).2

@[simp] theorem run_alone_pure (result : Result) (device : Device) :
    runAlone respond (pure result : Program Access Value Result) device = (result, device) :=
  rfl

@[simp] theorem run_alone_request (access : Access) (device : Device) :
    runAlone respond (request access : Program Access Value Value) device = respond device access :=
  rfl

@[simp] theorem run_alone_bind (program : Program Access Value Result)
    (next : Result → Program Access Value Other) (device : Device) :
    runAlone respond (program >>= next) device =
      runAlone respond (next (runAlone respond program device).1)
        (runAlone respond program device).2 := by
  induction program generalizing device with
  | done result => rfl
  | access request rest ih => exact ih _ _

end Program

end KittyOs.Lib.AccessPrograms
