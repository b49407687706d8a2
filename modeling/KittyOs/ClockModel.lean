import KittyOs.MachineWord
import Mathlib.Algebra.Order.Field.Rat

/-!
# The clock and its callbacks

`clock/clock.cpp` with time counted exactly. Callbacks are values of any type; a tick
gives the ones it invokes, in their order, and they do not change the list.
-/

namespace KittyOs.ClockModel

open KittyOs.MachineWord

set_option autoImplicit false

variable {Handler : Type}

structure Callback (Handler : Type) where
  uid : U64
  f : Handler
  ms : ℚ
  lastCalled : ℚ

structure Clock (Handler : Type) where
  callbacks : List (Callback Handler)
  timeCounter : ℚ
  lastUid : U64

def freq : ℚ := 2000

def Clock.booted : Clock Handler := ⟨[], 0, 0⟩

/-- The handle is the number of the callback. -/
def listenOnClock (clock : Clock Handler) (f : Handler) (ms : ℚ) : U64 × Clock Handler :=
  let lastUid := clock.lastUid + 1
  (lastUid, { clock with callbacks := clock.callbacks ++ [⟨lastUid, f, ms, 0⟩], lastUid })

def deleteClock (clock : Clock Handler) (targetUid : U64) : Clock Handler :=
  { clock with callbacks := clock.callbacks.filter fun callback => !(callback.uid == targetUid) }

def Callback.due (timeCounter : ℚ) (callback : Callback Handler) : Bool :=
  timeCounter - callback.lastCalled ≥ callback.ms

/-- The callbacks invoked, with their handles, and the clock after. -/
def handleClock (clock : Clock Handler) : List (U64 × Handler) × Clock Handler :=
  let timeCounter := clock.timeCounter + 1000 / freq
  ((clock.callbacks.filter (Callback.due timeCounter)).map fun callback =>
      (callback.uid, callback.f),
    { clock with
      timeCounter
      callbacks := clock.callbacks.map fun callback =>
        if callback.due timeCounter then { callback with lastCalled := timeCounter }
        else callback })

end KittyOs.ClockModel
