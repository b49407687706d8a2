import KittyOs.ClockModel
import KittyOs.Lib.CallRuns
import Mathlib.Algebra.Order.Archimedean.Basic
import Mathlib.Data.List.Forall2
import Mathlib.Data.List.Nodup
import Mathlib.Data.Rat.Floor
import Mathlib.Tactic.Linarith
import Mathlib.Tactic.NormNum

/-!
# When callbacks are due

Beside the clock run the timers as they should be, each of which remembers when it was
registered or last fired. The clock remembers 0 for a callback that was never invoked,
so the two agree for callbacks registered before the first tick and for those that are
due at every tick; any other registration is invoked too early.
-/

namespace KittyOs.ClockTimers

open KittyOs.Lib.CallRuns KittyOs.MachineWord KittyOs.ClockModel

set_option autoImplicit false

variable {Handler : Type}

/-! ### The timers as they should be -/

/-- `since` is the time of the registration or of the last firing. -/
structure Timer (Handler : Type) where
  handle : U64
  f : Handler
  ms : ℚ
  since : ℚ

structure Timers (Handler : Type) where
  timers : List (Timer Handler)
  time : ℚ

def Timer.elapsed (time : ℚ) (timer : Timer Handler) : Bool := time - timer.since ≥ timer.ms

def Timers.register (ideal : Timers Handler) (handle : U64) (f : Handler) (ms : ℚ) :
    Timers Handler :=
  { ideal with timers := ideal.timers ++ [⟨handle, f, ms, ideal.time⟩] }

def Timers.stop (ideal : Timers Handler) (handle : U64) : Timers Handler :=
  { ideal with timers := ideal.timers.filter fun timer => !(timer.handle == handle) }

def Timers.tick (ideal : Timers Handler) : List (U64 × Handler) × Timers Handler :=
  let time := ideal.time + 1 / 2
  ((ideal.timers.filter (Timer.elapsed time)).map fun timer => (timer.handle, timer.f),
    { time
      timers := ideal.timers.map fun timer =>
        if timer.elapsed time then { timer with since := time } else timer })

/-! ### Runs -/

inductive ClockCall (Handler : Type) where
  | listen (f : Handler) (ms : ℚ)
  | delete (handle : U64)
  | tick

structure ClockRun (Handler : Type) where
  clock : Clock Handler
  ideal : Timers Handler
  registered : Nat

def ClockRun.booted : ClockRun Handler := ⟨.booted, ⟨[], 0⟩, 0⟩

def ClockRun.perform (run : ClockRun Handler) : ClockCall Handler → ClockRun Handler
  | .listen f ms =>
      let outcome := listenOnClock run.clock f ms
      ⟨outcome.2, run.ideal.register outcome.1 f ms, run.registered + 1⟩
  | .delete handle => ⟨deleteClock run.clock handle, run.ideal.stop handle, run.registered⟩
  | .tick => ⟨(handleClock run.clock).2, run.ideal.tick.2, run.registered⟩

/-- A tick invokes the timers that have elapsed, and after any call the callbacks on the
list are the timers that are registered and not stopped, each with a handle of its own. -/
structure Punctual (run : ClockRun Handler) (call : ClockCall Handler) : Prop where
  fired : call = .tick → (handleClock run.clock).1 = run.ideal.tick.1
  live : (run.perform call).clock.callbacks.map Callback.uid =
    (run.perform call).ideal.timers.map Timer.handle
  single : ((run.perform call).ideal.timers.map Timer.handle).Nodup

/-- Registrations before the first tick, or of callbacks that are due at every tick, and
fewer of them than there are handles. -/
def Prompt (run : ClockRun Handler) : ClockCall Handler → Prop
  | .listen _ ms => (run.clock.timeCounter = 0 ∨ ms ≤ 1 / 2) ∧ run.registered + 1 < 2 ^ 64
  | .delete _ => True
  | .tick => True

/-! ### Callbacks and their timers -/

structure Paired (time : ℚ) (callback : Callback Handler) (timer : Timer Handler) : Prop where
  uid : callback.uid = timer.handle
  f : callback.f = timer.f
  ms : callback.ms = timer.ms
  past : timer.since ≤ time
  last : callback.lastCalled = timer.since ∨ callback.lastCalled = 0 ∧ timer.ms ≤ 1 / 2

section Pairs

variable {time : ℚ} {callback : Callback Handler} {timer : Timer Handler}

theorem Paired.due (paired : Paired time callback timer) (started : 0 ≤ time) :
    callback.due (time + 1 / 2) = timer.elapsed (time + 1 / 2) := by
  unfold Callback.due Timer.elapsed
  rcases paired.last with same | ⟨never, short⟩
  · rw [same, paired.ms]
  · have past := paired.past
    rw [never, paired.ms, decide_eq_decide]
    exact iff_of_true (by linarith) (by linarith)

theorem Paired.tick (paired : Paired time callback timer) (started : 0 ≤ time) :
    Paired (time + 1 / 2)
      (if callback.due (time + 1 / 2) then { callback with lastCalled := time + 1 / 2 }
        else callback)
      (if timer.elapsed (time + 1 / 2) then { timer with since := time + 1 / 2 } else timer) := by
  rw [paired.due started]
  split_ifs
  · exact ⟨paired.uid, paired.f, paired.ms, le_refl _, Or.inl rfl⟩
  · have past := paired.past
    exact ⟨paired.uid, paired.f, paired.ms, by linarith, paired.last⟩

variable {callbacks : List (Callback Handler)} {timers : List (Timer Handler)}

theorem pairs_fired (pairs : List.Forall₂ (Paired time) callbacks timers) (started : 0 ≤ time) :
    ((callbacks.filter (Callback.due (time + 1 / 2))).map fun callback =>
        (callback.uid, callback.f)) =
      (timers.filter (Timer.elapsed (time + 1 / 2))).map fun timer => (timer.handle, timer.f) := by
  induction pairs with
  | nil => rfl
  | cons pair _ ih =>
      rw [List.filter_cons, List.filter_cons, pair.due started]
      split_ifs
      · rw [List.map_cons, List.map_cons, ih, pair.uid, pair.f]
      · exact ih

theorem pairs_tick (pairs : List.Forall₂ (Paired time) callbacks timers) (started : 0 ≤ time) :
    List.Forall₂ (Paired (time + 1 / 2))
      (callbacks.map fun callback =>
        if callback.due (time + 1 / 2) then { callback with lastCalled := time + 1 / 2 }
        else callback)
      (timers.map fun timer =>
        if timer.elapsed (time + 1 / 2) then { timer with since := time + 1 / 2 } else timer) := by
  induction pairs with
  | nil => exact List.Forall₂.nil
  | cons pair _ ih => exact List.Forall₂.cons (pair.tick started) ih

theorem pairs_stop (pairs : List.Forall₂ (Paired time) callbacks timers) (handle : U64) :
    List.Forall₂ (Paired time) (callbacks.filter fun callback => !(callback.uid == handle))
      (timers.filter fun timer => !(timer.handle == handle)) := by
  apply List.rel_filter _ pairs
  intro callback timer paired
  simp only [paired.uid]

theorem pairs_live (pairs : List.Forall₂ (Paired time) callbacks timers) :
    callbacks.map Callback.uid = timers.map Timer.handle := by
  induction pairs with
  | nil => rfl
  | cons pair _ ih => rw [List.map_cons, List.map_cons, pair.uid, ih]

end Pairs

/-! ### Prompt runs -/

structure Follows (run : ClockRun Handler) : Prop where
  time : run.clock.timeCounter = run.ideal.time
  ticks : ∃ count : Nat, run.ideal.time = count / 2
  pairs : List.Forall₂ (Paired run.ideal.time) run.clock.callbacks run.ideal.timers
  counted : run.clock.lastUid = BitVec.ofNat 64 run.registered
  known : ∀ timer ∈ run.ideal.timers, ∃ number, number ≤ run.registered ∧
    timer.handle = BitVec.ofNat 64 number
  single : (run.ideal.timers.map Timer.handle).Nodup

theorem booted_follows : Follows (ClockRun.booted : ClockRun Handler) where
  time := rfl
  ticks := ⟨0, by simp [ClockRun.booted]⟩
  pairs := List.Forall₂.nil
  counted := rfl
  known := by simp [ClockRun.booted]
  single := List.nodup_nil

theorem tick_length : 1000 / freq = 1 / 2 := by norm_num [freq]

section Runs

variable {run : ClockRun Handler}

theorem Follows.started (follows : Follows run) : 0 ≤ run.ideal.time := by
  obtain ⟨count, time⟩ := follows.ticks
  rw [time]
  positivity

theorem Follows.handle (follows : Follows run) :
    run.clock.lastUid + 1 = BitVec.ofNat 64 (run.registered + 1) := by
  rw [follows.counted, BitVec.ofNat_add]
  rfl

/-- The handle of a registration is not that of a timer that is still running. -/
theorem Follows.fresh (follows : Follows run) (room : run.registered + 1 < 2 ^ 64) :
    run.clock.lastUid + 1 ∉ run.ideal.timers.map Timer.handle := by
  intro member
  obtain ⟨timer, listed, same⟩ := List.mem_map.mp member
  obtain ⟨number, bound, handle⟩ := follows.known timer listed
  rw [handle, follows.handle] at same
  have value := congrArg BitVec.toNat same
  rw [of_nat_to_nat (by omega), of_nat_to_nat room] at value
  omega

/-- What a registration leaves of the correspondence, whatever its period. -/
theorem Follows.registered_handles (follows : Follows run) (room : run.registered + 1 < 2 ^ 64)
    (f : Handler) (ms : ℚ) :
    ((run.perform (.listen f ms)).ideal.timers.map Timer.handle).Nodup := by
  have fresh := follows.fresh room
  simp only [ClockRun.perform, listenOnClock, Timers.register, List.map_append, List.map_cons,
    List.map_nil]
  exact follows.single.append (List.nodup_singleton _) (by simpa using fresh)

theorem Follows.listen (follows : Follows run) {f : Handler} {ms : ℚ}
    (prompt : Prompt run (.listen f ms)) : Follows (run.perform (.listen f ms)) where
  time := follows.time
  ticks := follows.ticks
  pairs := by
    have last : (0 : ℚ) = run.ideal.time ∨ (0 : ℚ) = 0 ∧ ms ≤ 1 / 2 := by
      rcases prompt.1 with first | short
      · exact Or.inl (first.symm.trans follows.time)
      · exact Or.inr ⟨rfl, short⟩
    apply List.rel_append follows.pairs
    exact List.Forall₂.cons ⟨rfl, rfl, rfl, le_refl _, last⟩ List.Forall₂.nil
  counted := follows.handle
  known := by
    intro timer member
    rcases List.mem_append.mp member with old | new
    · obtain ⟨number, bound, handle⟩ := follows.known timer old
      exact ⟨number, Nat.le_succ_of_le bound, handle⟩
    · rw [List.mem_singleton.mp new]
      exact ⟨run.registered + 1, le_refl _, follows.handle⟩
  single := follows.registered_handles prompt.2 f ms

theorem Follows.delete (follows : Follows run) (handle : U64) :
    Follows (run.perform (.delete handle)) where
  time := follows.time
  ticks := follows.ticks
  pairs := pairs_stop follows.pairs handle
  counted := follows.counted
  known := fun timer member => follows.known timer (List.mem_of_mem_filter member)
  single := follows.single.sublist (List.filter_sublist.map _)

/-- A tick changes no handle. -/
theorem tick_handles (ideal : Timers Handler) :
    ideal.tick.2.timers.map Timer.handle = ideal.timers.map Timer.handle := by
  simp only [Timers.tick, List.map_map]
  apply List.map_congr_left
  intro timer _
  rw [Function.comp_apply]
  split_ifs <;> rfl

theorem Follows.tick (follows : Follows run) : Follows (run.perform .tick) where
  time := by
    simp only [ClockRun.perform, handleClock, Timers.tick, tick_length, follows.time]
  ticks := by
    obtain ⟨count, time⟩ := follows.ticks
    refine ⟨count + 1, ?_⟩
    simp only [ClockRun.perform, Timers.tick, time]
    push_cast
    ring
  pairs := by
    have paired := pairs_tick follows.pairs follows.started
    simp only [ClockRun.perform, handleClock, Timers.tick, tick_length, follows.time]
    exact paired
  counted := follows.counted
  known := by
    intro timer member
    have listed : timer.handle ∈ run.ideal.timers.map Timer.handle := by
      rw [← tick_handles]
      exact List.mem_map_of_mem member
    obtain ⟨before, inside, same⟩ := List.mem_map.mp listed
    obtain ⟨number, bound, handle⟩ := follows.known before inside
    exact ⟨number, bound, same.symm.trans handle⟩
  single := by
    have same := tick_handles run.ideal
    simp only [ClockRun.perform]
    rw [same]
    exact follows.single

theorem Follows.perform (follows : Follows run) {call : ClockCall Handler}
    (prompt : Prompt run call) : Follows (run.perform call) := by
  cases call with
  | listen f ms => exact follows.listen prompt
  | delete handle => exact follows.delete handle
  | tick => exact follows.tick

theorem Follows.punctual (follows : Follows run) {call : ClockCall Handler}
    (prompt : Prompt run call) : Punctual run call where
  fired := by
    intro _
    have fired := pairs_fired follows.pairs follows.started
    simp only [handleClock, Timers.tick, tick_length, follows.time]
    exact fired
  live := pairs_live (follows.perform prompt).pairs
  single := (follows.perform prompt).single

theorem Follows.always (follows : Follows run) {calls : List (ClockCall Handler)}
    (prompt : Always ClockRun.perform Prompt run calls) :
    Always ClockRun.perform Punctual run calls := by
  apply always_imp _ _ follows prompt
  · intro run call follows prompt
    exact follows.perform prompt
  · intro run call follows prompt
    exact follows.punctual prompt

theorem Follows.after (follows : Follows run) {calls : List (ClockCall Handler)}
    (prompt : Always ClockRun.perform Prompt run calls) :
    Follows (calls.foldl ClockRun.perform run) := by
  induction calls generalizing run with
  | nil => exact follows
  | cons call rest ih =>
      obtain ⟨here, later⟩ := always_cons.mp prompt
      exact ih (follows.perform here) later

theorem ticks_prompt (run : ClockRun Handler) (count : Nat) :
    Always ClockRun.perform Prompt run (List.replicate count .tick) := by
  induction count generalizing run with
  | zero => exact trivial
  | succ count ih =>
      rw [List.replicate_succ, always_cons]
      exact ⟨trivial, ih _⟩

end Runs

/-! ### Late registrations -/

/-- A callback that was registered after the first tick with a period longer than a tick,
and was not invoked since. -/
structure Late (run : ClockRun Handler) (handle : U64) (f : Handler) (ms since : ℚ) : Prop where
  callback : ⟨handle, f, ms, 0⟩ ∈ run.clock.callbacks
  timers : ∀ timer ∈ run.ideal.timers, timer.handle = handle →
    timer.ms = ms ∧ timer.since = since
  time : run.clock.timeCounter = run.ideal.time
  started : 1 / 2 ≤ since
  long : 1 / 2 < ms
  soon : run.ideal.time = since ∨ run.ideal.time < ms

section Late

variable {run : ClockRun Handler} {handle : U64} {f : Handler} {ms since : ℚ}

/-- The tick at which the time since boot reaches the period invokes the callback. -/
theorem Late.early (late : Late run handle f ms since) (reached : ms ≤ run.ideal.time + 1 / 2) :
    ¬Punctual run .tick := by
  intro punctual
  have invoked : (handle, f) ∈ (handleClock run.clock).1 := by
    simp only [handleClock, tick_length, late.time]
    refine List.mem_map.mpr ⟨⟨handle, f, ms, 0⟩, List.mem_filter.mpr ⟨late.callback, ?_⟩, rfl⟩
    rw [Callback.due, decide_eq_true_iff]
    linarith
  rw [punctual.fired rfl] at invoked
  obtain ⟨timer, listed, same⟩ := List.mem_map.mp invoked
  obtain ⟨member, elapsed⟩ := List.mem_filter.mp listed
  obtain ⟨period, registered⟩ := late.timers timer member (congrArg Prod.fst same)
  rw [Timer.elapsed, decide_eq_true_iff, period, registered] at elapsed
  have started := late.started
  have long := late.long
  rcases late.soon with now | before
  · linarith
  · linarith

theorem Late.waits (late : Late run handle f ms since) (short : run.ideal.time + 1 / 2 < ms) :
    Late (run.perform .tick) handle f ms since where
  callback := by
    simp only [ClockRun.perform, handleClock, tick_length, late.time]
    refine List.mem_map.mpr ⟨⟨handle, f, ms, 0⟩, late.callback, if_neg ?_⟩
    rw [Callback.due, decide_eq_true_iff]
    linarith
  timers := by
    intro timer member same
    obtain ⟨before, listed, rfl⟩ := List.mem_map.mp member
    have started := late.started
    by_cases elapsed : before.elapsed (run.ideal.time + 1 / 2)
    · rw [if_pos elapsed] at same
      obtain ⟨period, registered⟩ := late.timers before listed same
      rw [Timer.elapsed, decide_eq_true_iff, period, registered] at elapsed
      linarith
    · rw [if_neg elapsed] at same ⊢
      exact late.timers before listed same
  time := by
    simp only [ClockRun.perform, handleClock, Timers.tick, tick_length, late.time]
  started := late.started
  long := late.long
  soon := Or.inr short

theorem Late.unpunctual {count : Nat} (late : Late run handle f ms since)
    (reached : ms ≤ run.ideal.time + (count + 1) / 2) :
    ¬Always ClockRun.perform Punctual run (List.replicate (count + 1) .tick) := by
  induction count generalizing run with
  | zero =>
      rw [List.replicate_succ, always_cons]
      intro always
      apply late.early _ always.1
      rw [Nat.cast_zero] at reached
      linarith
  | succ count ih =>
      rw [List.replicate_succ, always_cons]
      intro always
      by_cases now : ms ≤ run.ideal.time + 1 / 2
      · exact late.early now always.1
      · apply ih (late.waits (not_le.mp now)) _ always.2
        simp only [ClockRun.perform, Timers.tick]
        push_cast at reached
        linarith

theorem Follows.late (follows : Follows run) (room : run.registered + 1 < 2 ^ 64)
    (ticked : run.clock.timeCounter ≠ 0) (long : 1 / 2 < ms) :
    Late (run.perform (.listen f ms)) (run.clock.lastUid + 1) f ms run.ideal.time where
  callback := by
    simp [ClockRun.perform, listenOnClock]
  timers := by
    intro timer member same
    rcases List.mem_append.mp member with old | new
    · have listed := List.mem_map_of_mem (f := Timer.handle) old
      rw [same] at listed
      exact absurd listed (follows.fresh room)
    · rw [List.mem_singleton.mp new]
      exact ⟨rfl, rfl⟩
  time := follows.time
  started := by
    obtain ⟨count, time⟩ := follows.ticks
    have some : 1 ≤ count := by
      apply Nat.pos_of_ne_zero
      intro none
      apply ticked
      rw [follows.time, time, none]
      simp
    have value : (1 : ℚ) ≤ count := by exact_mod_cast some
    rw [time]
    linarith
  long := long
  soon := Or.inl rfl

end Late

/-- A prompt run is punctual, and stays so after one more registration, however many
ticks follow, if and only if that registration is prompt too. -/
theorem prompt_runs_punctual {calls : List (ClockCall Handler)}
    (prompt : Always ClockRun.perform Prompt ClockRun.booted calls) :
    Always ClockRun.perform Punctual ClockRun.booted calls ∧
      ∀ f ms, (calls.foldl ClockRun.perform ClockRun.booted).registered + 1 < 2 ^ 64 →
        ((∀ count, Always ClockRun.perform Punctual ClockRun.booted
            (calls ++ .listen f ms :: List.replicate count .tick)) ↔
          (calls.foldl ClockRun.perform ClockRun.booted).clock.timeCounter = 0 ∨ ms ≤ 1 / 2) := by
  have follows := booted_follows.after prompt
  refine ⟨booted_follows.always prompt, ?_⟩
  intro f ms room
  constructor
  · intro always
    by_contra slow
    rw [not_or, not_le] at slow
    have late := follows.late (f := f) room slow.1 slow.2
    obtain ⟨count, reached⟩ := exists_nat_ge (2 * ms)
    have run := (always_append.mp (always (count + 1))).2
    apply late.unpunctual _ (always_cons.mp run).2
    have started := late.started
    simp only [ClockRun.perform, Timers.register]
    linarith
  · intro soon count
    apply booted_follows.always
    apply always_append.mpr
    exact ⟨prompt, always_cons.mpr ⟨⟨soon, room⟩, ticks_prompt _ count⟩⟩

theorem boot_registration_punctual :
    Always ClockRun.perform Punctual (ClockRun.booted : ClockRun String)
      [.listen "boot" 10, .tick, .listen "every tick" (1 / 2), .delete 1, .tick] := by
  have prompt : Always ClockRun.perform Prompt (ClockRun.booted : ClockRun String)
      [.listen "boot" 10, .tick, .listen "every tick" (1 / 2), .delete 1, .tick] := by
    simp only [always_cons, Prompt, ClockRun.perform, ClockRun.booted]
    refine ⟨⟨Or.inl rfl, by omega⟩, trivial, ⟨Or.inr (le_refl _), by omega⟩, trivial, trivial,
      trivial⟩
  exact (prompt_runs_punctual prompt).1

/-- A callback registered at the first tick for every millisecond is invoked at the
second, after half of one. -/
theorem late_registration_early :
    ¬Always ClockRun.perform Punctual (ClockRun.booted : ClockRun String)
      [.tick, .listen "late" 1, .tick] := by
  have follows : Follows (ClockRun.booted.perform .tick : ClockRun String) := booted_follows.tick
  have ticked : (ClockRun.booted.perform .tick : ClockRun String).clock.timeCounter ≠ 0 := by
    rw [follows.time]
    norm_num [ClockRun.perform, ClockRun.booted, Timers.tick]
  have late : Late ((ClockRun.booted.perform .tick).perform (.listen "late" 1)) _ "late" 1 _ :=
    follows.late (by decide) ticked (by norm_num)
  simp only [always_cons]
  intro always
  apply late.early _ always.2.2.1
  norm_num [ClockRun.perform, ClockRun.booted, Timers.tick, Timers.register]

end KittyOs.ClockTimers
