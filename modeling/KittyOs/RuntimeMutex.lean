import KittyOs.Lib.Interleavings
import KittyOs.MachineWord

/-!
# The mutex of the runtime

`pthread_mutex_lock` and `pthread_mutex_unlock` of `lib/klibc/runtime-blob.cpp`. The
threads use the mutex to update a common value, which each reads and writes back in
two accesses; an exchange, a read or a write of memory is one move.
-/

namespace KittyOs.RuntimeMutex

open KittyOs.Lib.Interleavings

set_option autoImplicit false

variable {Data : Type*}

structure Shared (Data : Type*) where
  locked : BitVec 32
  data : Data

/-- `exchange` and `spin` are the tests of the outer and the inner loop of
`pthread_mutex_lock`, `unlock` is the store of `pthread_mutex_unlock`. -/
inductive Phase (Data : Type*) where
  | exchange
  | spin
  | load
  | store (loaded : Data)
  | unlock

/-- A thread and the updates it has still to make, the one it is at first. -/
structure Worker (Data : Type*) where
  phase : Phase Data
  updates : List (Data → Data)

def atomicTestAndSet (shared : Shared Data) : BitVec 32 × Shared Data :=
  (shared.locked, { shared with locked := 1 })

def move (shared : Shared Data) (worker : Worker Data) : Option (Shared Data × Worker Data) :=
  match worker.updates with
  | [] => none
  | update :: rest =>
      match worker.phase with
      | .exchange =>
          let (old, shared) := atomicTestAndSet shared
          some (shared, { worker with phase := if old ≠ 0 then .spin else .load })
      | .spin =>
          some (shared, { worker with phase := if shared.locked ≠ 0 then .spin else .exchange })
      | .load => some (shared, { worker with phase := .store shared.data })
      | .store loaded =>
          some ({ shared with data := update loaded }, { worker with phase := .unlock })
      | .unlock => some ({ shared with locked := 0 }, ⟨.exchange, rest⟩)

/-- The thread has the mutex. -/
def Worker.inside (worker : Worker Data) : Bool :=
  match worker.updates, worker.phase with
  | _ :: _, .load => true
  | _ :: _, .store _ => true
  | _ :: _, .unlock => true
  | _, _ => false

/-- The updates that have not been written. -/
def Worker.left (worker : Worker Data) : List (Data → Data) :=
  match worker.phase with
  | .unlock => worker.updates.tail
  | _ => worker.updates

variable {Thread : Type*} [DecidableEq Thread]

def idle (data : Data) (programs : Thread → List (Data → Data)) :
    World Thread (Shared Data) (Worker Data) :=
  ⟨⟨0, data⟩, fun thread => ⟨.exchange, programs thread⟩⟩

/-! ### What a move does -/

inductive Change (shared : Shared Data) (worker next : Worker Data) : Shared Data → Prop
  | wait (out : ¬worker.inside) (outNext : ¬next.inside) (kept : next.left = worker.left)
      (locked : shared.locked ≠ 0) : Change shared worker next ⟨1, shared.data⟩
  | look (out : ¬worker.inside) (outNext : ¬next.inside) (kept : next.left = worker.left) :
      Change shared worker next shared
  | enter (free : shared.locked = 0) (kept : next.left = worker.left) (inside : next.inside)
      (phase : next.phase = .load) : Change shared worker next ⟨1, shared.data⟩
  | load (inside : worker.inside) (insideNext : next.inside) (kept : next.left = worker.left)
      (phase : next.phase = .store shared.data) : Change shared worker next shared
  | store (inside : worker.inside) (insideNext : next.inside) (update : Data → Data)
      (loaded : Data) (before : worker.phase = .store loaded) (after : next.phase = .unlock)
      (made : worker.left = update :: next.left) :
      Change shared worker next { shared with data := update loaded }
  | leave (inside : worker.inside) (out : ¬next.inside) (kept : next.left = worker.left) :
      Change shared worker next { shared with locked := 0 }

theorem move_change {shared after : Shared Data} {worker next : Worker Data}
    (moved : move shared worker = some (after, next)) : Change shared worker next after := by
  obtain ⟨phase, updates⟩ := worker
  cases updates with
  | nil => exact absurd moved.symm (Option.some_ne_none _)
  | cons update rest =>
      cases phase with
      | exchange =>
          by_cases free : shared.locked = 0
          · simp only [move, atomicTestAndSet, free, ne_eq, not_true, if_false, Option.some.injEq,
              Prod.mk.injEq] at moved
            obtain ⟨rfl, rfl⟩ := moved
            exact .enter free rfl rfl rfl
          · simp only [move, atomicTestAndSet, ne_eq, free, not_false_iff, if_true,
              Option.some.injEq, Prod.mk.injEq] at moved
            obtain ⟨rfl, rfl⟩ := moved
            exact .wait (by simp [Worker.inside]) (by simp [Worker.inside]) rfl free
      | spin =>
          simp only [move, Option.some.injEq, Prod.mk.injEq] at moved
          obtain ⟨rfl, rfl⟩ := moved
          split_ifs <;> exact .look (by simp [Worker.inside]) (by simp [Worker.inside]) rfl
      | load =>
          cases moved
          exact .load rfl rfl rfl rfl
      | store loaded =>
          cases moved
          exact .store rfl rfl update loaded rfl rfl rfl
      | unlock =>
          cases moved
          exact .leave rfl (by cases rest <;> simp [Worker.inside]) rfl

/-! ### Every interleaving -/

abbrev Order (Thread Data : Type*) := List (Thread × (Data → Data))

def Order.ofThread (order : Order Thread Data) (thread : Thread) : List (Data → Data) :=
  (order.filter fun entry => entry.1 = thread).map Prod.snd

def Order.result (order : Order Thread Data) (data : Data) : Data :=
  order.foldl (fun data entry => entry.2 data) data

structure Serial (data : Data) (programs : Thread → List (Data → Data))
    (world : World Thread (Shared Data) (Worker Data)) (order : Order Thread Data) : Prop where
  result : world.shared.data = order.result data
  written : ∀ thread, order.ofThread thread ++ (world.place thread).left = programs thread
  guarded : Guarded (fun worker : Worker Data => worker.inside) (world.shared.locked != 0)
    world.place
  owner : world.shared.locked ≠ 0 → ∃ thread, (world.place thread).inside
  loaded : ∀ thread, (world.place thread).inside → ∀ value,
    (world.place thread).phase = .store value → value = world.shared.data

section Step

variable {data : Data} {programs : Thread → List (Data → Data)}
  {world : World Thread (Shared Data) (Worker Data)} {order : Order Thread Data}
  {thread : Thread} {after : Shared Data} {next : Worker Data}

theorem written_kept (serial : Serial data programs world order)
    (kept : next.left = (world.place thread).left) (any : Thread) :
    order.ofThread any ++ ((world.put thread after next).place any).left = programs any := by
  rw [← serial.written any]
  by_cases same : any = thread
  · rw [same, put_self, kept]
  · rw [put_other _ _ _ same]

theorem owner_other (serial : Serial data programs world order)
    (out : ¬(world.place thread).inside) (locked : world.shared.locked ≠ 0) :
    ∃ any, ((world.put thread after next).place any).inside := by
  obtain ⟨holder, inside⟩ := serial.owner locked
  have different : holder ≠ thread := fun same => out (same ▸ inside)
  refine ⟨holder, ?_⟩
  rw [put_other _ _ _ different]
  exact inside

/-- Another thread that is inside keeps what it has loaded. -/
theorem loaded_kept (serial : Serial data programs world order)
    (same : after.data = world.shared.data)
    (own : next.inside → ∀ value, next.phase = .store value → value = after.data)
    (any : Thread) : ((world.put thread after next).place any).inside → ∀ value,
      ((world.put thread after next).place any).phase = .store value → value = after.data := by
  by_cases mover : any = thread
  · rw [mover, put_self]
    exact own
  · rw [put_other _ _ _ mover, same]
    exact serial.loaded any

theorem serial_quiet (serial : Serial data programs world order)
    (same : after.data = world.shared.data)
    (kept : next.left = (world.place thread).left)
    (guarded : Guarded (fun worker : Worker Data => worker.inside) (after.locked != 0)
      (world.put thread after next).place)
    (owner : after.locked ≠ 0 → ∃ any, ((world.put thread after next).place any).inside)
    (own : next.inside → ∀ value, next.phase = .store value → value = after.data) :
    Serial data programs (world.put thread after next) order where
  result := same.trans serial.result
  written := written_kept serial kept
  guarded := guarded
  owner := owner
  loaded := loaded_kept serial same own

theorem of_thread_append (order : Order Thread Data) (mover any : Thread) (update : Data → Data) :
    Order.ofThread (order ++ [(mover, update)]) any =
      order.ofThread any ++ if any = mover then [update] else [] := by
  rw [Order.ofThread, List.filter_append, List.map_append]
  by_cases same : any = mover
  · simp [Order.ofThread, same]
  · simp [Order.ofThread, same, Ne.symm same]

/-- The write of an update: the thread is alone inside, so that what it has loaded is
still the common value. -/
theorem serial_store (serial : Serial data programs world order)
    (inside : (world.place thread).inside) (insideNext : next.inside) {update : Data → Data}
    {loaded : Data} (before : (world.place thread).phase = .store loaded)
    (phase : next.phase = .unlock) (made : (world.place thread).left = update :: next.left) :
    Serial data programs
      (world.put thread { world.shared with data := update loaded } next)
      (order ++ [(thread, update)]) where
  result := by
    rw [serial.loaded thread inside loaded before, serial.result, Order.result, Order.result,
      List.foldl_append]
    rfl
  written := by
    intro any
    rw [of_thread_append, ← serial.written any]
    by_cases same : any = thread
    · rw [same, put_self, if_pos rfl, made, List.append_assoc]
      rfl
    · rw [put_other _ _ _ same, if_neg same, List.append_nil]
  guarded := serial.guarded.stay fun _ => inside
  owner := by
    intro _
    refine ⟨thread, ?_⟩
    rw [put_self]
    exact insideNext
  loaded := by
    intro any insideAny value stored
    by_cases same : any = thread
    · rw [same, put_self, phase] at stored
      cases stored
    · rw [put_other _ _ _ same] at insideAny
      exact absurd insideAny (serial.guarded.outside inside same)

theorem serial_move (serial : Serial data programs world order)
    (moved : move world.shared (world.place thread) = some (after, next)) :
    ∃ more : Order Thread Data,
      Serial data programs (world.put thread after next) (order ++ more) := by
  have change := move_change moved
  cases change with
  | wait out outNext kept locked =>
      refine ⟨[], ?_⟩
      rw [List.append_nil]
      have guarded := serial.guarded
      rw [bne_iff_ne.mpr locked] at guarded
      exact serial_quiet serial rfl kept (guarded.stay fun inside => absurd inside outNext)
        (fun _ => owner_other serial out locked) fun inside => absurd inside outNext
  | look out outNext kept =>
      refine ⟨[], ?_⟩
      rw [List.append_nil]
      exact serial_quiet serial rfl kept (serial.guarded.stay fun inside => absurd inside outNext)
        (owner_other serial out) fun inside => absurd inside outNext
  | enter free kept inside phase =>
      refine ⟨[], ?_⟩
      rw [List.append_nil]
      have guarded := serial.guarded
      rw [free] at guarded
      refine serial_quiet serial rfl kept guarded.enter ?_ ?_
      · intro _
        refine ⟨thread, ?_⟩
        rw [put_self]
        exact inside
      · intro _ value stored
        cases phase.symm.trans stored
  | load inside insideNext kept phase =>
      refine ⟨[], ?_⟩
      rw [List.append_nil]
      refine serial_quiet serial rfl kept (serial.guarded.stay fun _ => inside) ?_ ?_
      · intro _
        refine ⟨thread, ?_⟩
        rw [put_self]
        exact insideNext
      · intro _ value stored
        exact (Phase.store.inj (phase.symm.trans stored)).symm
  | store inside insideNext update loaded before phase made =>
      exact ⟨_, serial_store serial inside insideNext before phase made⟩
  | leave inside out kept =>
      refine ⟨[], ?_⟩
      rw [List.append_nil]
      exact serial_quiet serial rfl kept (serial.guarded.leave inside out _)
        (fun locked => absurd rfl locked) fun inside => absurd inside out

end Step

variable {data : Data} {programs : Thread → List (Data → Data)}
  {world : World Thread (Shared Data) (Worker Data)} {order : Order Thread Data}

theorem idle_serial (data : Data) (programs : Thread → List (Data → Data)) :
    Serial data programs (idle data programs) [] where
  result := rfl
  written := fun _ => rfl
  guarded := by
    have nobody : ∀ thread, ¬((idle data programs).place thread).inside := by
      intro thread
      simp only [idle, Worker.inside]
      cases programs thread <;> simp
    exact ⟨fun thread inside => absurd inside (nobody thread),
      fun thread _ inside => absurd inside (nobody thread)⟩
  owner := fun locked => absurd rfl locked
  loaded := fun _ _ _ stored => by cases stored

theorem serial_run (serial : Serial data programs world order) (schedule : List Thread) :
    ∃ order, Serial data programs (run move world schedule) order := by
  apply run_invariant move (fun reached : World Thread (Shared Data) (Worker Data) =>
    ∃ order, Serial data programs reached order) _ ⟨order, serial⟩
  intro reached mover after next ⟨order, serial⟩ moved
  obtain ⟨more, stepped⟩ := serial_move serial moved
  exact ⟨order ++ more, stepped⟩

/-! ### Progress -/

/-- Running alone, the thread makes its next update and leaves the mutex free. -/
def Finishes (thread : Thread) (world : World Thread (Shared Data) (Worker Data)) : Prop :=
  ∃ moves, (run move world (List.replicate moves thread)).shared.locked = 0 ∧
    ((run move world (List.replicate moves thread)).place thread).updates.length <
      (world.place thread).updates.length ∧
    ∀ other, other ≠ thread →
      (run move world (List.replicate moves thread)).place other = world.place other

theorem finishes_later {thread : Thread} {after : Shared Data} {next : Worker Data}
    (moved : move world.shared (world.place thread) = some (after, next))
    (kept : next.updates = (world.place thread).updates)
    (later : Finishes thread (world.put thread after next)) : Finishes thread world := by
  obtain ⟨moves, free, fewer, others⟩ := later
  have first : run move world (List.replicate (moves + 1) thread) =
      run move (world.put thread after next) (List.replicate moves thread) := by
    rw [List.replicate_succ, run, List.foldl_cons, step_of_move moved]
    rfl
  refine ⟨moves + 1, ?_, ?_, ?_⟩
  · rw [first]
    exact free
  · rw [first, ← kept]
    rw [put_self] at fewer
    exact fewer
  · intro other different
    rw [first, others other different, put_other _ _ _ different]

section Alone

variable {thread : Thread} {update : Data → Data} {rest : List (Data → Data)}

theorem unlock_finishes (place : world.place thread = ⟨.unlock, update :: rest⟩) :
    Finishes thread world := by
  have moved : move world.shared (world.place thread) =
      some ({ world.shared with locked := 0 }, ⟨.exchange, rest⟩) := by
    rw [place]
    rfl
  have last : run move world (List.replicate 1 thread) = world.put thread _ _ :=
    step_of_move moved
  refine ⟨1, ?_, ?_, ?_⟩
  · rw [last, put_shared]
  · rw [last, put_self, place]
    exact Nat.lt_succ_self _
  · intro other different
    rw [last, put_other _ _ _ different]

theorem store_finishes {loaded : Data} (place : world.place thread = ⟨.store loaded, update :: rest⟩) :
    Finishes thread world := by
  have moved : move world.shared (world.place thread) =
      some ({ world.shared with data := update loaded }, ⟨.unlock, update :: rest⟩) := by
    rw [place]
    rfl
  apply finishes_later moved
  · rw [place]
  · exact unlock_finishes (put_self world thread _ _)

theorem load_finishes (place : world.place thread = ⟨.load, update :: rest⟩) :
    Finishes thread world := by
  have moved : move world.shared (world.place thread) =
      some (world.shared, ⟨.store world.shared.data, update :: rest⟩) := by
    rw [place]
    rfl
  apply finishes_later moved
  · rw [place]
  · exact store_finishes (put_self world thread _ _)

theorem exchange_finishes (free : world.shared.locked = 0)
    (place : world.place thread = ⟨.exchange, update :: rest⟩) : Finishes thread world := by
  have moved : move world.shared (world.place thread) =
      some ({ world.shared with locked := 1 }, ⟨.load, update :: rest⟩) := by
    rw [place]
    simp [move, atomicTestAndSet, free]
  apply finishes_later moved
  · rw [place]
  · exact load_finishes (put_self world thread _ _)

theorem spin_finishes (free : world.shared.locked = 0)
    (place : world.place thread = ⟨.spin, update :: rest⟩) : Finishes thread world := by
  have moved : move world.shared (world.place thread) =
      some (world.shared, ⟨.exchange, update :: rest⟩) := by
    rw [place]
    simp [move, free]
  apply finishes_later moved
  · rw [place]
  · exact exchange_finishes free (put_self world thread _ _)

end Alone

theorem inside_finishes {thread : Thread} (inside : (world.place thread).inside) :
    Finishes thread world := by
  cases place : world.place thread with
  | mk phase updates =>
      rw [place] at inside
      cases updates with
      | nil => exact absurd inside (by simp [Worker.inside])
      | cons update rest =>
          cases phase with
          | load => exact load_finishes place
          | store loaded => exact store_finishes place
          | unlock => exact unlock_finishes place
          | exchange => exact absurd inside (by simp [Worker.inside])
          | spin => exact absurd inside (by simp [Worker.inside])

theorem free_finishes {thread : Thread} (free : world.shared.locked = 0)
    (work : (world.place thread).updates ≠ []) : Finishes thread world := by
  cases place : world.place thread with
  | mk phase updates =>
      rw [place] at work
      cases updates with
      | nil => exact absurd rfl work
      | cons update rest =>
          cases phase with
          | exchange => exact exchange_finishes free place
          | spin => exact spin_finishes free place
          | load => exact load_finishes place
          | store loaded => exact store_finishes place
          | unlock => exact unlock_finishes place

theorem no_deadlock (serial : Serial data programs world order) {thread : Thread}
    (work : (world.place thread).updates ≠ []) :
    ∃ more, ((run move world more).place thread).updates.length <
      (world.place thread).updates.length := by
  by_cases free : world.shared.locked = 0
  · obtain ⟨moves, _, fewer, _⟩ := free_finishes free work
    exact ⟨_, fewer⟩
  · obtain ⟨holder, inside⟩ := serial.owner free
    obtain ⟨moves, freed, fewer, others⟩ := inside_finishes inside
    by_cases own : thread = holder
    · rw [own]
      exact ⟨_, fewer⟩
    · rw [← others thread own] at work ⊢
      obtain ⟨later, _, fewer, _⟩ := free_finishes freed work
      refine ⟨List.replicate moves holder ++ List.replicate later thread, ?_⟩
      rw [run_append]
      exact fewer

/-- In every interleaving the updates under the mutex take effect one after another, none
lost and each thread's in its order; and from every state reached a thread that still has
an update to make can be brought to finish it. -/
theorem mutex_serializes (data : Data) (programs : Thread → List (Data → Data))
    (schedule : List Thread) :
    (∃ order : Order Thread Data,
      (run move (idle data programs) schedule).shared.data = order.result data ∧
      ∀ thread, order.ofThread thread ++
        ((run move (idle data programs) schedule).place thread).left = programs thread) ∧
    ∀ thread, ((run move (idle data programs) schedule).place thread).updates ≠ [] →
      ∃ more, ((run move (idle data programs) (schedule ++ more)).place thread).updates.length <
        ((run move (idle data programs) schedule).place thread).updates.length := by
  obtain ⟨order, serial⟩ := serial_run (idle_serial data programs) schedule
  refine ⟨⟨order, serial.result, serial.written⟩, ?_⟩
  intro thread work
  obtain ⟨more, fewer⟩ := no_deadlock serial work
  refine ⟨more, ?_⟩
  rw [run_append]
  exact fewer

end KittyOs.RuntimeMutex
