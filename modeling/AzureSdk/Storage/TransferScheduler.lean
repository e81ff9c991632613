import Mathlib

/-!
# The concurrency-limited scheduler of partitioned transfers

`run_all_with_concurrency_limit` takes operation factories from a stream and keeps at
most `parallel` of the operations they make running. With `parallel = 1` it runs them
one after another. Otherwise, at the top of its loop `run_down` waits for running
operations until at most `parallel - 1` are left, and then `future::select` races the
stream's next item against the running set: a factory is called and joins the set, the
end of the stream hands the set to `try_join_all`, and a completed operation leaves the
set, which when empty makes the loop wait for the stream alone.

The environment decides which future is ready: a step takes a choice, read modulo the
number of futures raced, and a factory is named by its position in the stream. The
`SelectAll` is the list of running operations; `select_all` removes the completed one, and
panics when it is handed no futures, as `run_down` would hand it an empty set.
-/

namespace StorageBlob

set_option autoImplicit false

variable {ε : Type}

/-- The stream and the operations: the stream yields `factories` factories, then `failure`
as an error or its end; the operation of factory `k` returns `outcome k`. -/
structure Environment (ε : Type) where
  factories : Nat
  failure : Option ε
  outcome : Nat → Except ε Unit

/-- `ops_queue.try_next()` as the item at position `position`. -/
def Environment.next (env : Environment ε) (position : Nat) : Except ε (Option Nat) :=
  if position < env.factories then .ok (some position)
  else
    match env.failure with
    | some e => .error e
    | none => .ok none

inductive Pc (ε : Type) where
  /-- `parallel = 1`: awaiting the stream's next item. -/
  | sequential
  /-- `parallel = 1`: awaiting the one operation. -/
  | awaitOne
  /-- Awaiting the first item. -/
  | first
  /-- `run_down` at the top of the loop. -/
  | runDown
  /-- `future::select` of the stream against the running set. -/
  | race
  /-- The running set emptied: awaiting the stream alone. -/
  | awaitQueue
  /-- `try_join_all` of the running set. -/
  | joinAll
  | done (result : Except ε Unit)
  /-- `select_all` was handed no futures. -/
  | panicked

structure Scheduler (ε : Type) where
  pc : Pc ε
  /-- Factories taken from the stream: the next item is at this position. -/
  pulled : Nat
  running : List Nat
  invoked : List Nat
  /-- Operations whose `Ok` the run has seen. -/
  completed : List Nat

def Scheduler.init (parallel : ℕ+) : Scheduler ε :=
  ⟨if (parallel : Nat) = 1 then .sequential else .first, 0, [], [], []⟩

/-- Awaiting the stream: an error ends the run, its end leads to `ended`, and a factory is
called at once, its operation joining the running set, and the run goes on at `next`. -/
def Scheduler.pull (env : Environment ε) (s : Scheduler ε) (ended : Scheduler ε) (next : Pc ε) :
    Scheduler ε :=
  match env.next s.pulled with
  | .error e => { s with pc := .done (.error e) }
  | .ok none => ended
  | .ok (some k) =>
      { s with
        pc := next
        pulled := s.pulled + 1
        running := s.running ++ [k]
        invoked := s.invoked ++ [k] }

/-- The running operation at `index` completes: an error ends the run; otherwise it leaves
the set, and `next` of what is left says where the run goes on. -/
def Scheduler.retire (env : Environment ε) (s : Scheduler ε) (index : Nat) (next : List Nat → Pc ε) :
    Scheduler ε :=
  match s.running[index]? with
  | none => s
  | some k =>
      match env.outcome k with
      | .error e => { s with pc := .done (.error e) }
      | .ok () =>
          { s with
            pc := next (s.running.eraseIdx index)
            running := s.running.eraseIdx index
            completed := s.completed ++ [k] }

/-- One step of `run_all_with_concurrency_limit`, `choice` picking the future that is
ready. -/
def Scheduler.step (parallel : ℕ+) (env : Environment ε) (s : Scheduler ε) (choice : Nat) : Scheduler ε :=
  match s.pc with
  | .sequential => s.pull env { s with pc := .done (.ok ()) } .awaitOne
  | .awaitOne => s.retire env 0 fun _ => .sequential
  | .first => s.pull env { s with pc := .done (.ok ()) } .runDown
  | .runDown =>
      if max ((parallel : Nat) - 1) 1 < s.running.length then
        s.retire env (choice % s.running.length) fun _ => .runDown
      -- `run_down` ends by handing what is left to `select_all`
      else if s.running.isEmpty then { s with pc := .panicked }
      else { s with pc := .race }
  | .race =>
      -- choice 0 is the stream's item, `i + 1` the `i`-th running operation
      match choice % (s.running.length + 1) with
      | 0 => s.pull env { s with pc := .joinAll } .runDown
      | i + 1 => s.retire env i fun left => if left.isEmpty then .awaitQueue else .runDown
  | .awaitQueue => s.pull env { s with pc := .done (.ok ()) } .runDown
  | .joinAll =>
      if s.running.isEmpty then { s with pc := .done (.ok ()) }
      else s.retire env (choice % s.running.length) fun _ => .joinAll
  | .done _ => s
  | .panicked => s

def Scheduler.run (parallel : ℕ+) (env : Environment ε) (s : Scheduler ε) (schedule : List Nat) :
    Scheduler ε :=
  schedule.foldl (step parallel env) s

namespace Scheduler

variable {parallel : ℕ+} {env : Environment ε}

theorem next_eq_some_iff {position k : Nat} :
    env.next position = .ok (some k) ↔ position < env.factories ∧ k = position := by
  unfold Environment.next
  split_ifs with below
  · simp [below, eq_comm]
  · cases env.failure <;> simp [below]

theorem next_eq_none_iff {position : Nat} :
    env.next position = .ok none ↔ env.factories ≤ position ∧ env.failure = none := by
  unfold Environment.next
  split_ifs with below
  · simp [below]
  · cases env.failure <;> simp; omega

theorem next_eq_error_iff {position : Nat} {e : ε} :
    env.next position = .error e ↔ env.factories ≤ position ∧ env.failure = some e := by
  unfold Environment.next
  split_ifs with below
  · simp [below]
  · cases env.failure <;> simp [eq_comm]; omega

theorem pull_cases (s ended : Scheduler ε) (next : Pc ε) :
    (∃ e, env.next s.pulled = .error e ∧ s.pull env ended next = { s with pc := .done (.error e) }) ∨
      (env.next s.pulled = .ok none ∧ s.pull env ended next = ended) ∨
      (s.pulled < env.factories ∧ s.pull env ended next =
        { s with
          pc := next
          pulled := s.pulled + 1
          running := s.running ++ [s.pulled]
          invoked := s.invoked ++ [s.pulled] }) := by
  unfold pull
  split
  · next e failed => exact .inl ⟨e, failed, rfl⟩
  · next finished => exact .inr (.inl ⟨finished, rfl⟩)
  · next k called =>
      obtain ⟨available, rfl⟩ := next_eq_some_iff.mp called
      exact .inr (.inr ⟨available, rfl⟩)

theorem retire_cases (s : Scheduler ε) {index : Nat} (inRange : index < s.running.length)
    (next : List Nat → Pc ε) :
    (∃ e, env.outcome s.running[index] = .error e ∧ s.retire env index next = { s with pc := .done (.error e) }) ∨
      (env.outcome s.running[index] = .ok () ∧ s.retire env index next =
        { s with
          pc := next (s.running.eraseIdx index)
          running := s.running.eraseIdx index
          completed := s.completed ++ [s.running[index]] }) := by
  unfold retire
  rw [List.getElem?_eq_getElem inRange]
  dsimp only
  cases outcome : env.outcome s.running[index] with
  | error e => exact .inl ⟨e, rfl, rfl⟩
  | ok _ => exact .inr ⟨rfl, rfl⟩

/-- The factories called are the ones taken, in stream order, and each has returned `Ok`
or is running. -/
structure Accounting (env : Environment ε) (s : Scheduler ε) : Prop where
  inOrder : s.invoked = List.range s.pulled
  yielded : s.pulled ≤ env.factories
  accounted : s.invoked.Perm (s.completed ++ s.running)
  succeeded : ∀ k ∈ s.completed, env.outcome k = .ok ()

theorem Accounting.setPc {s : Scheduler ε} (acc : Accounting env s) (next : Pc ε) :
    Accounting env { s with pc := next } :=
  ⟨acc.inOrder, acc.yielded, acc.accounted, acc.succeeded⟩

theorem Accounting.call {s : Scheduler ε} (acc : Accounting env s) (available : s.pulled < env.factories)
    (next : Pc ε) :
    Accounting env
      { s with
        pc := next
        pulled := s.pulled + 1
        running := s.running ++ [s.pulled]
        invoked := s.invoked ++ [s.pulled] } where
  inOrder := by simp [acc.inOrder, List.range_succ]
  yielded := available
  accounted := by
    rw [← List.append_assoc]
    exact acc.accounted.append_right [s.pulled]
  succeeded := acc.succeeded

theorem Accounting.retire {s : Scheduler ε} (acc : Accounting env s) {index : Nat}
    (inRange : index < s.running.length) (ok : env.outcome s.running[index] = .ok ()) (next : Pc ε) :
    Accounting env
      { s with
        pc := next
        running := s.running.eraseIdx index
        completed := s.completed ++ [s.running[index]] } where
  inOrder := acc.inOrder
  yielded := acc.yielded
  accounted := by
    refine acc.accounted.trans ?_
    rw [List.append_assoc]
    exact (List.getElem_cons_eraseIdx_perm inRange).symm.append_left s.completed
  succeeded := by
    intro k member
    rcases List.mem_append.mp member with earlier | latest
    · exact acc.succeeded k earlier
    · rw [List.mem_singleton.mp latest]
      exact ok

def Shape (parallel : ℕ+) (env : Environment ε) (s : Scheduler ε) : Prop :=
  match s.pc with
  | .sequential => (parallel : Nat) = 1 ∧ s.running = []
  | .awaitOne => (parallel : Nat) = 1 ∧ s.running.length = 1
  | .first => 1 < (parallel : Nat) ∧ s.running = []
  | .runDown => 1 < (parallel : Nat) ∧ s.running ≠ []
  | .race => 1 < (parallel : Nat) ∧ s.running ≠ [] ∧ s.running.length ≤ (parallel : Nat) - 1
  | .awaitQueue => 1 < (parallel : Nat) ∧ s.running = []
  | .joinAll => env.next s.pulled = .ok none
  | .done (.ok ()) => env.next s.pulled = .ok none ∧ s.running = []
  | .done (.error e) => env.next s.pulled = .error e ∨ ∃ k ∈ s.invoked, env.outcome k = .error e
  | .panicked => False

structure Invariant (parallel : ℕ+) (env : Environment ε) (s : Scheduler ε) : Prop where
  accounting : Accounting env s
  bounded : s.running.length ≤ parallel
  shaped : Shape parallel env s

/-- How much is left: each factory to take costs a pull and a completion, each running
operation a completion, and the program counter the moves before its next one. -/
def Pc.weight : Pc ε → Nat
  | .sequential => 1
  | .awaitOne => 1
  | .first => 2
  | .runDown => 3
  | .race => 2
  | .awaitQueue => 2
  | .joinAll => 1
  | .done _ => 0
  | .panicked => 0

@[simp] theorem Pc.weight_done (result : Except ε Unit) : Pc.weight (.done result) = 0 := rfl

def measure (env : Environment ε) (s : Scheduler ε) : Nat :=
  4 * (env.factories - s.pulled) + 2 * s.running.length + Pc.weight s.pc

theorem Accounting.invoked_of_running {s : Scheduler ε} (acc : Accounting env s) {index : Nat}
    (inRange : index < s.running.length) : s.running[index] ∈ s.invoked :=
  acc.accounted.symm.subset (List.mem_append_right _ (List.getElem_mem inRange))

theorem Invariant.weight_eq_zero {s : Scheduler ε} (inv : Invariant parallel env s) (light : Pc.weight s.pc = 0) :
    ∃ result, s.pc = .done result := by
  have shaped := inv.shaped
  unfold Shape at shaped
  cases hpc : s.pc <;> simp_all [Pc.weight]

/-! ## One step -/

theorem setPc_spec {s : Scheduler ε} (acc : Accounting env s) (bounded : s.running.length ≤ parallel)
    {next : Pc ε} (nextShape : Shape parallel env { s with pc := next }) (lighter : Pc.weight next < Pc.weight s.pc) :
    Invariant parallel env { s with pc := next } ∧ measure env { s with pc := next } < measure env s := by
  refine ⟨⟨acc.setPc next, bounded, nextShape⟩, ?_⟩
  simp only [measure]
  omega

theorem pull_spec {s : Scheduler ε} (acc : Accounting env s) (bounded : s.running.length ≤ parallel)
    {ended : Scheduler ε} {next : Pc ε}
    (endedSpec : env.next s.pulled = .ok none → Invariant parallel env ended ∧ measure env ended < measure env s)
    (roomy : s.running.length < parallel)
    (nextShape : Shape parallel env
      { s with
        pc := next
        pulled := s.pulled + 1
        running := s.running ++ [s.pulled]
        invoked := s.invoked ++ [s.pulled] })
    (lighter : Pc.weight next < Pc.weight s.pc + 2) (live : Pc.weight s.pc ≠ 0) :
    Invariant parallel env (s.pull env ended next) ∧ measure env (s.pull env ended next) < measure env s := by
  rcases pull_cases s ended next with ⟨e, failed, moved⟩ | ⟨finished, moved⟩ | ⟨available, moved⟩ <;>
    rw [moved]
  · refine ⟨⟨acc.setPc _, bounded, Or.inl failed⟩, ?_⟩
    simp only [measure, Pc.weight_done]
    omega
  · exact endedSpec finished
  · refine ⟨⟨acc.call available next, ?_, nextShape⟩, ?_⟩
    · simp only [List.length_append, List.length_singleton]
      omega
    · simp only [measure, List.length_append, List.length_singleton]
      omega

theorem retire_spec {s : Scheduler ε} (acc : Accounting env s) (bounded : s.running.length ≤ parallel)
    {index : Nat} (inRange : index < s.running.length) {next : List Nat → Pc ε}
    (nextShape : Shape parallel env
      { s with
        pc := next (s.running.eraseIdx index)
        running := s.running.eraseIdx index
        completed := s.completed ++ [s.running[index]] })
    (lighter : Pc.weight (next (s.running.eraseIdx index)) < Pc.weight s.pc + 2) (live : Pc.weight s.pc ≠ 0) :
    Invariant parallel env (s.retire env index next) ∧ measure env (s.retire env index next) < measure env s := by
  rcases retire_cases s inRange next with ⟨e, failed, moved⟩ | ⟨ok, moved⟩ <;> rw [moved]
  · refine ⟨⟨acc.setPc _, bounded, Or.inr ⟨_, acc.invoked_of_running inRange, failed⟩⟩, ?_⟩
    simp only [measure, Pc.weight_done]
    omega
  · refine ⟨⟨acc.retire inRange ok _, ?_, nextShape⟩, ?_⟩
    · rw [List.length_eraseIdx_of_lt inRange]
      omega
    · simp only [measure, List.length_eraseIdx_of_lt inRange]
      omega

theorem step_spec {s : Scheduler ε} (inv : Invariant parallel env s) (choice : Nat) (live : Pc.weight s.pc ≠ 0) :
    Invariant parallel env (s.step parallel env choice) ∧
      measure env (s.step parallel env choice) < measure env s := by
  obtain ⟨acc, bounded, shaped⟩ := inv
  have positive : 0 < (parallel : Nat) := parallel.pos
  unfold step
  cases hpc : s.pc with
  | sequential =>
      simp only [Shape, hpc] at shaped
      obtain ⟨single, idle⟩ := shaped
      refine pull_spec acc bounded (fun finished => setPc_spec acc bounded (And.intro finished idle) ?_) ?_
        (And.intro single (by simp [idle])) ?_ live <;> simp [hpc, Pc.weight, idle, positive]
  | awaitOne =>
      simp only [Shape, hpc] at shaped
      obtain ⟨single, one⟩ := shaped
      obtain ⟨k, alone⟩ := List.length_eq_one_iff.mp one
      refine retire_spec acc bounded (by omega) (And.intro single (by simp [alone])) ?_ live
      simp [hpc, Pc.weight]
  | first =>
      simp only [Shape, hpc] at shaped
      obtain ⟨mode, idle⟩ := shaped
      refine pull_spec acc bounded (fun finished => setPc_spec acc bounded (And.intro finished idle) ?_) ?_
        (And.intro mode (by simp)) ?_ live <;> simp [hpc, Pc.weight, idle, positive]
  | runDown =>
      simp only [Shape, hpc] at shaped
      obtain ⟨mode, nonempty⟩ := shaped
      dsimp only
      split_ifs with crowded empty
      · -- past the target at least two are running, so one is left after the completion
        have inRange : choice % s.running.length < s.running.length := Nat.mod_lt _ (by omega)
        have left : s.running.eraseIdx (choice % s.running.length) ≠ [] := by
          rw [← List.length_pos_iff, List.length_eraseIdx_of_lt inRange]
          omega
        refine retire_spec acc bounded inRange (And.intro mode left) ?_ live
        simp [hpc, Pc.weight]
      · exact absurd (List.isEmpty_iff.mp empty) nonempty
      · have bound : s.running.length ≤ (parallel : Nat) - 1 := by
          have notCrowded := not_lt.mp crowded
          rwa [max_eq_left (by omega)] at notCrowded
        exact setPc_spec acc bounded (And.intro mode (And.intro nonempty bound)) (by simp [hpc, Pc.weight])
  | race =>
      simp only [Shape, hpc] at shaped
      obtain ⟨mode, -, room⟩ := shaped
      dsimp only
      split
      · refine pull_spec acc bounded (fun finished => setPc_spec acc bounded finished ?_) (by omega)
          (And.intro mode (by simp)) ?_ live <;> simp [hpc, Pc.weight]
      · next i picked =>
          have inRange : i < s.running.length := by
            have := Nat.mod_lt choice (show 0 < s.running.length + 1 by omega)
            omega
          refine retire_spec acc bounded inRange ?_ ?_ live
          · split
            · next emptied => exact And.intro mode (List.isEmpty_iff.mp emptied)
            · next left => exact And.intro mode (fun empty => left (List.isEmpty_iff.mpr empty))
          · split <;> simp [hpc, Pc.weight]
  | awaitQueue =>
      simp only [Shape, hpc] at shaped
      obtain ⟨mode, idle⟩ := shaped
      refine pull_spec acc bounded (fun finished => setPc_spec acc bounded (And.intro finished idle) ?_) ?_
        (And.intro mode (by simp)) ?_ live <;> simp [hpc, Pc.weight, idle, positive]
  | joinAll =>
      simp only [Shape, hpc] at shaped
      dsimp only
      split_ifs with empty
      · exact setPc_spec acc bounded (And.intro shaped (List.isEmpty_iff.mp empty)) (by simp [hpc, Pc.weight])
      · have inRange : choice % s.running.length < s.running.length :=
          Nat.mod_lt _ (List.length_pos_iff.mpr (by simpa using empty))
        refine retire_spec acc bounded inRange shaped ?_ live
        simp [hpc, Pc.weight]
  | done result =>
      simp [hpc, Pc.weight] at live
  | panicked =>
      simp [hpc, Pc.weight] at live

/-! ## Whole runs -/

theorem invariant_init : Invariant parallel env (init parallel) := by
  refine ⟨⟨rfl, Nat.zero_le _, by simp [init], by simp [init]⟩, Nat.zero_le _, ?_⟩
  have positive : 0 < (parallel : Nat) := parallel.pos
  by_cases single : (parallel : Nat) = 1
  · simp [Shape, init, single]
  · simp [Shape, init, single]
    omega

theorem measure_init : measure env (init parallel) ≤ 4 * env.factories + 2 := by
  unfold measure init
  split_ifs <;> simp [Pc.weight]

theorem step_done {s : Scheduler ε} {result : Except ε Unit} (returned : s.pc = .done result) (choice : Nat) :
    s.step parallel env choice = s := by
  simp only [step, returned]

theorem run_of_done {s : Scheduler ε} {result : Except ε Unit} (returned : s.pc = .done result)
    (schedule : List Nat) : s.run parallel env schedule = s := by
  induction schedule with
  | nil => rfl
  | cons choice rest induction =>
      show rest.foldl _ (s.step parallel env choice) = s
      rw [step_done returned]
      exact induction

theorem invariant_step {s : Scheduler ε} (inv : Invariant parallel env s) (choice : Nat) :
    Invariant parallel env (s.step parallel env choice) := by
  by_cases live : Pc.weight s.pc = 0
  · obtain ⟨result, returned⟩ := inv.weight_eq_zero live
    rw [step_done returned]
    exact inv
  · exact (step_spec inv choice live).1

theorem invariant_run (schedule : List Nat) :
    ∀ s : Scheduler ε, Invariant parallel env s → Invariant parallel env (s.run parallel env schedule) := by
  induction schedule with
  | nil => exact fun _ inv => inv
  | cons choice rest induction => exact fun s inv => induction _ (invariant_step inv choice)

theorem returned_run (schedule : List Nat) :
    ∀ s : Scheduler ε, Invariant parallel env s → measure env s ≤ schedule.length →
      ∃ result, (s.run parallel env schedule).pc = .done result := by
  induction schedule with
  | nil =>
      intro s inv small
      simp only [measure, List.length_nil] at small
      show ∃ result, s.pc = .done result
      exact inv.weight_eq_zero (by omega)
  | cons choice rest induction =>
      intro s inv short
      by_cases live : Pc.weight s.pc = 0
      · obtain ⟨result, returned⟩ := inv.weight_eq_zero live
        exact ⟨result, by rw [run_of_done returned]; exact returned⟩
      · obtain ⟨kept, lower⟩ := step_spec inv choice live
        simp only [List.length_cons] at short
        exact induction _ kept (by omega)

end Scheduler

open Scheduler in
/-- For every stream, every outcome of the operations and every order in which the futures
become ready: no more than `parallel` operations run at once, the factories are called
once each, in stream order, and every one called has returned `Ok` or is running; the run
returns `Ok` only after the stream ended and every operation returned `Ok`, an error only
when the stream or an operation yielded it, and it returns within `4 · factories + 2`
steps. -/
theorem concurrency_limit_runs_every_operation (parallel : ℕ+) (env : Environment ε) (schedule : List Nat) :
    let reached := (init parallel).run parallel env schedule
    reached.running.length ≤ parallel ∧
      reached.invoked = List.range reached.pulled ∧ reached.pulled ≤ env.factories ∧
      reached.invoked.Perm (reached.completed ++ reached.running) ∧
      (reached.pc = .done (.ok ()) →
        reached.pulled = env.factories ∧ env.failure = none ∧ reached.running = [] ∧
          ∀ k ∈ reached.invoked, env.outcome k = .ok ()) ∧
      (∀ e, reached.pc = .done (.error e) →
        (env.failure = some e ∧ reached.pulled = env.factories) ∨ ∃ k ∈ reached.invoked, env.outcome k = .error e) ∧
      (4 * env.factories + 2 ≤ schedule.length → ∃ result, reached.pc = .done result) := by
  intro reached
  obtain ⟨acc, bounded, shaped⟩ : Invariant parallel env reached := invariant_run schedule _ invariant_init
  refine ⟨bounded, acc.inOrder, acc.yielded, acc.accounted, ?_, ?_, ?_⟩
  · intro returned
    simp only [Shape, returned] at shaped
    obtain ⟨finished, idle⟩ := shaped
    obtain ⟨drained, clean⟩ := next_eq_none_iff.mp finished
    refine ⟨le_antisymm acc.yielded drained, clean, idle, fun k member => acc.succeeded k ?_⟩
    simpa [idle] using acc.accounted.subset member
  · intro e returned
    simp only [Shape, returned] at shaped
    rcases shaped with failed | operation
    · obtain ⟨drained, failure⟩ := next_eq_error_iff.mp failed
      exact .inl ⟨failure, le_antisymm acc.yielded drained⟩
    · exact .inr operation
  · intro long
    exact returned_run schedule _ invariant_init (le_trans measure_init long)

open Scheduler in
/-- For every stream, every outcome of the operations and every order in which the futures
become ready, the run never panics: whenever it is at the end of `run_down`, which hands
the running set to `select_all`, or races the stream against that set, the set holds at
least one operation. -/
theorem select_all_never_sees_empty_set (parallel : ℕ+) (env : Environment ε) (schedule : List Nat) :
    let reached := (init parallel).run parallel env schedule
    reached.pc ≠ .panicked ∧ (reached.pc = .runDown → reached.running ≠ []) ∧
      (reached.pc = .race → reached.running ≠ []) := by
  intro reached
  obtain ⟨-, -, shaped⟩ : Invariant parallel env reached := invariant_run schedule _ invariant_init
  refine ⟨fun panicked => ?_, fun racing => ?_, fun racing => ?_⟩
  · simp only [Shape, panicked] at shaped
  · simp only [Shape, racing] at shaped
    exact shaped.2
  · simp only [Shape, racing] at shaped
    exact shaped.2.1

end StorageBlob
