import Mathlib

/-!
# The single-flight metadata cache

`AsyncCache` keeps, for a key, an `AsyncLazy` in a map behind an async `RwLock`, and each
`AsyncLazy` keeps its value behind a lock of its own. This module models one key of the
cache under every interleaving of the calls made on it: each call is a task, and a task
moves one atomic section at a time, from one `.await` of the code to the next. The map's
guarded sections hold no `.await` and are one step each; the lazy's write lock is held
across steps, and `try_get` fails while it is held.

A lazy is named by the step that made it, and a factory's value by the step that
completed it, so that identity of `Arc`s is equality of names. The clock, the log of
completed factories, and the step at which each call began are kept for the statements
only: the code has none of them.
-/

namespace CosmosDriver.AsyncCache

set_option autoImplicit false

abbrev Stamp := Nat

/-- An `AsyncLazy`: its value and the task holding its write lock. -/
structure Lazy where
  value : Option Stamp
  writer : Option Nat

def Lazy.new : Lazy := ⟨none, none⟩

/-- `AsyncLazy::try_get`: `try_read` fails while the write lock is held. -/
def Lazy.tryGet (lazy : Lazy) : Option Stamp :=
  match lazy.writer with
  | some _ => none
  | none => lazy.value

inductive Call where
  | getOrInsertWith
  | getOrRefreshWith (shouldForceRefresh : Option Stamp → Bool)
  | get
  | invalidate
  | invalidateIfSame (observed : Stamp)

def Call.isInvalidate : Call → Bool
  | .invalidate => true
  | _ => false

/-- What a call returned: a value, or whether `invalidate_if_same` removed the entry. -/
inductive Reply where
  | value (result : Option Stamp)
  | removed (done : Bool)

inductive Pc where
  | idle
  | start (call : Call)
  /-- `get_or_insert_with` missed on the read lock and waits for the write lock. -/
  | slowPath
  /-- `get_or_refresh_with` decided to refresh the lazy it saw and waits for the write lock. -/
  | refresh (initial : Option Nat)
  /-- `get_or_init` waits for the lazy's read lock. -/
  | readLazy (lazy : Nat)
  /-- `get_or_init` found no value and waits for the write lock. -/
  | writeLazy (lazy : Nat)
  /-- `get_or_init` holds the write lock and looks again. -/
  | checkLazy (lazy : Nat)
  /-- The factory runs under the write lock. -/
  | runFactory (lazy : Nat)
  /-- `AsyncLazy::get` waits for a value. -/
  | awaitValue (lazy : Nat)
  | finished (reply : Reply)

def Pc.lazy : Pc → Option Nat
  | .readLazy l | .writeLazy l | .checkLazy l | .runFactory l | .awaitValue l => some l
  | _ => none

structure Task where
  pc : Pc
  /-- The step at which the call began. -/
  begun : Nat
  /-- The predicate of `get_or_refresh_with` returned `true`. -/
  forced : Bool

structure Cache where
  /-- The map's lazy for the key. -/
  entry : Option Nat
  lazies : Nat → Lazy
  now : Nat
  /-- The values factories have completed. -/
  made : List Stamp
  tasks : Nat → Task

def init (calls : List Call) : Cache where
  entry := none
  lazies := fun _ => Lazy.new
  now := 0
  made := []
  tasks := fun t =>
    match calls[t]? with
    | some call => ⟨.start call, 0, false⟩
    | none => ⟨.idle, 0, false⟩

namespace Cache

/-- Task `t` begins its call and moves to `pc`. -/
@[simps] def start (c : Cache) (t : Nat) (pc : Pc) (forced : Bool) : Cache :=
  { c with
    tasks := Function.update c.tasks t ⟨pc, c.now, forced⟩
    now := c.now + 1 }

/-- Task `t` moves to `pc`. -/
@[simps] def goto (c : Cache) (t : Nat) (pc : Pc) : Cache :=
  { c with
    tasks := Function.update c.tasks t { c.tasks t with pc := pc }
    now := c.now + 1 }

@[simps] def setLazy (c : Cache) (l : Nat) (lazy : Lazy) : Cache :=
  { c with lazies := Function.update c.lazies l lazy }

/-- `Arc::new(AsyncLazy::new())` inserted in the map: the lazy this step names. -/
@[simps] def insertNew (c : Cache) : Cache := { c with entry := some c.now }

@[simps] def removeEntry (c : Cache) : Cache := { c with entry := none }

/-- The factory of lazy `l` returns: the value this step names is stored and the lock released. -/
@[simps] def complete (c : Cache) (l : Nat) : Cache :=
  { c with
    lazies := Function.update c.lazies l ⟨some c.now, none⟩
    made := c.now :: c.made }

/-- The value `try_get` gives of the map's lazy. -/
def current (c : Cache) : Option Stamp := c.entry.bind fun l => (c.lazies l).tryGet

end Cache

open Cache

def beginCall (c : Cache) (t : Nat) : Call → Cache
  | .getOrInsertWith =>
      match c.entry with
      | some l => c.start t (.readLazy l) false
      | none => c.start t .slowPath false
  | .getOrRefreshWith shouldForceRefresh =>
      match c.entry with
      | some l =>
          match (c.lazies l).tryGet with
          -- a lazy without a value is taken for an initialisation in progress
          | none => c.start t (.awaitValue l) false
          | some existing =>
              if shouldForceRefresh (some existing) then c.start t (.refresh (some l)) true
              else c.start t (.finished (.value (some existing))) false
      | none =>
          if shouldForceRefresh none then c.start t (.refresh none) true
          else c.start t (.finished (.value none)) false
  | .get => c.start t (.finished (.value c.current)) false
  | .invalidate => c.removeEntry.start t (.finished (.value c.current)) false
  | .invalidateIfSame observed =>
      if c.current = some observed then c.removeEntry.start t (.finished (.removed true)) false
      else c.start t (.finished (.removed false)) false

/-- The write section of `get_or_insert_with`: the double check, or a new lazy. -/
def slowPath (c : Cache) (t : Nat) : Cache :=
  match c.entry with
  | some l => c.goto t (.readLazy l)
  | none => c.insertNew.goto t (.readLazy c.now)

/-- The write section of `get_or_refresh_with`: replace the lazy it saw, or wait for the one
another task put there. -/
def refresh (c : Cache) (t : Nat) (initial : Option Nat) : Cache :=
  match initial, c.entry with
  | none, none => c.insertNew.goto t (.readLazy c.now)
  | none, some current => c.goto t (.awaitValue current)
  | some observed, some current =>
      if observed = current then c.insertNew.goto t (.readLazy c.now)
      else c.goto t (.awaitValue current)
  | some _, none => c.insertNew.goto t (.readLazy c.now)

/-- The fast path of `get_or_init`, once no writer holds the lazy. -/
def readLazy (c : Cache) (t l : Nat) : Cache :=
  match (c.lazies l).writer with
  | some _ => c
  | none =>
      match (c.lazies l).value with
      | some v => c.goto t (.finished (.value (some v)))
      | none => c.goto t (.writeLazy l)

def writeLazy (c : Cache) (t l : Nat) : Cache :=
  match (c.lazies l).writer with
  | some _ => c
  | none => (c.setLazy l { c.lazies l with writer := some t }).goto t (.checkLazy l)

/-- The double check under the write lock: a value there is returned and the lock released,
else the factory starts. -/
def checkLazy (c : Cache) (t l : Nat) : Cache :=
  match (c.lazies l).value with
  | some v => (c.setLazy l { c.lazies l with writer := none }).goto t (.finished (.value (some v)))
  | none => c.goto t (.runFactory l)

def runFactory (c : Cache) (t l : Nat) : Cache :=
  (c.complete l).goto t (.finished (.value (some c.now)))

/-- A round of the loop of `AsyncLazy::get`: without a value it yields and comes back. -/
def awaitValue (c : Cache) (t l : Nat) : Cache :=
  match (c.lazies l).writer, (c.lazies l).value with
  | none, some v => c.goto t (.finished (.value (some v)))
  | _, _ => c

def advance (c : Cache) (t : Nat) : Cache :=
  match (c.tasks t).pc with
  | .idle => c
  | .start call => beginCall c t call
  | .slowPath => slowPath c t
  | .refresh initial => refresh c t initial
  | .readLazy l => readLazy c t l
  | .writeLazy l => writeLazy c t l
  | .checkLazy l => checkLazy c t l
  | .runFactory l => runFactory c t l
  | .awaitValue l => awaitValue c t l
  | .finished _ => c

inductive Reachable (calls : List Call) : Cache → Prop where
  | init : Reachable calls (init calls)
  | step {c : Cache} (t : Nat) : Reachable calls c → Reachable calls (advance c t)

def run (c : Cache) (schedule : List Nat) : Cache := schedule.foldl advance c

theorem reachable_run (calls : List Call) (schedule : List Nat) : Reachable calls (run (init calls) schedule) := by
  suffices ∀ c, Reachable calls c → Reachable calls (run c schedule) from this _ .init
  induction schedule with
  | nil => exact fun _ reachable => reachable
  | cons t rest induction =>
      intro c reachable
      exact induction _ (.step t reachable)

/-! ## What every interleaving keeps -/

/-- What a refresh whose predicate returned `true` has made sure of since it began: every
lazy it may take its value from was made after it began. -/
structure ForcedFresh (c : Cache) (task : Task) : Prop where
  begun_lt : task.begun < c.now
  not_slowPath : task.pc ≠ .slowPath
  refreshing : ∀ initial current, task.pc = .refresh initial → c.entry = some current →
    initial ≠ some current → task.begun < current
  working : ∀ l, task.pc.lazy = some l → task.begun < l
  replied : ∀ v, task.pc = .finished (.value (some v)) → task.begun < v

structure TaskInv (c : Cache) (t : Nat) (task : Task) : Prop where
  lazy_lt : ∀ l, task.pc.lazy = some l → l < c.now
  holds_lock : ∀ l, task.pc = .checkLazy l ∨ task.pc = .runFactory l → (c.lazies l).writer = some t
  running_empty : ∀ l, task.pc = .runFactory l → (c.lazies l).value = none
  reply_made : ∀ v, task.pc = .finished (.value (some v)) → v ∈ c.made
  forced_fresh : task.forced = true → ForcedFresh c task

structure Inv (c : Cache) : Prop where
  entry_lt : ∀ l, c.entry = some l → l < c.now
  value_made : ∀ l v, (c.lazies l).value = some v → v ∈ c.made ∧ l < v
  tasks : ∀ t, TaskInv c t (c.tasks t)

section Frame

variable {c : Cache} {u : Nat} {task : Task}

theorem ForcedFresh.later {c' : Cache} (fresh : ForcedFresh c task) (later : c.now ≤ c'.now)
    (entry : c'.entry = c.entry) : ForcedFresh c' task where
  begun_lt := Nat.lt_of_lt_of_le fresh.begun_lt later
  not_slowPath := fresh.not_slowPath
  refreshing initial current refreshing inserted := fresh.refreshing initial current refreshing (entry ▸ inserted)
  working := fresh.working
  replied := fresh.replied

theorem TaskInv.goto (inv : TaskInv c u task) (t : Nat) (pc : Pc) : TaskInv (c.goto t pc) u task where
  lazy_lt l working := Nat.lt_succ_of_lt (inv.lazy_lt l working)
  holds_lock := inv.holds_lock
  running_empty := inv.running_empty
  reply_made := inv.reply_made
  forced_fresh forced := (inv.forced_fresh forced).later (Nat.le_succ _) rfl

theorem TaskInv.start (inv : TaskInv c u task) (t : Nat) (pc : Pc) (forced : Bool) :
    TaskInv (c.start t pc forced) u task where
  lazy_lt l working := Nat.lt_succ_of_lt (inv.lazy_lt l working)
  holds_lock := inv.holds_lock
  running_empty := inv.running_empty
  reply_made := inv.reply_made
  forced_fresh forced := (inv.forced_fresh forced).later (Nat.le_succ _) rfl

theorem TaskInv.insertNew (inv : TaskInv c u task) : TaskInv c.insertNew u task where
  lazy_lt := inv.lazy_lt
  holds_lock := inv.holds_lock
  running_empty := inv.running_empty
  reply_made := inv.reply_made
  forced_fresh forced :=
    let fresh := inv.forced_fresh forced
    { fresh with
      refreshing := by
        intro initial current refreshing inserted _
        simp only [insertNew_entry, Option.some.injEq] at inserted
        rw [← inserted]
        exact fresh.begun_lt }

theorem TaskInv.removeEntry (inv : TaskInv c u task) : TaskInv c.removeEntry u task where
  lazy_lt := inv.lazy_lt
  holds_lock := inv.holds_lock
  running_empty := inv.running_empty
  reply_made := inv.reply_made
  forced_fresh forced :=
    let fresh := inv.forced_fresh forced
    { fresh with
      refreshing := by
        intro initial current _ removed
        cases removed }

theorem TaskInv.setLazy (inv : TaskInv c u task) (l : Nat) (lazy : Lazy)
    (other : ∀ w, (c.lazies l).writer = some w → w ≠ u) : TaskInv (c.setLazy l lazy) u task where
  lazy_lt := inv.lazy_lt
  holds_lock := by
    intro l' holding
    have held := inv.holds_lock l' holding
    have distinct : l' ≠ l := by
      rintro rfl
      exact other u held rfl
    simpa [Function.update_of_ne distinct] using held
  running_empty := by
    intro l' running
    have distinct : l' ≠ l := by
      rintro rfl
      exact other u (inv.holds_lock l' (Or.inr running)) rfl
    simpa [Function.update_of_ne distinct] using inv.running_empty l' running
  reply_made := inv.reply_made
  forced_fresh forced := (inv.forced_fresh forced).later (le_refl _) rfl

theorem TaskInv.complete (inv : TaskInv c u task) (l : Nat)
    (other : ∀ w, (c.lazies l).writer = some w → w ≠ u) : TaskInv (c.complete l) u task where
  lazy_lt := inv.lazy_lt
  holds_lock := (inv.setLazy l ⟨some c.now, none⟩ other).holds_lock
  running_empty := (inv.setLazy l ⟨some c.now, none⟩ other).running_empty
  reply_made v replied := List.mem_cons_of_mem _ (inv.reply_made v replied)
  forced_fresh forced := (inv.forced_fresh forced).later (le_refl _) rfl

end Frame

theorem inv_goto {c : Cache} {t : Nat} {pc : Pc}
    (entry_le : ∀ l, c.entry = some l → l ≤ c.now)
    (value_made : ∀ l v, (c.lazies l).value = some v → v ∈ c.made ∧ l < v)
    (others : ∀ u, u ≠ t → TaskInv c u (c.tasks u))
    (own : TaskInv (c.goto t pc) t { c.tasks t with pc := pc }) : Inv (c.goto t pc) where
  entry_lt l inserted := Nat.lt_succ_of_le (entry_le l inserted)
  value_made := value_made
  tasks := by
    intro u
    by_cases same : u = t
    · subst same
      simpa using own
    · rw [goto_tasks, Function.update_of_ne same]
      exact (others u same).goto t pc

theorem inv_start {c : Cache} {t : Nat} {pc : Pc} {forced : Bool}
    (entry_le : ∀ l, c.entry = some l → l ≤ c.now)
    (value_made : ∀ l v, (c.lazies l).value = some v → v ∈ c.made ∧ l < v)
    (others : ∀ u, u ≠ t → TaskInv c u (c.tasks u))
    (own : TaskInv (c.start t pc forced) t ⟨pc, c.now, forced⟩) : Inv (c.start t pc forced) where
  entry_lt l inserted := Nat.lt_succ_of_le (entry_le l inserted)
  value_made := value_made
  tasks := by
    intro u
    by_cases same : u = t
    · subst same
      simpa using own
    · rw [start_tasks, Function.update_of_ne same]
      exact (others u same).start t pc forced

theorem inv_init (calls : List Call) : Inv (init calls) where
  entry_lt l inserted := by cases inserted
  value_made l v stored := by cases stored
  tasks t := by
    simp only [init]
    split <;> constructor <;> simp [Pc.lazy]

theorem tryGet_made {c : Cache} (inv : Inv c) {l v : Nat} (got : (c.lazies l).tryGet = some v) : v ∈ c.made := by
  unfold Lazy.tryGet at got
  split at got
  · cases got
  · exact (inv.value_made l v got).1

theorem current_made {c : Cache} (inv : Inv c) {v : Nat} (got : c.current = some v) : v ∈ c.made := by
  unfold Cache.current at got
  cases inserted : c.entry with
  | none => simp [inserted] at got
  | some l =>
      simp only [inserted, Option.bind_some] at got
      exact tryGet_made inv got

theorem taskInv_start_unforced {c : Cache} {t : Nat} {pc : Pc}
    (lazy_lt : ∀ l, pc.lazy = some l → l < c.now)
    (unlocked : ∀ l, ¬ (pc = .checkLazy l ∨ pc = .runFactory l))
    (reply_made : ∀ v, pc = .finished (.value (some v)) → v ∈ c.made) :
    TaskInv (c.start t pc false) t ⟨pc, c.now, false⟩ where
  lazy_lt l working := Nat.lt_succ_of_lt (lazy_lt l working)
  holds_lock l holding := absurd holding (unlocked l)
  running_empty l running := absurd (Or.inr running) (unlocked l)
  reply_made := reply_made
  forced_fresh forced := by cases forced

theorem taskInv_start_refresh {c : Cache} {t : Nat} {initial : Option Nat} (seen : c.entry = initial) :
    TaskInv (c.start t (.refresh initial) true) t ⟨.refresh initial, c.now, true⟩ where
  lazy_lt l working := by cases working
  holds_lock l holding := by simp at holding
  running_empty l running := by cases running
  reply_made v replied := by cases replied
  forced_fresh _ :=
    { begun_lt := Nat.lt_succ_self _
      not_slowPath := by simp
      refreshing := by
        intro initial' current refreshing inserted differs
        simp only [Pc.refresh.injEq] at refreshing
        simp only [start_entry, seen] at inserted
        exact absurd (refreshing ▸ inserted) differs
      working := by simp [Pc.lazy]
      replied := by simp }

theorem inv_beginCall {c : Cache} (inv : Inv c) (t : Nat) (call : Call) : Inv (beginCall c t call) := by
  have entry_le : ∀ l, c.entry = some l → l ≤ c.now := fun l inserted => le_of_lt (inv.entry_lt l inserted)
  cases call with
  | getOrInsertWith =>
      simp only [beginCall]
      split
      · rename_i l inserted
        apply inv_start entry_le inv.value_made (fun u _ => inv.tasks u)
        apply taskInv_start_unforced
        · simp only [Pc.lazy, Option.some.injEq]
          rintro _ rfl
          exact inv.entry_lt l inserted
        · simp
        · simp
      · apply inv_start entry_le inv.value_made (fun u _ => inv.tasks u)
        apply taskInv_start_unforced <;> simp [Pc.lazy]
  | getOrRefreshWith shouldForceRefresh =>
      simp only [beginCall]
      split
      · rename_i l inserted
        split
        · apply inv_start entry_le inv.value_made (fun u _ => inv.tasks u)
          apply taskInv_start_unforced
          · simp only [Pc.lazy, Option.some.injEq]
            rintro _ rfl
            exact inv.entry_lt l inserted
          · simp
          · simp
        · rename_i existing got
          split
          · apply inv_start entry_le inv.value_made (fun u _ => inv.tasks u)
            exact taskInv_start_refresh inserted
          · apply inv_start entry_le inv.value_made (fun u _ => inv.tasks u)
            apply taskInv_start_unforced
            · simp [Pc.lazy]
            · simp
            · simp only [Pc.finished.injEq, Reply.value.injEq, Option.some.injEq]
              rintro v rfl
              exact tryGet_made inv got
      · rename_i missing
        split
        · apply inv_start entry_le inv.value_made (fun u _ => inv.tasks u)
          exact taskInv_start_refresh missing
        · apply inv_start entry_le inv.value_made (fun u _ => inv.tasks u)
          apply taskInv_start_unforced <;> simp [Pc.lazy]
  | get =>
      apply inv_start entry_le inv.value_made (fun u _ => inv.tasks u)
      apply taskInv_start_unforced
      · simp [Pc.lazy]
      · simp
      · simp only [Pc.finished.injEq, Reply.value.injEq]
        intro v got
        exact current_made inv got
  | invalidate =>
      apply inv_start (c := c.removeEntry) (by simp) inv.value_made (fun u _ => (inv.tasks u).removeEntry)
      apply taskInv_start_unforced
      · simp [Pc.lazy]
      · simp
      · simp only [Pc.finished.injEq, Reply.value.injEq]
        intro v got
        exact current_made inv got
  | invalidateIfSame observed =>
      simp only [beginCall]
      split
      · apply inv_start (c := c.removeEntry) (by simp) inv.value_made (fun u _ => (inv.tasks u).removeEntry)
        apply taskInv_start_unforced <;> simp [Pc.lazy]
      · apply inv_start entry_le inv.value_made (fun u _ => inv.tasks u)
        apply taskInv_start_unforced <;> simp [Pc.lazy]

theorem ForcedFresh.moved {c : Cache} {task : Task} (fresh : ForcedFresh c task) (t : Nat) {pc : Pc}
    (not_refresh : ∀ initial, pc ≠ .refresh initial) (not_slowPath : pc ≠ .slowPath)
    (working : ∀ l, pc.lazy = some l → task.begun < l)
    (replied : ∀ v, pc = .finished (.value (some v)) → task.begun < v) :
    ForcedFresh (c.goto t pc) { task with pc := pc } where
  begun_lt := Nat.lt_succ_of_lt fresh.begun_lt
  not_slowPath := not_slowPath
  refreshing initial _ refreshing := absurd refreshing (not_refresh initial)
  working := working
  replied := replied

theorem taskInv_goto_unlocked {c : Cache} {t : Nat} {pc : Pc}
    (lazy_lt : ∀ l, pc.lazy = some l → l < c.now + 1)
    (unlocked : ∀ l, ¬ (pc = .checkLazy l ∨ pc = .runFactory l))
    (reply_made : ∀ v, pc = .finished (.value (some v)) → v ∈ c.made)
    (fresh : (c.tasks t).forced = true → ForcedFresh (c.goto t pc) { c.tasks t with pc := pc }) :
    TaskInv (c.goto t pc) t { c.tasks t with pc := pc } where
  lazy_lt := lazy_lt
  holds_lock l holding := absurd holding (unlocked l)
  running_empty l running := absurd (Or.inr running) (unlocked l)
  reply_made := reply_made
  forced_fresh := fresh

theorem inv_slowPath {c : Cache} (inv : Inv c) {t : Nat} (waiting : (c.tasks t).pc = .slowPath) :
    Inv (slowPath c t) := by
  -- a forced refresh never takes the slow path of get_or_insert_with
  have unforced : (c.tasks t).forced = true → False :=
    fun forced => ((inv.tasks t).forced_fresh forced).not_slowPath waiting
  unfold slowPath
  split
  · rename_i l inserted
    apply inv_goto (fun l inserted => le_of_lt (inv.entry_lt l inserted)) inv.value_made (fun u _ => inv.tasks u)
    apply taskInv_goto_unlocked _ (by simp) (by simp) (fun forced => (unforced forced).elim)
    simp only [Pc.lazy, Option.some.injEq]
    rintro _ rfl
    exact Nat.lt_succ_of_lt (inv.entry_lt l inserted)
  · apply inv_goto (c := c.insertNew) (by simp) inv.value_made (fun u _ => (inv.tasks u).insertNew)
    apply taskInv_goto_unlocked (c := c.insertNew) _ (by simp) (by simp) (fun forced => (unforced forced).elim)
    simp [Pc.lazy]

theorem inv_refresh {c : Cache} (inv : Inv c) {t : Nat} {initial : Option Nat}
    (waiting : (c.tasks t).pc = .refresh initial) : Inv (refresh c t initial) := by
  have own := inv.tasks t
  have entry_le : ∀ l, c.entry = some l → l ≤ c.now := fun l inserted => le_of_lt (inv.entry_lt l inserted)
  -- a new lazy is named by this step, after the call began
  have onNew : Inv (c.insertNew.goto t (.readLazy c.now)) := by
    apply inv_goto (c := c.insertNew) (by simp) inv.value_made (fun u _ => (inv.tasks u).insertNew)
    apply taskInv_goto_unlocked (c := c.insertNew) (by simp [Pc.lazy]) (by simp) (by simp)
    intro forced
    have fresh := own.insertNew.forced_fresh forced
    apply fresh.moved t (by simp) (by simp) _ (by simp)
    simp only [Pc.lazy, Option.some.injEq]
    rintro _ rfl
    exact fresh.begun_lt
  -- another task's lazy in the map was put there after the call read the map
  have onOther : ∀ current, c.entry = some current → initial ≠ some current →
      Inv (c.goto t (.awaitValue current)) := by
    intro current inserted differs
    apply inv_goto entry_le inv.value_made (fun u _ => inv.tasks u)
    apply taskInv_goto_unlocked _ (by simp) (by simp)
    · intro forced
      apply (own.forced_fresh forced).moved t (by simp) (by simp) _ (by simp)
      simp only [Pc.lazy, Option.some.injEq]
      rintro _ rfl
      exact (own.forced_fresh forced).refreshing initial current waiting inserted differs
    · simp only [Pc.lazy, Option.some.injEq]
      rintro _ rfl
      exact Nat.lt_succ_of_lt (inv.entry_lt current inserted)
  unfold refresh
  split
  · exact onNew
  · rename_i current inserted
    exact onOther current inserted (by simp)
  · rename_i observed current inserted
    split
    · exact onNew
    · rename_i differs
      exact onOther current inserted (by simpa using differs)
  · exact onNew

theorem taskInv_goto_reply {c : Cache} {t l v : Nat} (was : (c.tasks t).pc.lazy = some l)
    (fresh : (c.tasks t).forced = true → ForcedFresh c (c.tasks t)) (made : v ∈ c.made) (after : l < v) :
    TaskInv (c.goto t (.finished (.value (some v)))) t { c.tasks t with pc := .finished (.value (some v)) } := by
  apply taskInv_goto_unlocked (by simp [Pc.lazy]) (by simp)
  · simp only [Pc.finished.injEq, Reply.value.injEq, Option.some.injEq]
    rintro _ rfl
    exact made
  · intro forced
    apply (fresh forced).moved t (by simp) (by simp) (by simp [Pc.lazy])
    simp only [Pc.finished.injEq, Reply.value.injEq, Option.some.injEq]
    rintro _ rfl
    exact Nat.lt_trans ((fresh forced).working l was) after

theorem taskInv_goto_along {c : Cache} {t l : Nat} {pc : Pc} (lazy : pc.lazy = some l) (lazy_lt : l < c.now)
    (was : (c.tasks t).pc.lazy = some l) (fresh : (c.tasks t).forced = true → ForcedFresh c (c.tasks t))
    (holds_lock : ∀ l', pc = .checkLazy l' ∨ pc = .runFactory l' → (c.lazies l').writer = some t)
    (running_empty : ∀ l', pc = .runFactory l' → (c.lazies l').value = none) :
    TaskInv (c.goto t pc) t { c.tasks t with pc := pc } where
  lazy_lt l' working := by
    have same : some l = some l' := lazy.symm.trans working
    cases same
    exact Nat.lt_succ_of_lt lazy_lt
  holds_lock := holds_lock
  running_empty := running_empty
  reply_made v replied := by
    have finished : pc = .finished (.value (some v)) := replied
    rw [finished] at lazy
    cases lazy
  forced_fresh forced := by
    apply (fresh forced).moved t
    · rintro _ rfl
      cases lazy
    · rintro rfl
      cases lazy
    · intro l' working
      have same : some l = some l' := lazy.symm.trans working
      cases same
      exact (fresh forced).working l was
    · rintro _ rfl
      cases lazy

theorem value_made_setWriter {c : Cache} (inv : Inv c) (l : Nat) (writer : Option Nat) (l' v : Nat)
    (stored : ((c.setLazy l { c.lazies l with writer := writer }).lazies l').value = some v) :
    v ∈ c.made ∧ l' < v := by
  by_cases same : l' = l
  · subst same
    simp only [setLazy_lazies, Function.update_self] at stored
    exact inv.value_made l' v stored
  · simp only [setLazy_lazies, Function.update_of_ne same] at stored
    exact inv.value_made l' v stored

section Steps

variable {c : Cache} (inv : Inv c) {t l : Nat}

include inv

theorem inv_readLazy (waiting : (c.tasks t).pc = .readLazy l) : Inv (readLazy c t l) := by
  have entry_le : ∀ l, c.entry = some l → l ≤ c.now := fun l inserted => le_of_lt (inv.entry_lt l inserted)
  have was : (c.tasks t).pc.lazy = some l := by simp [waiting, Pc.lazy]
  unfold readLazy
  split
  · exact inv
  · split
    · rename_i v stored
      apply inv_goto entry_le inv.value_made (fun u _ => inv.tasks u)
      exact taskInv_goto_reply was (inv.tasks t).forced_fresh (inv.value_made l v stored).1
        (inv.value_made l v stored).2
    · apply inv_goto entry_le inv.value_made (fun u _ => inv.tasks u)
      exact taskInv_goto_along (by simp [Pc.lazy]) ((inv.tasks t).lazy_lt l was) was
        (inv.tasks t).forced_fresh (by simp) (by simp)

theorem inv_writeLazy (waiting : (c.tasks t).pc = .writeLazy l) : Inv (writeLazy c t l) := by
  have was : (c.tasks t).pc.lazy = some l := by simp [waiting, Pc.lazy]
  unfold writeLazy
  split
  · exact inv
  · rename_i free
    apply inv_goto (c := c.setLazy l { c.lazies l with writer := some t })
      (fun l inserted => le_of_lt (inv.entry_lt l inserted)) (value_made_setWriter inv l (some t))
    · intro u _
      apply (inv.tasks u).setLazy
      simp [free]
    · apply taskInv_goto_along (c := c.setLazy l { c.lazies l with writer := some t }) (by simp [Pc.lazy])
        ((inv.tasks t).lazy_lt l was) was (fun forced => ((inv.tasks t).forced_fresh forced).later (le_refl _) rfl)
      · simp
      · simp

theorem inv_checkLazy (waiting : (c.tasks t).pc = .checkLazy l) : Inv (checkLazy c t l) := by
  have was : (c.tasks t).pc.lazy = some l := by simp [waiting, Pc.lazy]
  have held : (c.lazies l).writer = some t := (inv.tasks t).holds_lock l (Or.inl waiting)
  unfold checkLazy
  split
  · rename_i v stored
    apply inv_goto (c := c.setLazy l { c.lazies l with writer := none })
      (fun l inserted => le_of_lt (inv.entry_lt l inserted)) (value_made_setWriter inv l none)
    · intro u other
      apply (inv.tasks u).setLazy
      simp only [held, Option.some.injEq]
      rintro _ rfl
      exact Ne.symm other
    · exact taskInv_goto_reply (c := c.setLazy l { c.lazies l with writer := none }) was
        (fun forced => ((inv.tasks t).forced_fresh forced).later (le_refl _) rfl)
        (inv.value_made l v stored).1 (inv.value_made l v stored).2
  · rename_i empty
    apply inv_goto (fun l inserted => le_of_lt (inv.entry_lt l inserted)) inv.value_made (fun u _ => inv.tasks u)
    apply taskInv_goto_along (by simp [Pc.lazy]) ((inv.tasks t).lazy_lt l was) was (inv.tasks t).forced_fresh
    · simp only [Pc.runFactory.injEq, reduceCtorEq, false_or]
      rintro _ rfl
      exact held
    · simp only [Pc.runFactory.injEq]
      rintro _ rfl
      exact empty

theorem inv_runFactory (waiting : (c.tasks t).pc = .runFactory l) : Inv (runFactory c t l) := by
  have was : (c.tasks t).pc.lazy = some l := by simp [waiting, Pc.lazy]
  have held : (c.lazies l).writer = some t := (inv.tasks t).holds_lock l (Or.inr waiting)
  have lazy_lt : l < c.now := (inv.tasks t).lazy_lt l was
  unfold runFactory
  apply inv_goto (c := c.complete l) (fun l inserted => le_of_lt (inv.entry_lt l inserted))
  · -- the value this step names is the one logged
    intro l' v stored
    by_cases same : l' = l
    · subst same
      simp only [complete_lazies, Function.update_self, Option.some.injEq] at stored
      subst stored
      exact ⟨List.mem_cons_self, lazy_lt⟩
    · simp only [complete_lazies, Function.update_of_ne same] at stored
      obtain ⟨made, after⟩ := inv.value_made l' v stored
      exact ⟨List.mem_cons_of_mem _ made, after⟩
  · intro u other
    apply (inv.tasks u).complete
    simp only [held, Option.some.injEq]
    rintro _ rfl
    exact Ne.symm other
  · exact taskInv_goto_reply (c := c.complete l) was
      (fun forced => ((inv.tasks t).forced_fresh forced).later (le_refl _) rfl) List.mem_cons_self lazy_lt

theorem inv_awaitValue (waiting : (c.tasks t).pc = .awaitValue l) : Inv (awaitValue c t l) := by
  have was : (c.tasks t).pc.lazy = some l := by simp [waiting, Pc.lazy]
  unfold awaitValue
  split
  · rename_i v _ stored
    apply inv_goto (fun l inserted => le_of_lt (inv.entry_lt l inserted)) inv.value_made (fun u _ => inv.tasks u)
    exact taskInv_goto_reply was (inv.tasks t).forced_fresh (inv.value_made l v stored).1
      (inv.value_made l v stored).2
  · exact inv

end Steps

theorem inv_advance {c : Cache} (inv : Inv c) (t : Nat) : Inv (advance c t) := by
  unfold advance
  split
  · exact inv
  · exact inv_beginCall inv t _
  · exact inv_slowPath inv ‹_›
  · exact inv_refresh inv ‹_›
  · exact inv_readLazy inv ‹_›
  · exact inv_writeLazy inv ‹_›
  · exact inv_checkLazy inv ‹_›
  · exact inv_runFactory inv ‹_›
  · exact inv_awaitValue inv ‹_›
  · exact inv

theorem inv_of_reachable {calls : List Call} {c : Cache} (reachable : Reachable calls c) : Inv c := by
  induction reachable with
  | init => exact inv_init calls
  | step t _ induction => exact inv_advance induction t

/-! ## One factory at a time, without `invalidate` -/

/-- Every lazy a task works on has a value or is the map's, and a refresh replaces only a lazy
that has one: so a lazy can only lose its place in the map once its factory is done. -/
structure Claimed (c : Cache) : Prop where
  working : ∀ t l, (c.tasks t).pc.lazy = some l → (c.lazies l).value.isSome ∨ c.entry = some l
  refreshing : ∀ t l, (c.tasks t).pc = .refresh (some l) → (c.lazies l).value.isSome
  no_invalidate : ∀ t call, (c.tasks t).pc = .start call → call.isInvalidate = false

section Claimed

variable {c : Cache}

theorem Claimed.of_lazies {d : Cache} (claimed : Claimed c) (tasks : d.tasks = c.tasks) (entry : d.entry = c.entry)
    (keeps : ∀ l, (c.lazies l).value.isSome → (d.lazies l).value.isSome) : Claimed d where
  working t l working := by
    rw [tasks] at working
    rw [entry]
    rcases claimed.working t l working with has | inserted
    · exact Or.inl (keeps l has)
    · exact Or.inr inserted
  refreshing t l refreshing := by
    rw [tasks] at refreshing
    exact keeps l (claimed.refreshing t l refreshing)
  no_invalidate t call started := by
    rw [tasks] at started
    exact claimed.no_invalidate t call started

theorem Claimed.of_entry {d : Cache} (claimed : Claimed c) (tasks : d.tasks = c.tasks) (lazies : d.lazies = c.lazies)
    (settled : ∀ e, c.entry = some e → (c.lazies e).value.isSome) : Claimed d where
  working t l working := by
    rw [tasks] at working
    rw [lazies]
    rcases claimed.working t l working with has | inserted
    · exact Or.inl has
    · exact Or.inl (settled l inserted)
  refreshing t l refreshing := by
    rw [tasks] at refreshing
    rw [lazies]
    exact claimed.refreshing t l refreshing
  no_invalidate t call started := by
    rw [tasks] at started
    exact claimed.no_invalidate t call started

theorem Claimed.goto (claimed : Claimed c) (t : Nat) {pc : Pc}
    (working : ∀ l, pc.lazy = some l → (c.lazies l).value.isSome ∨ c.entry = some l)
    (not_refresh : ∀ l, pc ≠ .refresh (some l)) (not_start : ∀ call, pc ≠ .start call) :
    Claimed (c.goto t pc) where
  working u l working' := by
    by_cases same : u = t
    · subst same
      simp only [goto_tasks, Function.update_self] at working'
      exact working l working'
    · simp only [goto_tasks, Function.update_of_ne same] at working'
      exact claimed.working u l working'
  refreshing u l refreshing := by
    by_cases same : u = t
    · subst same
      simp only [goto_tasks, Function.update_self] at refreshing
      exact absurd refreshing (not_refresh l)
    · simp only [goto_tasks, Function.update_of_ne same] at refreshing
      exact claimed.refreshing u l refreshing
  no_invalidate u call started := by
    by_cases same : u = t
    · subst same
      simp only [goto_tasks, Function.update_self] at started
      exact absurd started (not_start call)
    · simp only [goto_tasks, Function.update_of_ne same] at started
      exact claimed.no_invalidate u call started

theorem Claimed.start (claimed : Claimed c) (t : Nat) {pc : Pc} (forced : Bool)
    (working : ∀ l, pc.lazy = some l → (c.lazies l).value.isSome ∨ c.entry = some l)
    (refreshing : ∀ l, pc = .refresh (some l) → (c.lazies l).value.isSome) (not_start : ∀ call, pc ≠ .start call) :
    Claimed (c.start t pc forced) where
  working u l working' := by
    by_cases same : u = t
    · subst same
      simp only [start_tasks, Function.update_self] at working'
      exact working l working'
    · simp only [start_tasks, Function.update_of_ne same] at working'
      exact claimed.working u l working'
  refreshing u l refreshing' := by
    by_cases same : u = t
    · subst same
      simp only [start_tasks, Function.update_self] at refreshing'
      exact refreshing l refreshing'
    · simp only [start_tasks, Function.update_of_ne same] at refreshing'
      exact claimed.refreshing u l refreshing'
  no_invalidate u call started := by
    by_cases same : u = t
    · subst same
      simp only [start_tasks, Function.update_self] at started
      exact absurd started (not_start call)
    · simp only [start_tasks, Function.update_of_ne same] at started
      exact claimed.no_invalidate u call started

theorem Claimed.setWriter (claimed : Claimed c) (l : Nat) (writer : Option Nat) :
    Claimed (c.setLazy l { c.lazies l with writer := writer }) := by
  apply claimed.of_lazies (d := c.setLazy l { c.lazies l with writer := writer }) rfl rfl
  intro l' has
  by_cases same : l' = l
  · subst same
    simpa using has
  · simpa [Function.update_of_ne same] using has

theorem Claimed.complete (claimed : Claimed c) (l : Nat) : Claimed (c.complete l) := by
  apply claimed.of_lazies (d := c.complete l) rfl rfl
  intro l' has
  by_cases same : l' = l
  · subst same
    simp
  · simpa [Function.update_of_ne same] using has

theorem Claimed.insertNew (claimed : Claimed c) (settled : ∀ e, c.entry = some e → (c.lazies e).value.isSome) :
    Claimed c.insertNew :=
  claimed.of_entry (d := c.insertNew) rfl rfl settled

end Claimed

theorem value_isSome_of_tryGet {lazy : Lazy} {v : Stamp} (got : lazy.tryGet = some v) : lazy.value.isSome := by
  unfold Lazy.tryGet at got
  split at got
  · cases got
  · simp [got]

theorem claimed_beginCall {c : Cache} (claimed : Claimed c) {t : Nat} {call : Call}
    (begins : (c.tasks t).pc = .start call) : Claimed (beginCall c t call) := by
  have kept : ∀ l, c.entry = some l → ∀ l', (Pc.readLazy l).lazy = some l' →
      (c.lazies l').value.isSome ∨ c.entry = some l' := by
    rintro l inserted _ ⟨⟩
    exact Or.inr inserted
  cases call with
  | getOrInsertWith =>
      simp only [beginCall]
      split
      · rename_i l inserted
        exact claimed.start t false (kept l inserted) (by simp) (by simp)
      · exact claimed.start t false (by simp [Pc.lazy]) (by simp) (by simp)
  | getOrRefreshWith shouldForceRefresh =>
      simp only [beginCall]
      split
      · rename_i l inserted
        split
        · apply claimed.start t false _ (by simp) (by simp)
          rintro _ ⟨⟩
          exact Or.inr inserted
        · rename_i existing got
          split
          · apply claimed.start t true (by simp [Pc.lazy]) _ (by simp)
            rintro _ ⟨⟩
            exact value_isSome_of_tryGet got
          · exact claimed.start t false (by simp [Pc.lazy]) (by simp) (by simp)
      · split
        · exact claimed.start t true (by simp [Pc.lazy]) (by simp) (by simp)
        · exact claimed.start t false (by simp [Pc.lazy]) (by simp) (by simp)
  | get => exact claimed.start t false (by simp [Pc.lazy]) (by simp) (by simp)
  | invalidate => exact absurd (claimed.no_invalidate t _ begins) (by simp [Call.isInvalidate])
  | invalidateIfSame observed =>
      simp only [beginCall]
      split
      · rename_i removes
        -- the entry is removed only when try_get saw its value
        have settled : ∀ e, c.entry = some e → (c.lazies e).value.isSome := by
          intro e inserted
          simp only [Cache.current, inserted, Option.bind_some] at removes
          exact value_isSome_of_tryGet removes
        have removed : Claimed c.removeEntry := claimed.of_entry (d := c.removeEntry) rfl rfl settled
        exact removed.start t false (by simp [Pc.lazy]) (by simp) (by simp)
      · exact claimed.start t false (by simp [Pc.lazy]) (by simp) (by simp)

theorem claimed_advance {c : Cache} (claimed : Claimed c) (t : Nat) : Claimed (advance c t) := by
  -- the task's own lazy keeps its claim while it moves on along it
  have along : ∀ l, (c.tasks t).pc.lazy = some l → ∀ l', Pc.lazy (.readLazy l) = some l' →
      (c.lazies l').value.isSome ∨ c.entry = some l' := by
    rintro l was _ ⟨⟩
    exact claimed.working t l was
  unfold advance
  split
  · exact claimed
  · exact claimed_beginCall claimed ‹_›
  · unfold slowPath
    split
    · rename_i l inserted
      apply claimed.goto t _ (by simp) (by simp)
      rintro _ ⟨⟩
      exact Or.inr inserted
    · rename_i missing
      apply (claimed.insertNew (by simp [missing])).goto t _ (by simp) (by simp)
      rintro _ ⟨⟩
      exact Or.inr rfl
  · rename_i initial refreshing
    unfold refresh
    split
    · apply (claimed.insertNew (by simp [*])).goto t _ (by simp) (by simp)
      rintro _ ⟨⟩
      exact Or.inr rfl
    · rename_i current inserted
      apply claimed.goto t _ (by simp) (by simp)
      rintro _ ⟨⟩
      exact Or.inr inserted
    · rename_i observed current inserted
      split
      · rename_i same
        -- the lazy replaced is the one the refresh saw with a value
        have settled : ∀ e, c.entry = some e → (c.lazies e).value.isSome := by
          intro e inserted'
          rw [inserted] at inserted'
          cases inserted'
          exact same ▸ claimed.refreshing t observed refreshing
        apply (claimed.insertNew settled).goto t _ (by simp) (by simp)
        rintro _ ⟨⟩
        exact Or.inr rfl
      · apply claimed.goto t _ (by simp) (by simp)
        rintro _ ⟨⟩
        exact Or.inr inserted
    · apply (claimed.insertNew (by simp [*])).goto t _ (by simp) (by simp)
      rintro _ ⟨⟩
      exact Or.inr rfl
  · rename_i l reading
    unfold readLazy
    split
    · exact claimed
    · split
      · exact claimed.goto t (by simp [Pc.lazy]) (by simp) (by simp)
      · apply claimed.goto t _ (by simp) (by simp)
        rintro _ ⟨⟩
        exact claimed.working t l (by simp [reading, Pc.lazy])
  · rename_i l writing
    unfold writeLazy
    split
    · exact claimed
    · apply (claimed.setWriter l (some t)).goto t _ (by simp) (by simp)
      rintro _ ⟨⟩
      simpa using claimed.working t l (by simp [writing, Pc.lazy])
  · rename_i l checking
    unfold checkLazy
    split
    · exact (claimed.setWriter l none).goto t (by simp [Pc.lazy]) (by simp) (by simp)
    · apply claimed.goto t _ (by simp) (by simp)
      rintro _ ⟨⟩
      exact claimed.working t l (by simp [checking, Pc.lazy])
  · exact (claimed.complete _).goto t (by simp [Pc.lazy]) (by simp) (by simp)
  · unfold awaitValue
    split
    · exact claimed.goto t (by simp [Pc.lazy]) (by simp) (by simp)
    · exact claimed
  · exact claimed

theorem claimed_init {calls : List Call} (noInvalidate : ∀ call ∈ calls, call.isInvalidate = false) :
    Claimed (init calls) where
  working t l working := by
    simp only [init] at working
    split at working <;> cases working
  refreshing t l refreshing := by
    simp only [init] at refreshing
    split at refreshing <;> cases refreshing
  no_invalidate t call started := by
    simp only [init] at started
    split at started
    · rename_i call' listed
      cases started
      exact noInvalidate call (List.mem_of_getElem? listed)
    · cases started

theorem claimed_of_reachable {calls : List Call} {c : Cache} (noInvalidate : ∀ call ∈ calls, call.isInvalidate = false)
    (reachable : Reachable calls c) : Claimed c := by
  induction reachable with
  | init => exact claimed_init noInvalidate
  | step t _ induction => exact claimed_advance induction t

theorem runFactory_unique {c : Cache} (inv : Inv c) (claimed : Claimed c) {t u l l' : Nat}
    (running : (c.tasks t).pc = .runFactory l) (running' : (c.tasks u).pc = .runFactory l') : t = u := by
  have inserted : c.entry = some l := by
    rcases claimed.working t l (by simp [running, Pc.lazy]) with has | inserted
    · simp [(inv.tasks t).running_empty l running] at has
    · exact inserted
  have inserted' : c.entry = some l' := by
    rcases claimed.working u l' (by simp [running', Pc.lazy]) with has | inserted'
    · simp [(inv.tasks u).running_empty l' running'] at has
    · exact inserted'
  have same : l = l' := Option.some.inj (inserted.symm.trans inserted')
  subst same
  have held := (inv.tasks t).holds_lock l (Or.inr running)
  have held' := (inv.tasks u).holds_lock l (Or.inr running')
  exact Option.some.inj (held.symm.trans held')

theorem cache_values_fresh_and_single_flight (calls : List Call) (c : Cache) (reachable : Reachable calls c) :
    (∀ t v, (c.tasks t).pc = .finished (.value (some v)) → v ∈ c.made) ∧
    (∀ t v, (c.tasks t).forced = true → (c.tasks t).pc = .finished (.value (some v)) → (c.tasks t).begun < v) ∧
    ((∀ call ∈ calls, call.isInvalidate = false) →
      ∀ t u l l', (c.tasks t).pc = .runFactory l → (c.tasks u).pc = .runFactory l' → t = u) := by
  have inv := inv_of_reachable reachable
  refine ⟨?_, ?_, ?_⟩
  · intro t v replied
    exact (inv.tasks t).reply_made v replied
  · intro t v forced replied
    exact ((inv.tasks t).forced_fresh forced).replied v replied
  · intro noInvalidate t u l l' running running'
    exact runFactory_unique inv (claimed_of_reachable noInvalidate reachable) running running'

theorem cache_values_fresh_after_forced_refresh :
    let calls := [Call.getOrRefreshWith fun _ => true, .getOrInsertWith]
    let c := run (init calls) [0, 1, 0, 0, 0, 0, 0, 1, 1]
    (∀ t v, (c.tasks t).pc = .finished (.value (some v)) → v ∈ c.made) ∧
    (∀ t v, (c.tasks t).forced = true → (c.tasks t).pc = .finished (.value (some v)) → (c.tasks t).begun < v) ∧
    ((∀ call ∈ calls, call.isInvalidate = false) →
      ∀ t u l l', (c.tasks t).pc = .runFactory l → (c.tasks u).pc = .runFactory l' → t = u) := by
  intro calls c
  exact cache_values_fresh_and_single_flight calls c (reachable_run calls _)

/-- `invalidate` removes an entry whose factory still runs, and the next `get_or_insert_with`
starts a second factory for the key. -/
theorem invalidate_starts_second_factory :
    ∃ c, Reachable [.getOrInsertWith, .invalidate, .getOrInsertWith] c ∧
      (c.tasks 0).pc = .runFactory 1 ∧ (c.tasks 2).pc = .runFactory 7 :=
  ⟨_, reachable_run _ [0, 0, 0, 0, 0, 1, 2, 2, 2, 2, 2], rfl, rfl⟩

/-- A `get_or_refresh_with` that would refresh any value returns, without asking its predicate,
a value completed before it began: it met the lazy write-locked by a `get_or_init` that had lost
the race to initialise it, and took that for an initialisation in progress. -/
theorem refresh_returns_value_older_than_call :
    ∃ c, Reachable [.getOrInsertWith, .getOrInsertWith, .getOrRefreshWith fun _ => true] c ∧
      (c.tasks 2).pc = .finished (.value (some 7)) ∧ 7 < (c.tasks 2).begun :=
  ⟨_, reachable_run _ [0, 0, 1, 1, 0, 0, 0, 0, 1, 2, 1, 2], rfl, by decide⟩

/-- A forced `get_or_refresh_with` of a key that holds a value replaces the key's lazy with an
empty one before its factory runs, so a `get` made during the refresh finds no value. -/
theorem get_during_refresh_finds_no_value :
    ∃ c, Reachable [.getOrInsertWith, .getOrRefreshWith fun _ => true, .get] c ∧
      (c.tasks 0).pc = .finished (.value (some 5)) ∧ (c.tasks 1).pc = .runFactory 7 ∧
      (c.tasks 2).pc = .finished (.value none) :=
  ⟨_, reachable_run _ [0, 0, 0, 0, 0, 0, 1, 1, 1, 1, 1, 2], rfl, rfl, rfl⟩

end CosmosDriver.AsyncCache
