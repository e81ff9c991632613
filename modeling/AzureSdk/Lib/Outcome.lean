import Mathlib

/-!
# Runs that can stop

A Rust function that returns `Result<T, E>` and propagates with `?` stops at the
first `Err`, just as a panic stops the thread: neither is ever caught on the way
up. Both are therefore one exception of a single monad, and the exception says
why the run stopped. A model that recurses on fuel adds a third reason, so that a
totality result can state that the run neither panicked nor ran out of fuel.
-/

namespace Outcome

set_option autoImplicit false

inductive Halt (ε : Type) where
  /-- The function returned `Err(e)`. -/
  | error (e : ε)
  /-- The function panicked: an index out of bounds or an arithmetic underflow. -/
  | panic
  /-- The model's recursion bound ran out; a totality theorem rules this out. -/
  | outOfFuel
  deriving DecidableEq, Repr

abbrev Run (ε α : Type) := Except (Halt ε) α

variable {ε α β : Type}

/-- `?` into a function with another error type: the error goes through its `From`. -/
def Halt.map {ε' : Type} (f : ε → ε') : Halt ε → Halt ε'
  | .error e => .error (f e)
  | .panic => .panic
  | .outOfFuel => .outOfFuel

def fail (e : ε) : Run ε α := .error (.error e)

def panic : Run ε α := .error .panic

def outOfFuel : Run ε α := .error .outOfFuel

def checkedSub (a b : Nat) : Run ε Nat :=
  if b ≤ a then .ok (a - b) else panic

/-- `usize::MAX` on the 64-bit targets the driver is built for. -/
def usizeMax : Nat := 2 ^ 64 - 1

def checkedMul (a b : Nat) : Run ε Nat :=
  if a * b ≤ usizeMax then .ok (a * b) else panic

def index (xs : List α) (i : Nat) : Run ε α :=
  match xs[i]? with
  | some a => .ok a
  | none => panic

def sliceFrom (xs : List α) (start : Nat) : Run ε (List α) :=
  if start ≤ xs.length then .ok (xs.drop start) else panic

def slice (xs : List α) (start stop : Nat) : Run ε (List α) :=
  if start ≤ stop ∧ stop ≤ xs.length then .ok ((xs.drop start).take (stop - start)) else panic

/-- A run settles when it returns a value or a Rust `Err`: it neither panicked
nor exhausted the fuel of the model. -/
def Settles : Run ε α → Prop
  | .ok _ => True
  | .error (.error _) => True
  | .error .panic => False
  | .error .outOfFuel => False

@[simp] theorem ok_bind (a : α) (f : α → Run ε β) : ((.ok a : Run ε α) >>= f) = f a := rfl

@[simp] theorem error_bind (h : Halt ε) (f : α → Run ε β) :
    ((.error h : Run ε α) >>= f) = .error h := rfl

@[simp] theorem fail_bind (e : ε) (f : α → Run ε β) : (fail e >>= f) = fail e := rfl

@[simp] theorem pure_eq_ok (a : α) : (pure a : Run ε α) = .ok a := rfl

theorem bind_eq_ok {x : Run ε α} {f : α → Run ε β} {b : β} :
    (x >>= f) = .ok b ↔ ∃ a, x = .ok a ∧ f a = .ok b := by
  cases x with
  | error h => simp only [error_bind, reduceCtorEq, false_and, exists_false]
  | ok a => simp only [ok_bind, Except.ok.injEq, exists_eq_left']

theorem foldlM_eq_ok {f : β → α → Run ε β} {g : β → α → β} {l : List α}
    (steps : ∀ x ∈ l, ∀ acc, f acc x = .ok (g acc x)) (init : β) :
    l.foldlM f init = .ok (l.foldl g init) := by
  induction l generalizing init with
  | nil => rfl
  | cons x rest induction =>
      rw [List.foldlM_cons, steps x List.mem_cons_self init, ok_bind, List.foldl_cons]
      exact induction (fun y member => steps y (List.mem_cons_of_mem _ member)) _

theorem foldlM_invariant (Good : β → Prop) {f : β → α → Run ε β} {l : List α} {init result : β}
    (keeps : ∀ x ∈ l, ∀ acc next, Good acc → f acc x = .ok next → Good next) (good : Good init)
    (finished : l.foldlM f init = .ok result) : Good result := by
  induction l generalizing init with
  | nil =>
      cases finished
      exact good
  | cons x rest induction =>
      rw [List.foldlM_cons] at finished
      obtain ⟨next, stepped, rest_finished⟩ := bind_eq_ok.mp finished
      exact induction (fun y member => keeps y (List.mem_cons_of_mem _ member))
        (keeps x List.mem_cons_self init next good stepped) rest_finished

@[simp] theorem settles_ok (a : α) : Settles (.ok a : Run ε α) := trivial

@[simp] theorem settles_fail (e : ε) : Settles (fail e : Run ε α) := trivial

@[simp] theorem not_settles_panic : ¬ Settles (panic : Run ε α) := id

@[simp] theorem not_settles_outOfFuel : ¬ Settles (outOfFuel : Run ε α) := id

theorem settles_bind {x : Run ε α} {f : α → Run ε β} (first : Settles x)
    (rest : ∀ a, x = .ok a → Settles (f a)) : Settles (x >>= f) := by
  cases x with
  | ok a => exact rest a rfl
  | error h =>
      cases h with
      | error e => trivial
      | panic => exact absurd first id
      | outOfFuel => exact absurd first id

theorem settles_map {f : α → β} {x : Run ε α} (first : Settles x) : Settles (f <$> x) := by
  cases x with
  | ok a => trivial
  | error h =>
      cases h with
      | error e => trivial
      | panic => exact absurd first id
      | outOfFuel => exact absurd first id

theorem settles_mapM {f : α → Run ε β} (each : ∀ a, Settles (f a)) (l : List α) : Settles (l.mapM f) := by
  induction l with
  | nil => trivial
  | cons a rest induction =>
      rw [List.mapM_cons]
      apply settles_bind (each a)
      intro b _
      apply settles_bind induction
      intro bs _
      trivial

theorem checkedSub_of_le {a b : Nat} (le : b ≤ a) : (checkedSub a b : Run ε Nat) = .ok (a - b) := by
  simp only [checkedSub, if_pos le]

theorem checkedMul_of_le {a b : Nat} (le : a * b ≤ usizeMax) :
    (checkedMul a b : Run ε Nat) = .ok (a * b) := by
  simp only [checkedMul, if_pos le]

theorem index_of_lt {xs : List α} {i : Nat} (inside : i < xs.length) :
    (index xs i : Run ε α) = .ok xs[i] := by
  simp [index, inside]

theorem sliceFrom_of_le {xs : List α} {start : Nat} (inside : start ≤ xs.length) :
    (sliceFrom xs start : Run ε (List α)) = .ok (xs.drop start) := by
  simp only [sliceFrom, if_pos inside]

theorem slice_of_le {xs : List α} {start stop : Nat} (ordered : start ≤ stop)
    (inside : stop ≤ xs.length) :
    (slice xs start stop : Run ε (List α)) = .ok ((xs.drop start).take (stop - start)) := by
  simp only [slice, if_pos (And.intro ordered inside)]

end Outcome
