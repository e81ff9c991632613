import Mathlib

/-!
# Actions that keep their state when they fail

`EStateM ε σ` is the monad of a component whose state survives an error: an error
result carries the state the action had reached. These lemmas run an action on a
state one primitive at a time, so a proof about a `do` block follows its lines, and
`final` names the state an action leaves whichever way it ends.
-/

namespace EState

set_option autoImplicit false

variable {ε σ α β : Type}

def final : EStateM.Result ε σ α → σ
  | .ok _ s => s
  | .error _ s => s

@[simp] theorem final_ok (a : α) (s : σ) : final (.ok a s : EStateM.Result ε σ α) = s := rfl

@[simp] theorem final_error (e : ε) (s : σ) : final (.error e s : EStateM.Result ε σ α) = s := rfl

@[simp] theorem bind_apply (x : EStateM ε σ α) (f : α → EStateM ε σ β) (s : σ) :
    (x >>= f) s = match x s with
      | .ok a s => f a s
      | .error e s => .error e s := rfl

@[simp] theorem pure_apply (a : α) (s : σ) : (pure a : EStateM ε σ α) s = .ok a s := rfl

@[simp] theorem get_apply (s : σ) : (get : EStateM ε σ σ) s = .ok s s := rfl

@[simp] theorem throw_apply (e : ε) (s : σ) : (throw e : EStateM ε σ α) s = .error e s := rfl

@[simp] theorem modify_apply (f : σ → σ) (s : σ) : (modify f : EStateM ε σ PUnit) s = .ok ⟨⟩ (f s) :=
  rfl

@[simp] theorem modifyGet_apply (f : σ → α × σ) (s : σ) :
    (modifyGet f : EStateM ε σ α) s = .ok (f s).1 (f s).2 := rfl

@[simp] theorem ite_apply {c : Prop} [Decidable c] (x y : EStateM ε σ α) (s : σ) :
    (if c then x else y) s = if c then x s else y s := by
  split <;> rfl

/-- `ok_or_else(..)?`: the value, or the error. -/
def orThrow (e : ε) : Option α → EStateM ε σ α
  | some a => pure a
  | none => throw e

@[simp] theorem orThrow_some (e : ε) (a : α) (s : σ) : (orThrow e (some a) : EStateM ε σ α) s = .ok a s :=
  rfl

@[simp] theorem orThrow_none (e : ε) (s : σ) : (orThrow e none : EStateM ε σ α) s = .error e s := rfl

/-- `MonadExcept.ofExcept` is the `?` operator on a result. -/
@[simp] theorem ofExcept_ok (a : α) (s : σ) : (MonadExcept.ofExcept (.ok a) : EStateM ε σ α) s = .ok a s :=
  rfl

@[simp] theorem ofExcept_error (e : ε) (s : σ) :
    (MonadExcept.ofExcept (.error e) : EStateM ε σ α) s = .error e s := rfl

/-- An action keeps `Good` when from every state in `Good` it ends in one, returning or not. -/
def Keeps (Good : σ → Prop) (x : EStateM ε σ α) : Prop :=
  ∀ s, Good s → Good (final (x s))

theorem keeps_pure (Good : σ → Prop) (a : α) : Keeps Good (pure a : EStateM ε σ α) :=
  fun _ good => good

theorem keeps_throw (Good : σ → Prop) (e : ε) : Keeps Good (throw e : EStateM ε σ α) :=
  fun _ good => good

theorem keeps_bind {Good : σ → Prop} {x : EStateM ε σ α} {f : α → EStateM ε σ β}
    (first : Keeps Good x) (rest : ∀ a, Keeps Good (f a)) : Keeps Good (x >>= f) := by
  intro s good
  rw [bind_apply]
  have kept := first s good
  revert kept
  cases x s with
  | ok a after => exact rest a after
  | error e after => exact id

theorem keeps_ofExcept (Good : σ → Prop) (result : Except ε α) :
    Keeps Good (MonadExcept.ofExcept result : EStateM ε σ α) := by
  cases result <;> exact fun _ good => good

theorem keeps_get_bind {Good : σ → Prop} {f : σ → EStateM ε σ β}
    (rest : ∀ s, Good s → Good (final (f s s))) : Keeps Good (get >>= f) := by
  intro s good
  exact rest s good

theorem keeps_modify {Good : σ → Prop} {f : σ → σ} (step : ∀ s, Good s → Good (f s)) :
    Keeps Good (modify f : EStateM ε σ PUnit) :=
  fun s good => step s good

theorem keeps_modifyGet {Good : σ → Prop} {f : σ → α × σ} (step : ∀ s, Good s → Good (f s).2) :
    Keeps Good (modifyGet f : EStateM ε σ α) :=
  fun s good => step s good

/-! ## Failing without a trace -/

/-- Runs an action on a copy of the state and keeps the copy only when the action returns:
clone, stage, commit. -/
def staged (x : EStateM ε σ α) : EStateM ε σ α := fun s =>
  match x s with
  | .ok a after => .ok a after
  | .error e _ => .error e s

def Atomic (x : EStateM ε σ α) : Prop :=
  ∀ s e after, x s = .error e after → after = s

def ReadOnly (x : EStateM ε σ α) : Prop :=
  ∀ s a after, x s = .ok a after → after = s

/-- Every error the action raises is `Allowed`. -/
def RaisesOnly (Allowed : ε → Prop) (x : EStateM ε σ α) : Prop :=
  ∀ s e after, x s = .error e after → Allowed e

theorem atomic_pure (a : α) : Atomic (pure a : EStateM ε σ α) := by
  intro s e after ran
  cases ran

theorem atomic_get : Atomic (get : EStateM ε σ σ) := by
  intro s e after ran
  cases ran

theorem atomic_throw (e : ε) : Atomic (throw e : EStateM ε σ α) := by
  intro s e' after ran
  cases ran
  rfl

theorem atomic_set (s' : σ) : Atomic (set s' : EStateM ε σ PUnit) := by
  intro s e after ran
  cases ran

theorem atomic_modify (f : σ → σ) : Atomic (modify f : EStateM ε σ PUnit) := by
  intro s e after ran
  cases ran

theorem atomic_ofExcept (result : Except ε α) : Atomic (MonadExcept.ofExcept result : EStateM ε σ α) := by
  intro s e after ran
  cases result <;> cases ran
  rfl

theorem readOnly_get : ReadOnly (get : EStateM ε σ σ) := by
  intro s a after ran
  cases ran
  rfl

theorem readOnly_ofExcept (result : Except ε α) : ReadOnly (MonadExcept.ofExcept result : EStateM ε σ α) := by
  intro s a after ran
  cases result <;> cases ran
  rfl

theorem atomic_bind_of_readOnly {x : EStateM ε σ α} {f : α → EStateM ε σ β} (reads : ReadOnly x)
    (first : Atomic x) (rest : ∀ a, Atomic (f a)) : Atomic (x >>= f) := by
  intro s e after ran
  rw [bind_apply] at ran
  cases stepped : x s with
  | ok a mid =>
      rw [stepped] at ran
      rw [rest a mid e after ran]
      exact reads s a mid stepped
  | error e' mid =>
      rw [stepped] at ran
      cases ran
      exact first s _ _ stepped

theorem atomic_bind_of_raisesNothing {x : EStateM ε σ α} {f : α → EStateM ε σ β} (first : Atomic x)
    (rest : ∀ a, RaisesOnly (fun _ => False) (f a)) : Atomic (x >>= f) := by
  intro s e after ran
  rw [bind_apply] at ran
  cases stepped : x s with
  | ok a mid =>
      rw [stepped] at ran
      exact (rest a mid e after ran).elim
  | error e' mid =>
      rw [stepped] at ran
      cases ran
      exact first s _ _ stepped

theorem atomic_staged (x : EStateM ε σ α) : Atomic (staged x) := by
  intro s e after ran
  unfold staged at ran
  split at ran <;> cases ran
  rfl

theorem raisesOnly_pure (Allowed : ε → Prop) (a : α) : RaisesOnly Allowed (pure a : EStateM ε σ α) := by
  intro s e after ran
  cases ran

theorem raisesOnly_get (Allowed : ε → Prop) : RaisesOnly Allowed (get : EStateM ε σ σ) := by
  intro s e after ran
  cases ran

theorem raisesOnly_set (Allowed : ε → Prop) (s' : σ) : RaisesOnly Allowed (set s' : EStateM ε σ PUnit) := by
  intro s e after ran
  cases ran

theorem raisesOnly_modify (Allowed : ε → Prop) (f : σ → σ) :
    RaisesOnly Allowed (modify f : EStateM ε σ PUnit) := by
  intro s e after ran
  cases ran

theorem raisesOnly_throw {Allowed : ε → Prop} {e : ε} (allowed : Allowed e) :
    RaisesOnly Allowed (throw e : EStateM ε σ α) := by
  intro s e' after ran
  cases ran
  exact allowed

theorem raisesOnly_ofExcept {Allowed : ε → Prop} {result : Except ε α}
    (allowed : ∀ e, result = .error e → Allowed e) :
    RaisesOnly Allowed (MonadExcept.ofExcept result : EStateM ε σ α) := by
  intro s e after ran
  cases result with
  | ok a => cases ran
  | error e' =>
      cases ran
      exact allowed _ rfl

theorem raisesOnly_bind {Allowed : ε → Prop} {x : EStateM ε σ α} {f : α → EStateM ε σ β}
    (first : RaisesOnly Allowed x) (rest : ∀ a, RaisesOnly Allowed (f a)) : RaisesOnly Allowed (x >>= f) := by
  intro s e after ran
  rw [bind_apply] at ran
  cases stepped : x s with
  | ok a mid =>
      rw [stepped] at ran
      exact rest a mid e after ran
  | error e' mid =>
      rw [stepped] at ran
      cases ran
      exact first s _ _ stepped

theorem raisesOnly_staged {Allowed : ε → Prop} {x : EStateM ε σ α} (inner : RaisesOnly Allowed x) :
    RaisesOnly Allowed (staged x) := by
  intro s e after ran
  unfold staged at ran
  split at ran
  · cases ran
  · rename_i e' mid stepped
    cases ran
    exact inner s _ _ stepped

end EState
