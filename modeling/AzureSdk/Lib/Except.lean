import Mathlib

/-!
# Computations that can fail

Rules for `Except`, the monad of a function that returns `Result` and propagates with
`?`: a bind that succeeds had a first step that succeeded, a loop that succeeds keeps
every invariant its steps keep, and `mapM` succeeds exactly when every element does, one
result per element (`List.Forall₂`); the last also for `Option`.
-/

namespace Except

set_option autoImplicit false

variable {ε ε' α β : Type}

theorem bind_eq_ok_iff {x : Except ε α} {f : α → Except ε β} {b : β} :
    (x >>= f) = .ok b ↔ ∃ a, x = .ok a ∧ f a = .ok b := by
  cases x with
  | error e => simp [bind, Except.bind]
  | ok a => simp [bind, Except.bind]

theorem pure_eq_ok_iff {a b : α} : (pure a : Except ε α) = .ok b ↔ a = b := by
  simp [pure, Except.pure]

theorem mapError_eq_ok_iff {g : ε → ε'} {x : Except ε α} {a : α} : x.mapError g = .ok a ↔ x = .ok a := by
  cases x <;> simp [Except.mapError]

theorem foldlM_invariant (Good : β → Prop) {f : β → α → Except ε β} {l : List α} {init result : β}
    (keeps : ∀ x ∈ l, ∀ acc next, Good acc → f acc x = .ok next → Good next) (good : Good init)
    (finished : l.foldlM f init = .ok result) : Good result := by
  induction l generalizing init with
  | nil =>
    cases finished
    exact good
  | cons x rest induction =>
    rw [List.foldlM_cons] at finished
    obtain ⟨next, stepped, restFinished⟩ := bind_eq_ok_iff.mp finished
    exact induction (fun y member => keeps y (List.mem_cons_of_mem _ member))
      (keeps x List.mem_cons_self init next good stepped) restFinished

theorem mapM_eq_ok_iff {f : α → Except ε β} :
    ∀ {l : List α} {results : List β}, l.mapM f = .ok results ↔ List.Forall₂ (fun x y => f x = .ok y) l results
  | [], results => by
    cases results <;> simp [pure, Except.pure]
  | x :: rest, results => by
    rw [List.mapM_cons, bind_eq_ok_iff]
    constructor
    · rintro ⟨y, first, restDone⟩
      obtain ⟨ys, restOk, built⟩ := bind_eq_ok_iff.mp restDone
      rw [pure_eq_ok_iff] at built
      subst built
      exact List.Forall₂.cons first (mapM_eq_ok_iff.mp restOk)
    · intro pairs
      cases pairs with
      | cons first restPairs =>
        exact ⟨_, first, bind_eq_ok_iff.mpr ⟨_, mapM_eq_ok_iff.mpr restPairs, rfl⟩⟩

end Except

namespace Option

set_option autoImplicit false

variable {α β : Type}

theorem listMapM_eq_some_iff {f : α → Option β} :
    ∀ {l : List α} {results : List β}, l.mapM f = some results ↔ List.Forall₂ (fun x y => f x = some y) l results
  | [], results => by
    cases results <;> simp
  | x :: rest, results => by
    rw [List.mapM_cons]
    simp only [Option.bind_eq_bind, Option.bind_eq_some_iff, Option.pure_def, Option.some.injEq]
    constructor
    · rintro ⟨y, first, ys, restOk, rfl⟩
      exact List.Forall₂.cons first (listMapM_eq_some_iff.mp restOk)
    · intro pairs
      cases pairs with
      | cons first restPairs => exact ⟨_, first, _, listMapM_eq_some_iff.mpr restPairs, rfl⟩

end Option

namespace List

set_option autoImplicit false

variable {α β : Type}

theorem Forall₂.exists_of_mem_left {R : α → β → Prop} {l₁ : List α} {l₂ : List β} (pairs : Forall₂ R l₁ l₂)
    {x : α} (member : x ∈ l₁) : ∃ y ∈ l₂, R x y := by
  induction pairs with
  | nil => cases member
  | @cons a b as bs first rest induction =>
    rcases List.mem_cons.mp member with rfl | later
    · exact ⟨b, List.mem_cons_self, first⟩
    · obtain ⟨y, yMember, related⟩ := induction later
      exact ⟨y, List.mem_cons_of_mem _ yMember, related⟩

end List
