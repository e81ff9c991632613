import AzureSdk.Lib.Binary64

/-!
# Request charges

`FiniteF64` holds a double that is finite and not `-0.0`: `new_lossy` writes a value that
is not finite, or either zero, as `+0.0`, so that `==` on the doubles it keeps is equality
of their bits and can stand for `Eq` and `Hash`. A `RequestCharge` wraps one. Its `+` adds
the doubles and keeps the sum with `new_lossy`, so a sum past the largest double is
charged as nothing, and its `Sum` folds `+` from `0.0` in iteration order. The addition
rounds, so the same charges added in another grouping may differ in the last bit.
-/

namespace CosmosDriver

open Binary64 (F64)

set_option autoImplicit false

namespace FiniteF64

/-- `FiniteF64::new_lossy`: a value that is not finite, or a zero, becomes `+0.0`. -/
def newLossy (value : F64) : F64 := if !value.isFinite || value.beq F64.zero then F64.zero else value

theorem newLossy_beq {value : F64} (finite : value.isFinite = true) (other : F64) :
    (newLossy value).beq other = value.beq other := by
  unfold newLossy
  by_cases zero : value.beq F64.zero = true
  · rw [if_pos (by simp [zero])]
    exact (F64.beq_congr_left zero other).symm
  · rw [if_neg (by simp [finite, zero])]

theorem newLossy_eq_of_beq {a b : F64} (same : a.beq b = true) : newLossy a = newLossy b := by
  obtain ⟨aNotNaN, -, ordinals⟩ := F64.beq_iff.mp same
  have finiteAlike : a.isFinite = b.isFinite := by
    rw [Bool.eq_iff_iff, F64.isFinite_iff_ordinal, F64.isFinite_iff_ordinal, ordinals]
  have zeroAlike : a.beq F64.zero = b.beq F64.zero := F64.beq_congr_left same F64.zero
  unfold newLossy
  rw [← finiteAlike, ← zeroAlike]
  split
  · rfl
  · rename_i kept
    simp only [Bool.or_eq_true, Bool.not_eq_eq_eq_not, Bool.not_true, not_or, Bool.not_eq_false] at kept
    have nonzero : a.ordinal ≠ 0 := fun zero => by
      simp [F64.beq_zero_iff.mpr ⟨aNotNaN, zero⟩] at kept
    exact F64.eq_of_ordinal_eq kept.1 (finiteAlike ▸ kept.1) ordinals nonzero

theorem newLossy_newLossy (value : F64) : newLossy (newLossy value) = newLossy value := by
  unfold newLossy
  split
  · simp [F64.beq_self F64.isNaN_zero]
  · rfl

theorem isFinite_newLossy (value : F64) : (newLossy value).isFinite = true := by
  unfold newLossy
  split
  · decide
  · rename_i kept
    simp only [Bool.or_eq_true, Bool.not_eq_eq_eq_not, Bool.not_true, not_or, Bool.not_eq_false] at kept
    exact kept.1

end FiniteF64

/-- `RequestCharge`, by the double of its `FiniteF64`: one that `new_lossy` keeps. -/
structure RequestCharge where
  value : F64
  normalized : FiniteF64.newLossy value = value
  deriving DecidableEq

namespace RequestCharge

def new (value : F64) : RequestCharge := ⟨FiniteF64.newLossy value, FiniteF64.newLossy_newLossy value⟩

/-- `Default`: `0.0`. -/
instance instZero : Zero RequestCharge := ⟨new F64.zero⟩

/-- `Add`: `new(self.value() + rhs.value())`. -/
instance instAdd : Add RequestCharge := ⟨fun self rhs => new (self.value.add rhs.value)⟩

/-- `Sum`: a fold of `+` from the default. -/
def sum (charges : List RequestCharge) : RequestCharge := charges.foldl (· + ·) 0

theorem eq_iff_beq {a b : RequestCharge} : a = b ↔ a.value.beq b.value = true := by
  constructor
  · rintro rfl
    have finite : a.value.isFinite = true := a.normalized ▸ FiniteF64.isFinite_newLossy a.value
    exact F64.beq_self (F64.not_isNaN_of_isFinite finite)
  · intro same
    have values : a.value = b.value := by
      rw [← a.normalized, ← b.normalized]
      exact FiniteF64.newLossy_eq_of_beq same
    cases a
    cases b
    cases values
    rfl

end RequestCharge

end CosmosDriver
