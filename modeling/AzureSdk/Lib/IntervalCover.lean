import Mathlib

/-!
# Deciding interval coverage by a sweep

Half-open pieces `[lo p, hi p)`, sorted by their lower ends, are walked left to right
with a cursor that starts at `start`: a piece that starts past the cursor leaves a gap,
and otherwise the cursor moves to the piece's end when that is further. The pieces
cover `[start, stop)` exactly when the walk finds no gap and ends at or past `stop`.
The order is a total preorder, so distinct points may be equivalent; no piece needs to
be non-empty, and pieces may overlap, nest or repeat.
-/

namespace IntervalCover

set_option autoImplicit false

variable {α ι : Type} [Preorder α] (lo hi : ι → α)

/-- One piece of the sweep: `none` at a gap, else the cursor moved to the piece's end if
that is further. -/
def step [DecidableRel (α := α) (· < ·)] (cursor : α) (piece : ι) : Option α :=
  if cursor < lo piece then none else some (if cursor < hi piece then hi piece else cursor)

def Covers (start stop : α) (pieces : List ι) : Prop :=
  ∀ e, start ≤ e → e < stop → ∃ p ∈ pieces, lo p ≤ e ∧ e < hi p

structure Swept (start : α) (done : List ι) (cursor : α) : Prop where
  above_start : start ≤ cursor
  ends_below : ∀ p ∈ done, hi p ≤ cursor
  covered : ∀ e, start ≤ e → e < cursor → ∃ p ∈ done, lo p ≤ e ∧ e < hi p

variable {lo hi}

theorem swept_nil (start : α) : Swept lo hi start [] start :=
  ⟨le_refl _, fun _ absent => absurd absent List.not_mem_nil,
    fun _ above below => absurd below (not_lt_of_ge above)⟩

theorem le_of_not_lt' (total : ∀ a b : α, a ≤ b ∨ b ≤ a) {a b : α} (notBelow : ¬ a < b) : b ≤ a := by
  rcases total a b with below | above
  · exact not_not.mp fun notAbove => notBelow (lt_of_le_not_ge below notAbove)
  · exact above

section Total

variable [DecidableRel (α := α) (· < ·)] (total : ∀ a b : α, a ≤ b ∨ b ≤ a)
include total

theorem Swept.of_step {start cursor next : α} {done : List ι} {piece : ι} (swept : Swept lo hi start done cursor)
    (stepped : step lo hi cursor piece = some next) : Swept lo hi start (done ++ [piece]) next := by
  simp only [IntervalCover.step] at stepped
  split_ifs at stepped with gap further <;> cases stepped
  · -- the cursor moves to the end of the piece
    have reached : lo piece ≤ cursor := le_of_not_lt' total gap
    refine ⟨le_trans swept.above_start (le_of_lt further), ?_, ?_⟩
    · intro p member
      rcases List.mem_append.mp member with earlier | now
      · exact le_trans (swept.ends_below p earlier) (le_of_lt further)
      · rw [List.mem_singleton.mp now]
    · intro e above below
      by_cases old : e < cursor
      · obtain ⟨p, member, inside⟩ := swept.covered e above old
        exact ⟨p, List.mem_append_left _ member, inside⟩
      · exact ⟨piece, List.mem_append_right _ (List.mem_singleton_self _),
          le_trans reached (le_of_not_lt' total old), below⟩
  · -- the piece ends at or before the cursor
    refine ⟨swept.above_start, ?_, fun e above below => ?_⟩
    · intro p member
      rcases List.mem_append.mp member with earlier | now
      · exact swept.ends_below p earlier
      · rw [List.mem_singleton.mp now]
        exact le_of_not_lt' total further
    · obtain ⟨p, member, inside⟩ := swept.covered e above below
      exact ⟨p, List.mem_append_left _ member, inside⟩

theorem Swept.run {start : α} :
    ∀ (rest done : List ι) (cursor final : α), Swept lo hi start done cursor →
      rest.foldlM (step lo hi) cursor = some final → Swept lo hi start (done ++ rest) final := by
  intro rest
  induction rest with
  | nil =>
      intro done cursor final swept ended
      cases ended
      simpa using swept
  | cons piece rest induction =>
      intro done cursor final swept ended
      rw [List.foldlM_cons] at ended
      cases stepped : step lo hi cursor piece with
      | none => simp [stepped] at ended
      | some next =>
          rw [stepped, Option.bind_eq_bind, Option.bind_some] at ended
          simpa using induction (done ++ [piece]) next final (swept.of_step total stepped) ended

theorem Swept.gap {start stop : α} :
    ∀ (rest done : List ι) (cursor : α), Swept lo hi start done cursor →
      rest.Pairwise (fun p q => lo p ≤ lo q) → (∀ p ∈ rest, lo p ≤ stop) →
      rest.foldlM (step lo hi) cursor = none →
      ∃ e, start ≤ e ∧ e < stop ∧ ∀ p ∈ done ++ rest, ¬ (lo p ≤ e ∧ e < hi p) := by
  intro rest
  induction rest with
  | nil => intro _ _ _ _ _ ended; cases ended
  | cons piece rest induction =>
      intro done cursor swept sorted bounded ended
      rw [List.foldlM_cons] at ended
      cases stepped : step lo hi cursor piece with
      | none =>
          -- the cursor itself is the point no piece reaches
          have gap : cursor < lo piece := by
            simp only [IntervalCover.step] at stepped
            split_ifs at stepped with gap
            exact gap
          refine ⟨cursor, swept.above_start, lt_of_lt_of_le gap (bounded piece List.mem_cons_self), ?_⟩
          rintro p member ⟨reached, inside⟩
          rcases List.mem_append.mp member with earlier | later
          · exact not_lt_of_ge (swept.ends_below p earlier) inside
          · have after : lo piece ≤ lo p := by
              rcases List.mem_cons.mp later with same | rest
              · rw [same]
              · exact List.rel_of_pairwise_cons sorted rest
            exact not_lt_of_ge reached (lt_of_lt_of_le gap after)
      | some next =>
          rw [stepped, Option.bind_eq_bind, Option.bind_some] at ended
          obtain ⟨e, above, below, outside⟩ := induction (done ++ [piece]) next (swept.of_step total stepped)
            (List.Pairwise.of_cons sorted) (fun p member => bounded p (List.mem_cons_of_mem _ member)) ended
          exact ⟨e, above, below, fun p member => outside p (by simpa using member)⟩

theorem sweep_iff_covers {start stop : α} {pieces : List ι}
    (sorted : pieces.Pairwise fun p q => lo p ≤ lo q) (bounded : ∀ p ∈ pieces, lo p ≤ stop) :
    (∃ cursor, pieces.foldlM (step lo hi) start = some cursor ∧ stop ≤ cursor) ↔ Covers lo hi start stop pieces := by
  constructor
  · rintro ⟨cursor, ended, past⟩ e above below
    have swept := Swept.run total pieces [] start cursor (swept_nil start) ended
    simpa using swept.covered e above (lt_of_lt_of_le below past)
  · intro covers
    cases ended : pieces.foldlM (step lo hi) start with
    | none =>
        obtain ⟨e, above, below, outside⟩ :=
          Swept.gap total pieces [] start (swept_nil start) sorted bounded ended
        obtain ⟨p, member, inside⟩ := covers e above below
        exact absurd inside (outside p (by simpa using member))
    | some cursor =>
        refine ⟨cursor, rfl, ?_⟩
        -- a cursor short of `stop` is itself uncovered
        have swept := Swept.run total pieces [] start cursor (swept_nil start) ended
        by_contra short
        have below : cursor < stop := lt_of_le_not_ge ((total cursor stop).resolve_right short) short
        obtain ⟨p, member, -, inside⟩ := covers cursor swept.above_start below
        exact not_lt_of_ge (swept.ends_below p (by simpa using member)) inside

end Total

end IntervalCover
