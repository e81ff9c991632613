import Mathlib

/-!
# Keyset pagination

A reader pages through a list sorted by a key, one call at a time, each call on the list as
it is at that call: a page is the first items whose key lies past the cursor, and the next
cursor is the key of the page's last item, handed back only while items remain after the
page. Between calls the list may change in any way that keeps it sorted.

Over every such run the pages return no item twice and go up in key order, and a run that
ends has returned every item present at each of its calls. On a list that does not change
the pages cut the list into pieces, and the run ends after one call more than it has items.
-/

namespace KeysetPaging

set_option autoImplicit false

variable {α κ : Type} [Preorder κ] (key : α → κ)

def Sorted (items : List α) : Prop := items.Pairwise fun a b => key a < key b

def Past (c : Option κ) (x : α) : Prop := ∀ c₀, c = some c₀ → c₀ < key x

variable [DecidableLE κ]

def after : Option κ → List α → List α
  | none, items => items
  | some c, items => items.dropWhile fun x => key x ≤ c

def page (c : Option κ) (limit : Nat) (items : List α) : List α :=
  (after key c items).take limit

def next (c : Option κ) (limit : Nat) (items : List α) : Option κ :=
  if limit < (after key c items).length then (page key c limit items).getLast?.map key else none

/-- A run of calls, each on the items the list holds at that call, with the page size that
`limit` gives for the number of items left: the pages, and whether the last of them came back
without a cursor. -/
def run (limit : Nat → Nat) : Option κ → List (List α) → List (List α) × Bool
  | _, [] => ([], false)
  | c, items :: later =>
      let size := limit (after key c items).length
      match next key c size items with
      | none => ([page key c size items], true)
      | some c' => (page key c size items :: (run limit (some c') later).1, (run limit (some c') later).2)

theorem after_sublist (c : Option κ) (items : List α) : (after key c items).Sublist items := by
  cases c with
  | none => exact List.Sublist.refl items
  | some c => exact List.dropWhile_sublist _

theorem page_sublist (c : Option κ) (limit : Nat) (items : List α) : (page key c limit items).Sublist items :=
  (List.take_sublist _ _).trans (after_sublist key c items)

variable {key}
omit [DecidableLE κ] in
theorem past_none (x : α) : Past key none x := fun _ absent => by cases absent

omit [DecidableLE κ] in
theorem past_some {c : κ} {x : α} : Past key (some c) x ↔ c < key x :=
  ⟨fun past => past c rfl, fun above _ same => by cases same; exact above⟩

omit [DecidableLE κ] in
theorem Sorted.sublist {items others : List α} (sorted : Sorted key items) (sub : others.Sublist items) :
    Sorted key others :=
  List.Pairwise.sublist sub sorted

theorem mem_after {c : Option κ} {items : List α} {x : α} (member : x ∈ items) (past : Past key c x) :
    x ∈ after key c items := by
  cases c with
  | none => exact member
  | some c =>
    have split : items = items.takeWhile (fun x => decide (key x ≤ c)) ++ items.dropWhile fun x => decide (key x ≤ c) :=
      List.takeWhile_append_dropWhile.symm
    rw [split, List.mem_append] at member
    rcases member with taken | dropped
    · have below : key x ≤ c := of_decide_eq_true (List.mem_takeWhile_imp (p := fun x => decide (key x ≤ c)) taken)
      exact absurd (lt_of_le_of_lt below (past_some.mp past)) (lt_irrefl (key x))
    · exact dropped

theorem next_eq_some {c : Option κ} {limit : Nat} {items : List α} {c' : κ}
    (sent : next key c limit items = some c') :
    limit < (after key c items).length ∧ ∃ last, (page key c limit items).getLast? = some last ∧ key last = c' := by
  unfold next at sent
  split at sent
  · rename_i remaining
    obtain ⟨last, isLast, rfl⟩ := Option.map_eq_some_iff.mp sent
    exact ⟨remaining, last, isLast, rfl⟩
  · cases sent

theorem le_of_mem_page {c : Option κ} {limit : Nat} {items : List α} {c' : κ} (sorted : Sorted key items)
    (sent : next key c limit items = some c') {y : α} (member : y ∈ page key c limit items) : key y ≤ c' := by
  obtain ⟨-, last, isLast, rfl⟩ := next_eq_some sent
  have pageSorted : Sorted key (page key c limit items) := sorted.sublist (page_sublist key c limit items)
  obtain ⟨front, split⟩ := List.getLast?_eq_some_iff.mp isLast
  rw [split] at member pageSorted
  rw [Sorted, List.pairwise_append] at pageSorted
  rcases List.mem_append.mp member with inFront | isLastItem
  · exact le_of_lt (pageSorted.2.2 y inFront last (List.mem_singleton_self last))
  · rw [List.mem_singleton.mp isLastItem]

theorem lt_of_mem_drop {c : Option κ} {limit : Nat} {items : List α} {c' : κ} (sorted : Sorted key items)
    (sent : next key c limit items = some c') {z : α} (member : z ∈ (after key c items).drop limit) :
    c' < key z := by
  obtain ⟨-, last, isLast, rfl⟩ := next_eq_some sent
  have remaining : Sorted key (after key c items) := sorted.sublist (after_sublist key c items)
  rw [Sorted, ← List.take_append_drop limit (after key c items), List.pairwise_append] at remaining
  exact remaining.2.2 last (List.mem_of_getLast? isLast) z member

theorem page_eq_after_of_next_none {c : Option κ} {limit : Nat} {items : List α} (positive : 0 < limit)
    (ended : next key c limit items = none) : page key c limit items = after key c items := by
  unfold next at ended
  split at ended
  · rename_i remaining
    have nonempty : page key c limit items ≠ [] := by
      rw [page, Ne, List.take_eq_nil_iff, not_or]
      exact ⟨by omega, fun empty => by simp [empty] at remaining⟩
    rw [List.getLast?_eq_some_getLast nonempty] at ended
    cases ended
  · exact List.take_of_length_le (by omega)

theorem eq_append_after (c : Option κ) (items : List α) :
    ∃ front, items = front ++ after key c items ∧ ∀ a ∈ front, ∃ c₀, c = some c₀ ∧ key a ≤ c₀ := by
  cases c with
  | none => exact ⟨[], rfl, by simp⟩
  | some c =>
    refine ⟨items.takeWhile fun x => decide (key x ≤ c), List.takeWhile_append_dropWhile.symm, ?_⟩
    intro a member
    exact ⟨c, rfl, of_decide_eq_true (List.mem_takeWhile_imp (p := fun x => decide (key x ≤ c)) member)⟩

/-! ## Runs -/

variable {limit : Nat → Nat}

theorem mem_of_mem_run {c : Option κ} {calls : List (List α)} {y : α}
    (returned : y ∈ (run key limit c calls).1.flatten) : ∃ items ∈ calls, y ∈ items := by
  induction calls generalizing c with
  | nil => simp [run] at returned
  | cons items later induction =>
    simp only [run] at returned
    split at returned
    · simp only [List.flatten_cons, List.flatten_nil, List.append_nil] at returned
      exact ⟨items, List.mem_cons_self, (page_sublist key c _ items).subset returned⟩
    · simp only [List.flatten_cons, List.mem_append] at returned
      rcases returned with inPage | inLater
      · exact ⟨items, List.mem_cons_self, (page_sublist key c _ items).subset inPage⟩
      · obtain ⟨list, member, holds⟩ := induction inLater
        exact ⟨list, List.mem_cons_of_mem _ member, holds⟩

theorem mem_run_of_forall_mem (positive : ∀ r, 0 < r → 0 < limit r) {c : Option κ} {calls : List (List α)}
    (sorted : ∀ items ∈ calls, Sorted key items) (ended : (run key limit c calls).2 = true) {x : α}
    (present : ∀ items ∈ calls, x ∈ items) (past : Past key c x) : x ∈ (run key limit c calls).1.flatten := by
  induction calls generalizing c with
  | nil => simp [run] at ended
  | cons items later induction =>
    have first := sorted items List.mem_cons_self
    have left : x ∈ after key c items := mem_after (present items List.mem_cons_self) past
    have size : 0 < limit (after key c items).length :=
      positive _ (List.length_pos_of_mem left)
    simp only [run] at ended ⊢
    split
    · rename_i noCursor
      simpa [page_eq_after_of_next_none size noCursor] using left
    · rename_i c' sent
      rw [sent] at ended
      rw [List.flatten_cons, List.mem_append]
      -- either the page holds `x`, or `x` lies past the cursor the page hands back
      rw [← List.take_append_drop (limit (after key c items).length) (after key c items), List.mem_append] at left
      rcases left with inPage | inRest
      · exact .inl inPage
      · exact .inr (induction (fun list member => sorted list (List.mem_cons_of_mem _ member)) ended
          (fun list member => present list (List.mem_cons_of_mem _ member))
          (past_some.mpr (lt_of_mem_drop first sent inRest)))

/-! ## Over a total preorder

What the cursor leaves lies past it only when keys that are not at or below the cursor lie
above it; the order of keys is total from here on. -/

variable [Std.Total (· ≤ · : κ → κ → Prop)]

omit [DecidableLE κ] in
theorem lt_of_not_le {a b : κ} (not_le : ¬ a ≤ b) : b < a :=
  lt_iff_le_not_ge.mpr ⟨(total_of (· ≤ ·) a b).resolve_left not_le, not_le⟩

theorem past_of_mem_after {c : Option κ} {items : List α} (sorted : Sorted key items) {y : α}
    (member : y ∈ after key c items) : Past key c y := by
  cases c with
  | none => exact past_none y
  | some c =>
    rw [past_some]
    induction items with
    | nil => cases member
    | cons a rest induction =>
      rw [Sorted, List.pairwise_cons] at sorted
      simp only [after, List.dropWhile_cons] at member
      split at member
      · exact induction sorted.2 member
      · rename_i kept
        have first : c < key a := lt_of_not_le (by simpa using kept)
        rcases List.mem_cons.mp member with rfl | later
        · exact first
        · exact lt_trans first (sorted.1 y later)

theorem after_next {c : Option κ} {size : Nat} {items : List α} {c' : κ} (sorted : Sorted key items)
    (sent : next key c size items = some c') : after key (some c') items = (after key c items).drop size := by
  obtain ⟨-, last, isLast, rfl⟩ := next_eq_some sent
  have lastPast : Past key c last :=
    past_of_mem_after sorted ((List.take_sublist _ _).subset (List.mem_of_getLast? isLast))
  obtain ⟨front, split, skipped⟩ := @eq_append_after α κ _ key _ c items
  -- what the cursor skipped and the page lie at or below the page's last key
  have atOrBelow : ∀ a ∈ front ++ (after key c items).take size, decide (key a ≤ key last) = true := by
    intro a member
    rw [List.mem_append] at member
    rcases member with before | inPage
    · obtain ⟨c₀, rfl, below⟩ := skipped a before
      exact decide_eq_true (le_of_lt (lt_of_le_of_lt below (past_some.mp lastPast)))
    · exact decide_eq_true (le_of_mem_page sorted sent inPage)
  have pastLast : ∀ z ∈ (after key c items).drop size, ¬ decide (key z ≤ key last) = true := fun z member held =>
    absurd (lt_of_le_of_lt (of_decide_eq_true held) (lt_of_mem_drop sorted sent member)) (lt_irrefl _)
  show List.dropWhile _ items = _
  conv_lhs => rw [split, ← List.take_append_drop size (after key c items), ← List.append_assoc]
  rw [List.dropWhile_append_of_pos atOrBelow, List.dropWhile_eq_self_iff]
  intro nonempty
  exact pastLast _ (List.getElem_mem nonempty)

theorem run_sorted {c : Option κ} {calls : List (List α)} (sorted : ∀ items ∈ calls, Sorted key items) :
    Sorted key (run key limit c calls).1.flatten ∧ ∀ y ∈ (run key limit c calls).1.flatten, Past key c y := by
  induction calls generalizing c with
  | nil => simp [run, Sorted]
  | cons items later induction =>
    have first := sorted items List.mem_cons_self
    have pageSorted := first.sublist (page_sublist key c (limit (after key c items).length) items)
    have pagePast : ∀ y ∈ page key c (limit (after key c items).length) items, Past key c y :=
      fun y member => past_of_mem_after first ((List.take_sublist _ _).subset member)
    simp only [run]
    split
    · simpa using ⟨pageSorted, pagePast⟩
    · rename_i c' sent
      obtain ⟨laterSorted, laterPast⟩ := induction (c := some c') fun list member =>
        sorted list (List.mem_cons_of_mem _ member)
      -- the page ends at the cursor it hands back, and the later pages lie past it
      have below : ∀ y ∈ page key c (limit (after key c items).length) items, ∀ z ∈ (run key limit (some c') later).1.flatten,
          key y < key z := fun y inPage z inLater =>
        lt_of_le_of_lt (le_of_mem_page first sent inPage) (past_some.mp (laterPast z inLater))
      refine ⟨?_, ?_⟩
      · rw [List.flatten_cons, Sorted, List.pairwise_append]
        exact ⟨pageSorted, laterSorted, below⟩
      · intro y member
        rw [List.flatten_cons, List.mem_append] at member
        rcases member with inPage | inLater
        · exact pagePast y inPage
        · obtain ⟨-, last, isLast, rfl⟩ := next_eq_some sent
          have lastPast := pagePast last (List.mem_of_getLast? isLast)
          intro c₀ same
          exact lt_trans (lastPast c₀ same) (past_some.mp (laterPast y inLater))

theorem run_replicate (positive : ∀ r, 0 < r → 0 < limit r) {items : List α} (sorted : Sorted key items) :
    ∀ (calls : Nat) (c : Option κ), (after key c items).length < calls →
      (run key limit c (List.replicate calls items)).2 = true ∧
        (run key limit c (List.replicate calls items)).1.flatten = after key c items
  | 0, _, enough => absurd enough (Nat.not_lt_zero _)
  | calls + 1, c, enough => by
    simp only [List.replicate_succ, run]
    split
    · rename_i noCursor
      by_cases empty : (after key c items).length = 0
      · have : after key c items = [] := List.eq_nil_of_length_eq_zero empty
        simp [page, this]
      · simp [page_eq_after_of_next_none (positive _ (Nat.pos_of_ne_zero empty)) noCursor]
    · rename_i c' sent
      obtain ⟨remaining, -⟩ := next_eq_some sent
      have size := positive _ (by omega : 0 < (after key c items).length)
      -- the next cursor leaves the items after the page, fewer than the calls left
      have rest := run_replicate positive sorted calls (some c') (by
        rw [after_next sorted sent, List.length_drop]
        omega)
      rw [after_next sorted sent] at rest
      refine ⟨rest.1, ?_⟩
      rw [List.flatten_cons, rest.2, page, List.take_append_drop]

end KeysetPaging
