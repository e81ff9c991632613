import Mathlib

/-!
# SQL LIKE matching

`like_match_dp` fills a table `dp[ti][pi]`, true when `text[ti..]` matches `pattern[pi..]`,
column by column from the last pattern position, each column from the last text position:
`%` matches any run of characters, `_` any one character, and the escape character makes
the character after it literal. The table is read here as a function of the two indices,
each assignment updating one cell. `likeMatches` is the recursive reading of the same
pattern language, left to right; the table agrees with it on every text, pattern and escape.
-/

namespace CosmosDriver.Query

set_option autoImplicit false

def setCell (dp : Nat → Nat → Bool) (ti pi : Nat) (value : Bool) : Nat → Nat → Bool :=
  fun i j => if i = ti ∧ j = pi then value else dp i j

/-- The value the loop body of `like_match_dp` assigns to `dp[ti][pi]`. -/
def likeCell (text pattern : List Char) (escape : Option Char) (dp : Nat → Nat → Bool) (ti pi : Nat) : Bool :=
  let pc := pattern.getD pi ' '
  if some pc = escape ∧ pi + 1 < pattern.length then
    -- the next character is literal
    decide (ti < text.length) && text.getD ti ' ' == pattern.getD (pi + 1) ' ' && dp (ti + 1) (pi + 2)
  else
    match pc with
    | '%' => dp ti (pi + 1) || (decide (ti < text.length) && dp (ti + 1) pi)
    | '_' => decide (ti < text.length) && dp (ti + 1) (pi + 1)
    | _ => decide (ti < text.length) && text.getD ti ' ' == pc && dp (ti + 1) (pi + 1)

def fillColumn (text pattern : List Char) (escape : Option Char) (pi : Nat) :
    List Nat → (Nat → Nat → Bool) → Nat → Nat → Bool
  | [], dp => dp
  | ti :: rows, dp => fillColumn text pattern escape pi rows (setCell dp ti pi (likeCell text pattern escape dp ti pi))

def fillTable (text pattern : List Char) (escape : Option Char) :
    List Nat → (Nat → Nat → Bool) → Nat → Nat → Bool
  | [], dp => dp
  | pi :: columns, dp =>
      fillTable text pattern escape columns (fillColumn text pattern escape pi (List.range (text.length + 1)).reverse dp)

/-- `like_match_dp`: the table starts false but for `dp[n][m]`, the two empty suffixes. -/
def likeMatchDp (text pattern : List Char) (escape : Option Char) : Bool :=
  let initial : Nat → Nat → Bool := fun ti pi => decide (ti = text.length ∧ pi = pattern.length)
  fillTable text pattern escape (List.range pattern.length).reverse initial 0 0

/-- `sql_like_match`: the escape is the first character of the `ESCAPE` string. -/
def sqlLikeMatch (text pattern : String) (escape : Option String) : Bool :=
  likeMatchDp text.toList pattern.toList (escape.bind fun e => e.toList.head?)

def likeMatches (escape : Option Char) (text pattern : List Char) : Bool :=
  match pattern with
  | [] => text.isEmpty
  | pc :: rest =>
      if some pc = escape ∧ rest ≠ [] then
        match text, rest with
        | t :: ts, c :: after => t == c && likeMatches escape ts after
        | _, _ => false
      else
        match pc with
        | '%' =>
            likeMatches escape text rest ||
              match text with
              | _ :: ts => likeMatches escape ts (pc :: rest)
              | [] => false
        | '_' =>
            match text with
            | _ :: ts => likeMatches escape ts rest
            | [] => false
        | _ =>
            match text with
            | t :: ts => t == pc && likeMatches escape ts rest
            | [] => false
termination_by (pattern.length, text.length)
decreasing_by all_goals (simp_wf; omega)

/-! ## The table holds the matches of the suffixes -/

section Agreement

variable (text pattern : List Char) (escape : Option Char)

def suffixesMatch (ti pi : Nat) : Bool := likeMatches escape (text.drop ti) (pattern.drop pi)

def FilledFrom (dp : Nat → Nat → Bool) (pi : Nat) : Prop :=
  ∀ i ≤ text.length, ∀ j, pi ≤ j → j ≤ pattern.length → dp i j = suffixesMatch text pattern escape i j

variable {text pattern escape}

theorem likeMatches_nil_pattern (rest : List Char) : likeMatches escape rest [] = rest.isEmpty := by
  rw [likeMatches]

theorem filledFrom_initial :
    FilledFrom text pattern escape (fun ti pi => decide (ti = text.length ∧ pi = pattern.length)) pattern.length := by
  intro i row j low high
  have last : j = pattern.length := by omega
  subst last
  simp only [suffixesMatch, List.drop_length, likeMatches_nil_pattern, and_true]
  rw [Bool.eq_iff_iff, decide_eq_true_iff, List.isEmpty_iff, List.drop_eq_nil_iff]
  omega

theorem likeCell_eq {dp : Nat → Nat → Bool} {ti pi : Nat} (row : ti ≤ text.length) (column : pi < pattern.length)
    (later : FilledFrom text pattern escape dp (pi + 1))
    (below : ∀ i, ti < i → i ≤ text.length → dp i pi = suffixesMatch text pattern escape i pi) :
    likeCell text pattern escape dp ti pi = suffixesMatch text pattern escape ti pi := by
  have character : pattern.getD pi ' ' = pattern[pi] := by simp [column]
  have restNonempty : pattern.drop (pi + 1) ≠ [] ↔ pi + 1 < pattern.length := by
    rw [ne_eq, List.drop_eq_nil_iff]
    omega
  unfold likeCell suffixesMatch
  rw [character, List.drop_eq_getElem_cons column, likeMatches.eq_def]
  dsimp only
  by_cases escaped : some pattern[pi] = escape ∧ pi + 1 < pattern.length
  · -- both read the next pattern character literally
    rw [if_pos escaped, if_pos ⟨escaped.1, restNonempty.mpr escaped.2⟩, List.drop_eq_getElem_cons escaped.2]
    by_cases inText : ti < text.length
    · have next := later (ti + 1) inText (pi + 2) (by omega) (by omega)
      rw [List.drop_eq_getElem_cons inText]
      simp [inText, escaped.2, next, suffixesMatch]
    · have atEnd : ti = text.length := by omega
      subst atEnd
      simp
  · rw [if_neg escaped, if_neg fun both => escaped ⟨both.1, restNonempty.mp both.2⟩]
    have nextColumn : ∀ i ≤ text.length, dp i (pi + 1) = likeMatches escape (text.drop i) (pattern.drop (pi + 1)) :=
      fun i inRange => later i inRange (pi + 1) (by omega) (by omega)
    by_cases inText : ti < text.length
    · -- `%` reads the cell below it, which the inner loop has already filled
      have sameColumn : dp (ti + 1) pi =
          likeMatches escape (text.drop (ti + 1)) (pattern[pi] :: pattern.drop (pi + 1)) := by
        rw [below (ti + 1) (by omega) inText, suffixesMatch, List.drop_eq_getElem_cons column]
      have nextRow := nextColumn (ti + 1) inText
      rw [nextColumn ti row, List.drop_eq_getElem_cons inText]
      split
      · rw [sameColumn, decide_eq_true inText, Bool.true_and]
      · simp [inText, nextRow]
      · simp [inText, nextRow]
    · have atEnd : ti = text.length := by omega
      subst atEnd
      split
      · simp [nextColumn text.length le_rfl]
      · simp
      · simp

theorem fillColumn_filled {pi : Nat} (column : pi < pattern.length) (r : Nat) :
    ∀ dp : Nat → Nat → Bool, r ≤ text.length + 1 → FilledFrom text pattern escape dp (pi + 1) →
      (∀ i, r ≤ i → i ≤ text.length → dp i pi = suffixesMatch text pattern escape i pi) →
      FilledFrom text pattern escape (fillColumn text pattern escape pi (List.range r).reverse dp) pi := by
  induction r with
  | zero =>
    intro dp _ later filled i row j low high
    rcases Nat.eq_or_lt_of_le low with same | after
    · subst same
      exact filled i (Nat.zero_le _) row
    · exact later i row j after high
  | succ r induction =>
    intro dp bound later filled
    rw [List.range_succ, List.reverse_append, List.reverse_singleton, List.singleton_append, fillColumn]
    apply induction _ (by omega)
    · -- the assignment leaves the later columns as they were
      intro i row j low high
      rw [setCell, if_neg (by omega)]
      exact later i row j low high
    · intro i low high
      by_cases here : i = r
      · subst here
        rw [setCell, if_pos ⟨rfl, rfl⟩]
        exact likeCell_eq (by omega) column later fun k above inRange => filled k above inRange
      · rw [setCell, if_neg fun both => here both.1]
        exact filled i (by omega) high

theorem fillTable_filled (c : Nat) :
    ∀ dp : Nat → Nat → Bool, c ≤ pattern.length → FilledFrom text pattern escape dp c →
      FilledFrom text pattern escape (fillTable text pattern escape (List.range c).reverse dp) 0 := by
  induction c with
  | zero => exact fun dp _ filled => filled
  | succ c induction =>
    intro dp bound filled
    rw [List.range_succ, List.reverse_append, List.reverse_singleton, List.singleton_append, fillTable]
    apply induction _ (by omega)
    exact fillColumn_filled (by omega) (text.length + 1) dp le_rfl filled fun i low high => absurd high (by omega)

end Agreement

/-- The table `like_match_dp` fills computes LIKE, on every text, pattern and escape. -/
theorem like_table_matches_pattern (text pattern : List Char) (escape : Option Char) :
    likeMatchDp text pattern escape = likeMatches escape text pattern := by
  have filled := fillTable_filled pattern.length _ le_rfl (@filledFrom_initial text pattern escape)
  have corner := filled 0 (Nat.zero_le _) 0 le_rfl (Nat.zero_le _)
  rw [suffixesMatch, List.drop_zero, List.drop_zero] at corner
  exact corner

example : likeMatchDp "abc".toList "a%".toList none = true := by decide
example : likeMatchDp "a%".toList "a\\%".toList (some '\\') = true := by decide
example : likeMatchDp "ab".toList "a\\%".toList (some '\\') = false := by decide

end CosmosDriver.Query
