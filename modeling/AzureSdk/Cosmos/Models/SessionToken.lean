import AzureSdk.Lib.SortedMap

/-!
# Session tokens and their merge

`vector_session_token.rs`: a vector token is a topology `version`, a global LSN
and the progress of each region, where a region's LSN is `None` (the wire's `-1`)
before it has any progress; `Option<u64>` orders `None` below every LSN, which is
`WithBot ℕ`. The map from region to progress is a `HashMap`; only its contents
are ever observed (merges look keys up, equality compares contents), so it is
modelled by its contents in key order, a sorted association list.

A merge of tokens of one version takes maxima everywhere, and keeps every region
either side has. Across versions the higher version's global LSN and regions win,
with maxima only on the regions both have, so that a region the newer topology
dropped is not revived. Seen through `view`, where a region is absent (`⊥`),
present without progress, or present at an LSN, the first is the pointwise
maximum: merges of one version form a semilattice. The second is not associative.
-/

namespace CosmosDriver

set_option autoImplicit false

/-- `region_progress`: a `HashMap<u64, Option<u64>>`, by its entries in key order. -/
structure RegionProgress where
  entries : List (Nat × WithBot Nat)
  sorted : SortedMap.Sorted entries

namespace RegionProgress

instance : DecidableEq RegionProgress := fun a b =>
  decidable_of_iff (a.entries = b.entries) ⟨fun same => by cases a; cases b; simp_all, by simp_all⟩

def empty : RegionProgress := ⟨[], SortedMap.sorted_nil⟩

def get (progress : RegionProgress) (region : Nat) : Option (WithBot Nat) :=
  SortedMap.get progress.entries region

def insert (progress : RegionProgress) (region : Nat) (lsn : WithBot Nat) : RegionProgress :=
  ⟨SortedMap.insert progress.entries region lsn, SortedMap.sorted_insert progress.sorted region lsn⟩

def view (progress : RegionProgress) (region : Nat) : WithBot (WithBot Nat) :=
  match progress.get region with
  | some lsn => lsn
  | none => ⊥

theorem get_insert (progress : RegionProgress) (region : Nat) (lsn : WithBot Nat) (other : Nat) :
    (progress.insert region lsn).get other = if other = region then some lsn else progress.get other :=
  SortedMap.get_insert _ _ _ _

theorem view_insert (progress : RegionProgress) (region : Nat) (lsn : WithBot Nat) (other : Nat) :
    (progress.insert region lsn).view other = if other = region then (lsn : WithBot (WithBot Nat))
      else progress.view other := by
  unfold view
  rw [get_insert]
  split_ifs <;> rfl

theorem view_eq_bot_iff (progress : RegionProgress) (region : Nat) :
    progress.view region = ⊥ ↔ progress.get region = none := by
  unfold view
  cases progress.get region <;> simp

@[simp] theorem view_empty (region : Nat) : empty.view region = ⊥ := rfl

theorem ext_view {left right : RegionProgress} (same : ∀ region, left.view region = right.view region) :
    left = right := by
  obtain ⟨leftEntries, leftSorted⟩ := left
  obtain ⟨rightEntries, rightSorted⟩ := right
  have entries : leftEntries = rightEntries := by
    refine SortedMap.ext leftSorted rightSorted fun region => ?_
    have := same region
    unfold view get at this
    cases found : SortedMap.get leftEntries region <;>
      cases other : SortedMap.get rightEntries region <;> simp_all
  subst entries
  rfl

theorem view_cons {region : Nat} {lsn : WithBot Nat} {rest : List (Nat × WithBot Nat)}
    (sorted : SortedMap.Sorted ((region, lsn) :: rest)) (other : Nat) :
    (RegionProgress.mk ((region, lsn) :: rest) sorted).view other =
      if other = region then (lsn : WithBot (WithBot Nat))
      else (RegionProgress.mk rest (SortedMap.sorted_cons.mp sorted).2).view other := by
  unfold view get
  simp only [SortedMap.get]
  split_ifs <;> rfl

/-- A map is below another when each region's entry is: a region can only appear or
advance. -/
instance : PartialOrder RegionProgress where
  le left right := ∀ region, left.view region ≤ right.view region
  le_refl _ _ := le_rfl
  le_trans _ _ _ first second region := (first region).trans (second region)
  le_antisymm _ _ first second := ext_view fun region => le_antisymm (first region) (second region)

theorem le_iff_view {left right : RegionProgress} :
    left ≤ right ↔ ∀ region, left.view region ≤ right.view region := Iff.rfl

end RegionProgress

structure VectorSessionToken where
  version : Int
  globalLsn : Nat
  regionProgress : RegionProgress
  deriving DecidableEq

namespace VectorSessionToken

/-- One region of `other` in a merge of one version: a higher LSN replaces the one
`self` has, and a region `self` lacks is added, which counts as a change even
without progress. -/
def mergeSameRegion (acc : Bool × RegionProgress) (entry : Nat × WithBot Nat) :
    Bool × RegionProgress :=
  match acc.2.get entry.1 with
  | some current => if entry.2 > current then (true, acc.2.insert entry.1 entry.2) else acc
  | none => (true, acc.2.insert entry.1 entry.2)

/-- One region of the higher version's token in a merge across versions, at its
maximum with the lower version's when that has it. -/
def mergeHigherRegion (lower merged : RegionProgress) (entry : Nat × WithBot Nat) : RegionProgress :=
  merged.insert entry.1 (match lower.get entry.1 with
    | some lowerLsn => max entry.2 lowerLsn
    | none => entry.2)

def mergedRegions (higher lower : RegionProgress) : RegionProgress :=
  higher.entries.foldl (mergeHigherRegion lower) RegionProgress.empty

def merge (self other : VectorSessionToken) : Bool × VectorSessionToken :=
  if self.version = other.version then
    let globalChanged := decide (other.globalLsn > self.globalLsn)
    let globalLsn := if globalChanged then other.globalLsn else self.globalLsn
    let regions := other.regionProgress.entries.foldl mergeSameRegion (globalChanged, self.regionProgress)
    (regions.1, { self with globalLsn := globalLsn, regionProgress := regions.2 })
  else
    let (higher, lower) := if other.version > self.version then (other, self) else (self, other)
    let merged := mergedRegions higher.regionProgress lower.regionProgress
    let changed := self.version != higher.version || self.globalLsn != higher.globalLsn ||
      self.regionProgress != merged
    if changed then (true, ⟨higher.version, higher.globalLsn, merged⟩) else (false, self)

theorem view_mergeSameRegion (acc : Bool × RegionProgress) (entry : Nat × WithBot Nat) (region : Nat) :
    (mergeSameRegion acc entry).2.view region =
      if region = entry.1 then acc.2.view region ⊔ (entry.2 : WithBot (WithBot Nat))
      else acc.2.view region := by
  obtain ⟨changed, progress⟩ := acc
  obtain ⟨key, lsn⟩ := entry
  unfold mergeSameRegion
  dsimp only
  by_cases asked : region = key
  · subst asked
    cases found : progress.get region with
    | none =>
        have absent : progress.view region = ⊥ := (RegionProgress.view_eq_bot_iff _ _).mpr found
        simp [RegionProgress.view_insert, absent]
    | some current =>
        have present : progress.view region = current := by simp [RegionProgress.view, found]
        -- the larger LSN stays, whichever side has it
        by_cases raised : lsn > current
        · simp [RegionProgress.view_insert, raised, present, le_of_lt raised]
        · simp [raised, present, not_lt.mp raised]
  · cases found : progress.get key with
    | none => simp [RegionProgress.view_insert, asked]
    | some current =>
        by_cases raised : lsn > current <;> simp [RegionProgress.view_insert, raised, asked]

theorem le_mergeSameRegion (acc : Bool × RegionProgress) (entry : Nat × WithBot Nat) :
    acc.2 ≤ (mergeSameRegion acc entry).2 := by
  intro region
  rw [view_mergeSameRegion]
  split_ifs
  · exact le_sup_left
  · exact le_rfl

theorem changed_mergeSameRegion (acc : Bool × RegionProgress) (entry : Nat × WithBot Nat) :
    (mergeSameRegion acc entry).1 = (acc.1 || decide ((mergeSameRegion acc entry).2 ≠ acc.2)) := by
  obtain ⟨changed, progress⟩ := acc
  obtain ⟨key, lsn⟩ := entry
  have moved : ∀ lsn' : WithBot Nat, progress.view key < lsn' → progress.insert key lsn' ≠ progress := by
    intro lsn' below same
    have atKey := congrArg (fun progress => progress.view key) same
    simp only [RegionProgress.view_insert] at atKey
    exact (ne_of_gt below) atKey
  unfold mergeSameRegion
  dsimp only
  cases found : progress.get key with
  | none =>
      have added := moved lsn (by simp [(RegionProgress.view_eq_bot_iff _ _).mpr found])
      simp [added]
  | some current =>
      have present : progress.view key = current := by simp [RegionProgress.view, found]
      by_cases raised : lsn > current
      · have raisedView := moved lsn (by simpa [present] using raised)
        simp [raised, raisedView]
      · simp [raised]

theorem ne_or_ne_iff_of_le {start middle finish : RegionProgress} (first : start ≤ middle)
    (second : middle ≤ finish) : (middle ≠ start ∨ finish ≠ middle) ↔ finish ≠ start := by
  constructor
  · rintro moved rfl
    have back : middle = finish := le_antisymm second first
    rcases moved with moved | moved
    · exact moved back
    · exact moved back.symm
  · intro moved
    by_contra unmoved
    obtain ⟨same, still⟩ := not_or.mp unmoved
    exact moved ((not_not.mp still).trans (not_not.mp same))

theorem changed_foldl_mergeSameRegion (entries : List (Nat × WithBot Nat)) (acc : Bool × RegionProgress) :
    (entries.foldl mergeSameRegion acc).1 =
        (acc.1 || decide ((entries.foldl mergeSameRegion acc).2 ≠ acc.2)) ∧
      acc.2 ≤ (entries.foldl mergeSameRegion acc).2 := by
  induction entries generalizing acc with
  | nil => simp
  | cons entry rest induction =>
      obtain ⟨restChanged, restRaises⟩ := induction (mergeSameRegion acc entry)
      have stepRaises := le_mergeSameRegion acc entry
      rw [List.foldl_cons]
      refine ⟨?_, stepRaises.trans restRaises⟩
      rw [restChanged, changed_mergeSameRegion, Bool.or_assoc, ← Bool.decide_or,
        decide_eq_decide.mpr (ne_or_ne_iff_of_le stepRaises restRaises)]

theorem view_foldl_mergeSameRegion (entries : List (Nat × WithBot Nat))
    (sorted : SortedMap.Sorted entries) (acc : Bool × RegionProgress) (region : Nat) :
    (entries.foldl mergeSameRegion acc).2.view region =
      acc.2.view region ⊔ (RegionProgress.mk entries sorted).view region := by
  induction entries generalizing acc with
  | nil => simp [RegionProgress.view, RegionProgress.get, SortedMap.get]
  | cons head rest induction =>
      obtain ⟨key, lsn⟩ := head
      obtain ⟨keyFirst, restSorted⟩ := SortedMap.sorted_cons.mp sorted
      rw [List.foldl_cons, induction restSorted, view_mergeSameRegion, RegionProgress.view_cons sorted]
      by_cases asked : region = key
      · -- the rest of the entries do not have the head's region
        subst asked
        have absent : (RegionProgress.mk rest restSorted).view region = ⊥ :=
          (RegionProgress.view_eq_bot_iff _ _).mpr (SortedMap.get_of_forall_lt keyFirst)
        simp [absent]
      · simp [asked]

theorem view_mergeHigherRegion (lower merged : RegionProgress) (entry : Nat × WithBot Nat)
    (region : Nat) :
    (mergeHigherRegion lower merged entry).view region =
      if region = entry.1 then (entry.2 : WithBot (WithBot Nat)) ⊔ lower.view region
      else merged.view region := by
  obtain ⟨key, lsn⟩ := entry
  unfold mergeHigherRegion
  rw [RegionProgress.view_insert]
  split_ifs with asked
  · subst asked
    cases found : lower.get region with
    | none => simp [(RegionProgress.view_eq_bot_iff _ _).mpr found]
    | some lowerLsn => simp [RegionProgress.view, found, WithBot.coe_sup]
  · rfl

theorem view_foldl_mergeHigherRegion (lower : RegionProgress) (entries : List (Nat × WithBot Nat))
    (sorted : SortedMap.Sorted entries) (merged : RegionProgress) (region : Nat) :
    (entries.foldl (mergeHigherRegion lower) merged).view region =
      if (RegionProgress.mk entries sorted).view region = ⊥ then merged.view region
      else (RegionProgress.mk entries sorted).view region ⊔ lower.view region := by
  induction entries generalizing merged with
  | nil => simp [RegionProgress.view, RegionProgress.get, SortedMap.get]
  | cons head rest induction =>
      obtain ⟨key, lsn⟩ := head
      obtain ⟨keyFirst, restSorted⟩ := SortedMap.sorted_cons.mp sorted
      rw [List.foldl_cons, induction restSorted, view_mergeHigherRegion, RegionProgress.view_cons sorted]
      by_cases asked : region = key
      · subst asked
        have absent : (RegionProgress.mk rest restSorted).view region = ⊥ :=
          (RegionProgress.view_eq_bot_iff _ _).mpr (SortedMap.get_of_forall_lt keyFirst)
        simp [absent]
      · simp [asked]

theorem view_mergedRegions (higher lower : RegionProgress) (region : Nat) :
    (mergedRegions higher lower).view region =
      if higher.view region = ⊥ then ⊥ else higher.view region ⊔ lower.view region :=
  view_foldl_mergeHigherRegion lower higher.entries higher.sorted _ region

/-- The check `is_as_recent_as` makes of one region of `other`. -/
def regionCovered (self : RegionProgress) (entry : Nat × WithBot Nat) : Bool :=
  match self.get entry.1 with
  | some selfLsn => decide (selfLsn ≥ entry.2)
  | none => false

/-- `is_as_recent_as`: a higher version is more recent outright; within one version
every LSN of `other` must be matched. -/
def isAsRecentAs (self other : VectorSessionToken) : Bool :=
  if self.version > other.version then true
  else if self.version < other.version then false
  else if self.globalLsn < other.globalLsn then false
  else other.regionProgress.entries.all (regionCovered self.regionProgress)

theorem all_regionCovered_iff (self other : RegionProgress) :
    other.entries.all (regionCovered self) = true ↔ other ≤ self := by
  rw [List.all_eq_true, RegionProgress.le_iff_view]
  constructor
  · intro covered region
    cases found : other.get region with
    | none => simp [RegionProgress.view, found]
    | some lsn =>
        have check := covered _ (SortedMap.mem_of_get_eq_some found)
        unfold regionCovered at check
        cases mine : self.get region with
        | none => simp [mine] at check
        | some selfLsn =>
            simp only [mine, decide_eq_true_eq] at check
            simp [RegionProgress.view, found, mine, check]
  · intro below entry member
    have found : other.get entry.1 = some entry.2 := SortedMap.get_of_mem other.sorted member
    have atRegion := below entry.1
    unfold regionCovered
    cases mine : self.get entry.1 with
    | none => simp [RegionProgress.view, found, mine] at atRegion
    | some selfLsn => simpa [RegionProgress.view, found, mine] using atRegion

theorem eq_of_not_changed {self : VectorSessionToken} {version : Int} {globalLsn : Nat}
    {merged : RegionProgress}
    (unchanged : ¬ (self.version != version || self.globalLsn != globalLsn ||
      self.regionProgress != merged) = true) :
    self = ⟨version, globalLsn, merged⟩ := by
  simp only [Bool.or_eq_true, bne_iff_ne, ne_eq, not_or, not_not] at unchanged
  obtain ⟨⟨sameVersion, sameGlobal⟩, sameRegions⟩ := unchanged
  rw [← sameVersion, ← sameGlobal, ← sameRegions]

theorem merge_of_version_eq {self other : VectorSessionToken} (same : self.version = other.version) :
    self.merge other =
      let regions := other.regionProgress.entries.foldl mergeSameRegion
        (decide (other.globalLsn > self.globalLsn), self.regionProgress)
      (regions.1, ⟨self.version, max self.globalLsn other.globalLsn, regions.2⟩) := by
  have globalMax : (if other.globalLsn > self.globalLsn then other.globalLsn else self.globalLsn) =
      max self.globalLsn other.globalLsn := by
    split_ifs with raised
    · exact (max_eq_right raised.le).symm
    · exact (max_eq_left (not_lt.mp raised)).symm
  simp only [merge, if_pos same, decide_eq_true_eq, globalMax]

theorem merge_of_version_lt {self other : VectorSessionToken} (older : self.version < other.version) :
    (self.merge other).2 =
      ⟨other.version, other.globalLsn, mergedRegions other.regionProgress self.regionProgress⟩ := by
  simp only [merge, if_neg (ne_of_lt older), if_pos older]
  split_ifs with changed
  · rfl
  · exact eq_of_not_changed changed

theorem merge_of_version_gt {self other : VectorSessionToken} (newer : other.version < self.version) :
    (self.merge other).2 =
      ⟨self.version, self.globalLsn, mergedRegions self.regionProgress other.regionProgress⟩ := by
  simp only [merge, if_neg (ne_of_gt newer), if_neg (not_lt.mpr newer.le)]
  split_ifs with changed
  · rfl
  · exact eq_of_not_changed changed

end VectorSessionToken

/-- `SessionTokenValue`: a V1 token is a bare LSN, a V2 token a vector. -/
inductive SessionTokenValue where
  | simple (lsn : Nat)
  | vector (token : VectorSessionToken)
  deriving DecidableEq

namespace SessionTokenValue

/-- `merge`: two vectors merge, two LSNs take the larger, and a vector beats an LSN
whichever side it is on. -/
def merge : SessionTokenValue → SessionTokenValue → Bool × SessionTokenValue
  | .vector self, .vector other =>
      let merged := self.merge other
      (merged.1, .vector merged.2)
  | .simple self, .simple other => if other > self then (true, .simple other) else (false, .simple self)
  | .simple _, .vector other => (true, .vector other)
  | .vector self, .simple _ => (false, .vector self)

/-- `is_as_recent_as`: a vector is more recent than any LSN. -/
def isAsRecentAs : SessionTokenValue → SessionTokenValue → Bool
  | .vector self, .vector other => self.isAsRecentAs other
  | .simple self, .simple other => decide (self ≥ other)
  | .vector _, .simple _ => true
  | .simple _, .vector _ => false

end SessionTokenValue

end CosmosDriver
