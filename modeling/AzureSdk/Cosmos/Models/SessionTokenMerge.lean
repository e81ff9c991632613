import AzureSdk.Cosmos.Models.SessionToken
import AzureSdk.Lib.FoldPerm

/-!
# Merging session tokens

A token's `progress` is its global LSN with the entry of each region. Within one
topology version `merge` is the join of progress in the product of `ℕ` and the
pointwise order on regions: commutative, associative and idempotent, so tokens of
one version can be merged in any order and grouping. Across versions `merge`
takes the newer token and raises only the regions it has (`supersede`). It is
still commutative and idempotent, but not associative: what an older token
contributes depends on which regions the newer side has when it arrives.
-/

namespace CosmosDriver

set_option autoImplicit false

namespace VectorSessionToken

def progress (token : VectorSessionToken) : Nat × (Nat → WithBot (WithBot Nat)) :=
  (token.globalLsn, token.regionProgress.view)

/-- The progress of a newer topology over an older one: the newer global LSN and the
newer regions, each raised to the older entry. -/
def supersede (newer older : Nat × (Nat → WithBot (WithBot Nat))) :
    Nat × (Nat → WithBot (WithBot Nat)) :=
  (newer.1, fun region => if newer.2 region = ⊥ then ⊥ else newer.2 region ⊔ older.2 region)

theorem eq_of_progress {left right : VectorSessionToken} (version : left.version = right.version)
    (same : left.progress = right.progress) : left = right := by
  obtain ⟨leftVersion, leftGlobal, leftRegions⟩ := left
  obtain ⟨rightVersion, rightGlobal, rightRegions⟩ := right
  simp only [progress, Prod.mk.injEq] at same version
  obtain ⟨global, regions⟩ := same
  have regionsEq : leftRegions = rightRegions := RegionProgress.ext_view (congrFun regions)
  rw [version, global, regionsEq]

theorem progress_merge_of_version_eq {self other : VectorSessionToken}
    (same : self.version = other.version) :
    (self.merge other).2.version = self.version ∧
      (self.merge other).2.progress = self.progress ⊔ other.progress := by
  rw [merge_of_version_eq same]
  refine ⟨rfl, ?_⟩
  simp only [progress, Prod.mk_sup_mk, Prod.mk.injEq, true_and]
  funext region
  exact view_foldl_mergeSameRegion _ other.regionProgress.sorted _ region

theorem progress_mergedRegions (newer older : VectorSessionToken) :
    (⟨newer.version, newer.globalLsn, mergedRegions newer.regionProgress older.regionProgress⟩ :
      VectorSessionToken).progress = supersede newer.progress older.progress := by
  simp only [progress, supersede, Prod.mk.injEq, true_and]
  funext region
  exact view_mergedRegions _ _ region

theorem merge_version_of_version_eq {self other : VectorSessionToken}
    (same : self.version = other.version) : (self.merge other).2.version = self.version :=
  (progress_merge_of_version_eq same).1

theorem merge_comm (left right : VectorSessionToken) : (left.merge right).2 = (right.merge left).2 := by
  rcases lt_trichotomy left.version right.version with older | same | newer
  · rw [merge_of_version_lt older, merge_of_version_gt older]
  · refine eq_of_progress ?_ ?_
    · rw [merge_version_of_version_eq same, merge_version_of_version_eq same.symm, same]
    · rw [(progress_merge_of_version_eq same).2, (progress_merge_of_version_eq same.symm).2, sup_comm]
  · rw [merge_of_version_gt newer, merge_of_version_lt newer]

theorem merge_self (token : VectorSessionToken) : (token.merge token).2 = token :=
  eq_of_progress (merge_version_of_version_eq rfl) (by rw [(progress_merge_of_version_eq rfl).2, sup_idem])

section OneVersion

variable {first second third : VectorSessionToken}

theorem merge_assoc_of_version_eq (firstSecond : first.version = second.version)
    (secondThird : second.version = third.version) :
    ((first.merge second).2.merge third).2 = (first.merge (second.merge third).2).2 := by
  have leftInner := merge_version_of_version_eq firstSecond
  have rightInner := merge_version_of_version_eq secondThird
  have leftOuter : (first.merge second).2.version = third.version :=
    leftInner.trans (firstSecond.trans secondThird)
  have rightOuter : first.version = (second.merge third).2.version :=
    firstSecond.trans rightInner.symm
  refine eq_of_progress ?_ ?_
  · rw [merge_version_of_version_eq leftOuter, leftInner, merge_version_of_version_eq rightOuter]
  · rw [(progress_merge_of_version_eq leftOuter).2, (progress_merge_of_version_eq firstSecond).2,
      (progress_merge_of_version_eq rightOuter).2, (progress_merge_of_version_eq secondThird).2,
      sup_assoc]

theorem merge_right_comm_of_version_eq (firstSecond : first.version = second.version)
    (secondThird : second.version = third.version) :
    ((first.merge second).2.merge third).2 = ((first.merge third).2.merge second).2 := by
  rw [merge_assoc_of_version_eq firstSecond secondThird, merge_comm second third,
    ← merge_assoc_of_version_eq (firstSecond.trans secondThird) secondThird.symm]

end OneVersion

theorem foldl_merge_perm {version : Int} {tokens reordered : List VectorSessionToken}
    (perm : tokens.Perm reordered) (atVersion : ∀ token ∈ tokens, token.version = version)
    (start : VectorSessionToken) (startVersion : start.version = version) :
    tokens.foldl (fun acc token => (acc.merge token).2) start =
      reordered.foldl (fun acc token => (acc.merge token).2) start := by
  refine FoldPerm.foldl_eq_of_perm (fun token => token.version = version)
    (fun token => token.version = version) ?_ ?_ perm atVersion start startVersion
  · intro acc token accVersion tokenVersion
    exact (merge_version_of_version_eq (accVersion.trans tokenVersion.symm)).trans accVersion
  · intro acc first second accVersion firstVersion secondVersion
    exact merge_right_comm_of_version_eq (accVersion.trans firstVersion.symm)
      (firstVersion.trans secondVersion.symm)

theorem isAsRecentAs_iff_of_version_eq {self other : VectorSessionToken}
    (same : self.version = other.version) :
    self.isAsRecentAs other = true ↔ other.progress ≤ self.progress := by
  have notAbove : ¬ self.version > other.version := by omega
  have notBelow : ¬ self.version < other.version := by omega
  simp only [isAsRecentAs, if_neg notAbove, if_neg notBelow, progress, Prod.mk_le_mk]
  have regions : other.regionProgress.view ≤ self.regionProgress.view ↔
      other.regionProgress ≤ self.regionProgress := Iff.rfl
  rw [regions]
  by_cases behind : self.globalLsn < other.globalLsn
  · simp [behind]
  · simp only [behind, if_false, all_regionCovered_iff]
    exact ⟨fun below => ⟨not_lt.mp behind, below⟩, fun ⟨_, below⟩ => below⟩

theorem isAsRecentAs_iff {self other : VectorSessionToken} :
    self.isAsRecentAs other = true ↔
      other.version < self.version ∨ (self.version = other.version ∧ other.progress ≤ self.progress) := by
  rcases lt_trichotomy self.version other.version with older | same | newer
  · have notAbove : ¬ self.version > other.version := not_lt.mpr older.le
    simp only [isAsRecentAs, if_neg notAbove, if_pos older, Bool.false_eq_true, false_iff]
    rintro (above | ⟨same, _⟩) <;> omega
  · rw [isAsRecentAs_iff_of_version_eq same]
    constructor
    · exact fun below => .inr ⟨same, below⟩
    · rintro (above | ⟨_, below⟩)
      · omega
      · exact below
  · simp [isAsRecentAs, newer]

theorem isAsRecentAs_self (token : VectorSessionToken) : token.isAsRecentAs token = true :=
  isAsRecentAs_iff.mpr (.inr ⟨rfl, le_rfl⟩)

theorem isAsRecentAs_trans {first second third : VectorSessionToken}
    (firstSecond : first.isAsRecentAs second = true) (secondThird : second.isAsRecentAs third = true) :
    first.isAsRecentAs third = true := by
  rw [isAsRecentAs_iff] at firstSecond secondThird ⊢
  rcases firstSecond with above | ⟨same, below⟩ <;> rcases secondThird with above' | ⟨same', below'⟩
  · exact .inl (above'.trans above)
  · exact .inl (by omega)
  · exact .inl (by omega)
  · exact .inr ⟨same.trans same', below'.trans below⟩

theorem le_supersede (newer older : Nat × (Nat → WithBot (WithBot Nat))) :
    newer ≤ supersede newer older := by
  refine ⟨le_rfl, fun region => ?_⟩
  simp only [supersede]
  split_ifs with absent
  · exact absent.le
  · exact le_sup_left

theorem merged_isAsRecentAs (newer older : VectorSessionToken) :
    (⟨newer.version, newer.globalLsn, mergedRegions newer.regionProgress older.regionProgress⟩ :
      VectorSessionToken).isAsRecentAs newer = true := by
  have sameVersion : (⟨newer.version, newer.globalLsn,
      mergedRegions newer.regionProgress older.regionProgress⟩ : VectorSessionToken).version =
      newer.version := rfl
  rw [isAsRecentAs_iff_of_version_eq sameVersion, progress_mergedRegions]
  exact le_supersede _ _

theorem merge_isAsRecentAs_left (self other : VectorSessionToken) :
    (self.merge other).2.isAsRecentAs self = true := by
  rcases lt_trichotomy self.version other.version with older | same | newer
  · rw [merge_of_version_lt older, isAsRecentAs_iff]
    exact .inl older
  · rw [isAsRecentAs_iff_of_version_eq (merge_version_of_version_eq same),
      (progress_merge_of_version_eq same).2]
    exact le_sup_left
  · rw [merge_of_version_gt newer]
    exact merged_isAsRecentAs self other

theorem merge_isAsRecentAs_right (self other : VectorSessionToken) :
    (self.merge other).2.isAsRecentAs other = true := by
  rcases lt_trichotomy self.version other.version with older | same | newer
  · rw [merge_of_version_lt older]
    exact merged_isAsRecentAs other self
  · rw [isAsRecentAs_iff_of_version_eq ((merge_version_of_version_eq same).trans same),
      (progress_merge_of_version_eq same).2]
    exact le_sup_right
  · rw [merge_of_version_gt newer, isAsRecentAs_iff]
    exact .inl newer

theorem merge_changed_iff (self other : VectorSessionToken) :
    (self.merge other).1 = true ↔ (self.merge other).2 ≠ self := by
  rcases lt_trichotomy self.version other.version with older | same | newer
  · -- the version moves up, which is a change
    have moved : (self.version != other.version || self.globalLsn != other.globalLsn ||
        self.regionProgress != mergedRegions other.regionProgress self.regionProgress) = true := by
      simp [ne_of_lt older]
    simp only [merge, if_neg (ne_of_lt older), if_pos older, if_pos moved, true_iff]
    intro same
    have versions := congrArg version same
    exact ne_of_gt older versions
  · rw [merge_of_version_eq same]
    dsimp only
    rw [(changed_foldl_mergeSameRegion _ _).1]
    obtain ⟨version, globalLsn, regions⟩ := self
    simp only [ne_eq, mk.injEq, true_and, not_and_or, Bool.or_eq_true, decide_eq_true_eq,
      max_eq_left_iff, not_le]
  · simp only [merge, if_neg (ne_of_gt newer), if_neg (not_lt.mpr newer.le)]
    split_ifs with changed
    · simp only [true_iff]
      intro same
      simp only [bne_self_eq_false, Bool.false_or, bne_iff_ne, ne_eq] at changed
      exact changed (congrArg regionProgress same).symm
    · simp

end VectorSessionToken

namespace SessionTokenValue

@[simp] theorem merge_simple_simple (self other : Nat) :
    (merge (.simple self) (.simple other)).2 = .simple (max self other) := by
  by_cases raised : other > self
  · simp [merge, raised, max_eq_right raised.le]
  · simp [merge, raised, max_eq_left (not_lt.mp raised)]

@[simp] theorem merge_vector_vector (self other : VectorSessionToken) :
    (merge (.vector self) (.vector other)).2 = .vector (self.merge other).2 := rfl

@[simp] theorem merge_simple_vector (lsn : Nat) (other : VectorSessionToken) :
    (merge (.simple lsn) (.vector other)).2 = .vector other := rfl

@[simp] theorem merge_vector_simple (self : VectorSessionToken) (lsn : Nat) :
    (merge (.vector self) (.simple lsn)).2 = .vector self := rfl

theorem merge_comm (left right : SessionTokenValue) : (left.merge right).2 = (right.merge left).2 := by
  cases left <;> cases right <;> simp [max_comm, VectorSessionToken.merge_comm]

theorem merge_self (value : SessionTokenValue) : (value.merge value).2 = value := by
  cases value <;> simp [VectorSessionToken.merge_self]

def AtVersion (version : Int) : SessionTokenValue → Prop
  | simple _ => True
  | vector token => token.version = version

theorem merge_atVersion {version : Int} {left right : SessionTokenValue}
    (leftAt : left.AtVersion version) (rightAt : right.AtVersion version) :
    (left.merge right).2.AtVersion version := by
  cases left <;> cases right <;> simp_all only [AtVersion, merge_simple_simple, merge_vector_vector,
    merge_simple_vector, merge_vector_simple]
  exact (VectorSessionToken.merge_version_of_version_eq (leftAt.trans rightAt.symm)).trans leftAt

section OneVersion

variable {version : Int} {first second third : SessionTokenValue}

theorem merge_assoc_of_atVersion (firstAt : first.AtVersion version)
    (secondAt : second.AtVersion version) (thirdAt : third.AtVersion version) :
    ((first.merge second).2.merge third).2 = (first.merge (second.merge third).2).2 := by
  cases first <;> cases second <;> cases third <;>
    simp only [merge_simple_simple, merge_vector_vector, merge_simple_vector, merge_vector_simple]
  · rw [max_assoc]
  · -- only three vectors meet, and they share the version
    simp only [AtVersion] at firstAt secondAt thirdAt
    rw [VectorSessionToken.merge_assoc_of_version_eq (firstAt.trans secondAt.symm)
      (secondAt.trans thirdAt.symm)]

theorem merge_right_comm_of_atVersion (firstAt : first.AtVersion version)
    (secondAt : second.AtVersion version) (thirdAt : third.AtVersion version) :
    ((first.merge second).2.merge third).2 = ((first.merge third).2.merge second).2 := by
  rw [merge_assoc_of_atVersion firstAt secondAt thirdAt, merge_comm second third,
    ← merge_assoc_of_atVersion firstAt thirdAt secondAt]

end OneVersion

theorem foldl_merge_perm {version : Int} {values reordered : List SessionTokenValue}
    (perm : values.Perm reordered) (atVersion : ∀ value ∈ values, value.AtVersion version)
    (start : SessionTokenValue) (startAt : start.AtVersion version) :
    values.foldl (fun acc value => (acc.merge value).2) start =
      reordered.foldl (fun acc value => (acc.merge value).2) start :=
  FoldPerm.foldl_eq_of_perm (AtVersion version) (AtVersion version)
    (fun _ _ accAt valueAt => merge_atVersion accAt valueAt)
    (fun _ _ _ accAt firstAt secondAt => merge_right_comm_of_atVersion accAt firstAt secondAt)
    perm atVersion start startAt

theorem isAsRecentAs_self (value : SessionTokenValue) : value.isAsRecentAs value = true := by
  cases value <;> simp [isAsRecentAs, VectorSessionToken.isAsRecentAs_self]

theorem isAsRecentAs_trans {first second third : SessionTokenValue}
    (firstSecond : first.isAsRecentAs second = true) (secondThird : second.isAsRecentAs third = true) :
    first.isAsRecentAs third = true := by
  cases first <;> cases second <;> cases third <;> simp only [isAsRecentAs, decide_eq_true_eq,
    Bool.false_eq_true] at firstSecond secondThird ⊢
  · omega
  · exact VectorSessionToken.isAsRecentAs_trans firstSecond secondThird

theorem merge_isAsRecentAs_left (self other : SessionTokenValue) :
    (self.merge other).2.isAsRecentAs self = true := by
  cases self <;> cases other <;>
    simp [isAsRecentAs, VectorSessionToken.merge_isAsRecentAs_left, VectorSessionToken.isAsRecentAs_self]

theorem merge_isAsRecentAs_right (self other : SessionTokenValue) :
    (self.merge other).2.isAsRecentAs other = true := by
  cases self <;> cases other <;>
    simp [isAsRecentAs, VectorSessionToken.merge_isAsRecentAs_right, VectorSessionToken.isAsRecentAs_self]

theorem merge_changed_iff (self other : SessionTokenValue) :
    (self.merge other).1 = true ↔ (self.merge other).2 ≠ self := by
  cases self with
  | simple lsn =>
      cases other with
      | simple otherLsn =>
          by_cases raised : otherLsn > lsn
          · simp [merge, raised, Nat.ne_of_gt raised]
          · simp [merge, raised]
      | vector token => simp [merge]
  | vector token =>
      cases other with
      | simple _ => simp [merge]
      | vector otherToken => simp [merge, VectorSessionToken.merge_changed_iff]

end SessionTokenValue

/-- Across versions the grouping matters. A token of version 1 has LSN 10 in region 5,
one of version 2 has no regions, another of version 2 has LSN 1 there: merged left
first, the empty newer token drops region 5 before the LSN 1 comes; merged right
first, the newer side has region 5 and raises it to the older 10. -/
theorem merge_not_assoc_across_versions :
    (((⟨1, 0, RegionProgress.empty.insert 5 ((10 : Nat) : WithBot Nat)⟩ : VectorSessionToken).merge
        ⟨2, 0, RegionProgress.empty⟩).2.merge
          ⟨2, 0, RegionProgress.empty.insert 5 ((1 : Nat) : WithBot Nat)⟩).2.regionProgress.get 5 =
      some ((1 : Nat) : WithBot Nat) ∧
    ((⟨1, 0, RegionProgress.empty.insert 5 ((10 : Nat) : WithBot Nat)⟩ : VectorSessionToken).merge
        ((⟨2, 0, RegionProgress.empty⟩ : VectorSessionToken).merge
          ⟨2, 0, RegionProgress.empty.insert 5 ((1 : Nat) : WithBot Nat)⟩).2).2.regionProgress.get 5 =
      some ((10 : Nat) : WithBot Nat) := by
  decide

open VectorSessionToken SessionTokenValue in
/-- A merge is as recent as both sides and reports a change exactly when it made one;
recency is a preorder on both kinds of token. -/
theorem merge_upper_bound_reports_change :
    (∀ self other : SessionTokenValue, (self.merge other).2.isAsRecentAs self = true ∧
      (self.merge other).2.isAsRecentAs other = true ∧
      ((self.merge other).1 = true ↔ (self.merge other).2 ≠ self)) ∧
    (∀ self other : VectorSessionToken, (self.merge other).2.isAsRecentAs self = true ∧
      (self.merge other).2.isAsRecentAs other = true ∧
      ((self.merge other).1 = true ↔ (self.merge other).2 ≠ self)) ∧
    (∀ value : SessionTokenValue, value.isAsRecentAs value = true) ∧
    (∀ first second third : SessionTokenValue, first.isAsRecentAs second = true →
      second.isAsRecentAs third = true → first.isAsRecentAs third = true) ∧
    (∀ token : VectorSessionToken, token.isAsRecentAs token = true) ∧
    (∀ first second third : VectorSessionToken, first.isAsRecentAs second = true →
      second.isAsRecentAs third = true → first.isAsRecentAs third = true) :=
  ⟨fun self other => ⟨SessionTokenValue.merge_isAsRecentAs_left self other,
      SessionTokenValue.merge_isAsRecentAs_right self other, SessionTokenValue.merge_changed_iff self other⟩,
    fun self other => ⟨VectorSessionToken.merge_isAsRecentAs_left self other,
      VectorSessionToken.merge_isAsRecentAs_right self other, VectorSessionToken.merge_changed_iff self other⟩,
    SessionTokenValue.isAsRecentAs_self, fun _ _ _ => SessionTokenValue.isAsRecentAs_trans,
    VectorSessionToken.isAsRecentAs_self, fun _ _ _ => VectorSessionToken.isAsRecentAs_trans⟩

/-- A newer version is as recent as an older token with more progress, which is as
recent as one of its own version with less. -/
theorem merge_upper_bound_recency_chain :
    (⟨2, 1, RegionProgress.empty⟩ : VectorSessionToken).isAsRecentAs
      ⟨1, 9, RegionProgress.empty.insert 3 ((6 : Nat) : WithBot Nat)⟩ = true ∧
    (⟨1, 9, RegionProgress.empty.insert 3 ((6 : Nat) : WithBot Nat)⟩ : VectorSessionToken).isAsRecentAs
      ⟨1, 4, RegionProgress.empty.insert 3 ⊥⟩ = true ∧
    (⟨2, 1, RegionProgress.empty⟩ : VectorSessionToken).isAsRecentAs
      ⟨1, 4, RegionProgress.empty.insert 3 ⊥⟩ = true :=
  ⟨by decide, by decide, merge_upper_bound_reports_change.2.2.2.2.2 ⟨2, 1, RegionProgress.empty⟩
    ⟨1, 9, RegionProgress.empty.insert 3 ((6 : Nat) : WithBot Nat)⟩ ⟨1, 4, RegionProgress.empty.insert 3 ⊥⟩
    (by decide) (by decide)⟩

end CosmosDriver
