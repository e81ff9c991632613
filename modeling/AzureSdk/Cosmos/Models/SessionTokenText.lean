import AzureSdk.Cosmos.Models.SessionTokenMerge
import AzureSdk.Lib.Text
import AzureSdk.Lib.Outcome

/-!
# Session tokens as text

`VectorSessionToken::parse` splits at `#`: a signed version, an unsigned global
LSN, then `region=lsn` segments, where empty segments are skipped, a later
duplicate of a region wins and a negative LSN is no progress. `Display` writes the
version, the global LSN and the regions in ascending order, no progress as `-1`.
The text carries what fits its integer types, and a region LSN is read back as an
`i64`: every token that parsing and merging produce fits, and its text parses back
to it. A V1 token, a bare LSN, has no `#` and so never parses as a vector.
-/

namespace CosmosDriver

open Outcome Text

set_option autoImplicit false

inductive TokenParseError where
  | emptyInput
  | badVersion (versionStr : List Char)
  | missingGlobalLsn (text : List Char)
  | badGlobalLsn (globalStr : List Char)
  | malformedRegionSegment (segment : List Char)
  | badRegionId (regionStr : List Char)
  | badRegionLsn (lsnStr : List Char)
  | invalidValue (text : List Char)
  deriving DecidableEq

/-- The message of the `BadRequest` error. -/
def TokenParseError.message : TokenParseError → String
  | .emptyInput => "invalid session token: empty input"
  | .badVersion versionStr => "invalid session token: bad version '" ++ String.ofList versionStr ++ "'"
  | .missingGlobalLsn text =>
      "invalid session token: missing global LSN in '" ++ String.ofList text ++ "'"
  | .badGlobalLsn globalStr =>
      "invalid session token: bad global LSN '" ++ String.ofList globalStr ++ "'"
  | .malformedRegionSegment segment =>
      "invalid session token: malformed region segment '" ++ String.ofList segment ++ "'"
  | .badRegionId regionStr => "invalid session token: bad region id '" ++ String.ofList regionStr ++ "'"
  | .badRegionLsn lsnStr => "invalid session token: bad region LSN '" ++ String.ofList lsnStr ++ "'"
  | .invalidValue text =>
      "invalid session token value: '" ++ String.ofList text ++
        "' is not a valid V2 vector or V1 integer"

namespace VectorSessionToken

def parseRegionSegment (progress : RegionProgress) (segment : List Char) :
    Run TokenParseError RegionProgress :=
  if segment.isEmpty then .ok progress
  else
    match splitOnce '=' segment with
    | none => fail (.malformedRegionSegment segment)
    | some (regionStr, lsnStr) =>
        match parseU64 regionStr with
        | none => fail (.badRegionId regionStr)
        | some region =>
            match parseI64 lsnStr with
            | none => fail (.badRegionLsn lsnStr)
            | some lsn =>
                .ok (progress.insert region (if lsn < 0 then ⊥ else ((lsn.toNat : Nat) : WithBot Nat)))

def parse (text : List Char) : Run TokenParseError VectorSessionToken :=
  match text.splitOn '#' with
  | [] => fail .emptyInput
  | versionStr :: parts =>
      match parseI64 versionStr with
      | none => fail (.badVersion versionStr)
      | some version =>
          match parts with
          | [] => fail (.missingGlobalLsn text)
          | globalStr :: segments =>
              match parseU64 globalStr with
              | none => fail (.badGlobalLsn globalStr)
              | some globalLsn => do
                  let progress ← segments.foldlM parseRegionSegment RegionProgress.empty
                  pure ⟨version, globalLsn, progress⟩

/-- A region as `Display` writes it after its `#`. -/
def regionBody (entry : Nat × WithBot Nat) : List Char :=
  showNat entry.1 ++ '=' :: (match entry.2 with
    | some lsn => showNat lsn
    | none => ['-', '1'])

/-- `Display`: `version#globalLsn`, then `#region=lsn` in ascending region order. -/
def toText (token : VectorSessionToken) : List Char :=
  showInt token.version ++ '#' :: showNat token.globalLsn ++
    token.regionProgress.entries.flatMap fun entry => '#' :: regionBody entry

/-- What the text can carry: the integer types of the wire, and region LSNs that the
parse reads back as `i64`. -/
structure Representable (token : VectorSessionToken) : Prop where
  version : -2 ^ 63 ≤ token.version ∧ token.version < 2 ^ 63
  globalLsn : token.globalLsn < 2 ^ 64
  regionIds : ∀ region, token.regionProgress.view region ≠ ⊥ → region < 2 ^ 64
  regionLsns : ∀ region, token.regionProgress.view region < (((2 ^ 63 : Nat) : WithBot Nat) : WithBot (WithBot Nat))

inductive Reachable : VectorSessionToken → Prop
  | parsed {text : List Char} {token : VectorSessionToken} : parse text = .ok token → Reachable token
  | merged {self other : VectorSessionToken} : Reachable self → Reachable other →
      Reachable (self.merge other).2

theorem RegionProgress.eq_of_entries {left right : RegionProgress}
    (same : left.entries = right.entries) : left = right := by
  obtain ⟨leftEntries, leftSorted⟩ := left
  obtain ⟨rightEntries, rightSorted⟩ := right
  simp only at same
  subst same
  rfl

/-! ## Display, split back -/

theorem hash_not_mem_regionBody (entry : Nat × WithBot Nat) : '#' ∉ regionBody entry := by
  unfold regionBody
  have inNumber : ∀ n : Nat, '#' ∉ showNat n := fun n => not_mem_showNat (by decide)
  simp only [List.mem_append, List.mem_cons, not_or]
  refine ⟨inNumber entry.1, by decide, ?_⟩
  cases entry.2 with
  | bot => decide
  | coe lsn => exact inNumber lsn

theorem splitOn_regions {start : List Char} (noHash : '#' ∉ start) (entries : List (Nat × WithBot Nat)) :
    (start ++ entries.flatMap fun entry => '#' :: regionBody entry).splitOn '#' =
      start :: entries.map regionBody := by
  induction entries generalizing start with
  | nil => simpa using List.splitOn_eq_singleton noHash
  | cons entry rest induction =>
      rw [List.flatMap_cons, List.cons_append, List.splitOn_append_cons_self_of_not_mem noHash,
        induction (hash_not_mem_regionBody entry), List.map_cons]

theorem splitOn_toText (token : VectorSessionToken) :
    token.toText.splitOn '#' =
      showInt token.version :: showNat token.globalLsn :: token.regionProgress.entries.map regionBody := by
  unfold toText
  rw [List.append_assoc, List.cons_append,
    List.splitOn_append_cons_self_of_not_mem (@not_mem_showInt token.version '#' (by decide) (by decide)),
    splitOn_regions (@not_mem_showNat token.globalLsn '#' (by decide))]

/-! ## Parsing what `Display` wrote -/

theorem regionLsn_lt_iff {lsn : WithBot Nat} :
    (lsn : WithBot (WithBot Nat)) < (((2 ^ 63 : Nat) : WithBot Nat) : WithBot (WithBot Nat)) ↔
      lsn < ((2 ^ 63 : Nat) : WithBot Nat) :=
  WithBot.coe_lt_coe

theorem parseRegionSegment_regionBody (progress : RegionProgress) {entry : Nat × WithBot Nat}
    (regionFits : entry.1 < 2 ^ 64) (lsnFits : entry.2 < ((2 ^ 63 : Nat) : WithBot Nat)) :
    parseRegionSegment progress (regionBody entry) = .ok (progress.insert entry.1 entry.2) := by
  obtain ⟨region, lsn⟩ := entry
  have nonempty : (regionBody (region, lsn)).isEmpty = false := by
    simp [regionBody, showNat, Nat.toDigits_ne_nil]
  have noEquals : '=' ∉ showNat region := @not_mem_showNat region '=' (by decide)
  unfold parseRegionSegment
  rw [if_neg (by simp [nonempty])]
  -- no progress is written as -1, which reads back as no progress
  cases lsn with
  | bot =>
      have split : splitOnce '=' (regionBody (region, ⊥)) = some (showNat region, ['-', '1']) :=
        splitOnce_append noEquals _
      rw [split]
      simp only [parseU64_showNat regionFits]
      rfl
  | coe value =>
      have split : splitOnce '=' (regionBody (region, WithBot.some value)) =
          some (showNat region, showNat value) :=
        splitOnce_append noEquals _
      have fits : value < 2 ^ 63 := WithBot.coe_lt_coe.mp lsnFits
      have read : parseI64 (showNat value) = some (value : Int) :=
        parseInteger_showNat true (by omega) (by omega)
      have notNegative : ¬ ((value : Int) < 0) := by omega
      rw [split]
      simp only [parseU64_showNat regionFits, read, if_neg notNegative, Int.toNat_natCast]
      rfl

theorem foldlM_regionBody {entries : List (Nat × WithBot Nat)} (sorted : SortedMap.Sorted entries)
    (fits : ∀ entry ∈ entries, entry.1 < 2 ^ 64 ∧ entry.2 < ((2 ^ 63 : Nat) : WithBot Nat)) :
    (entries.map regionBody).foldlM parseRegionSegment RegionProgress.empty = .ok ⟨entries, sorted⟩ := by
  rw [List.foldlM_map, @foldlM_eq_ok _ _ _ _ (fun progress entry => progress.insert entry.1 entry.2) _
    (fun entry member progress =>
      parseRegionSegment_regionBody progress (fits entry member).1 (fits entry member).2)]
  refine congrArg Except.ok (RegionProgress.eq_of_entries ?_)
  -- inserting sorted entries one by one into the empty map rebuilds them
  have rebuilt : ∀ start : RegionProgress,
      (entries.foldl (fun progress entry => progress.insert entry.1 entry.2) start).entries =
        entries.foldl (fun map entry => SortedMap.insert map entry.1 entry.2) start.entries := by
    clear fits
    induction entries with
    | nil => exact fun _ => rfl
    | cons entry rest induction =>
        intro start
        exact induction (SortedMap.sorted_cons.mp sorted).2 _
  rw [rebuilt]
  exact SortedMap.foldl_insert_of_sorted entries sorted [] (by simp)

theorem Representable.entries {token : VectorSessionToken} (fits : token.Representable) :
    ∀ entry ∈ token.regionProgress.entries, entry.1 < 2 ^ 64 ∧ entry.2 < ((2 ^ 63 : Nat) : WithBot Nat) := by
  intro entry member
  have stored : token.regionProgress.view entry.1 = entry.2 := by
    simp [RegionProgress.view, RegionProgress.get, SortedMap.get_of_mem token.regionProgress.sorted member]
  refine ⟨fits.regionIds _ (by simp [stored]), regionLsn_lt_iff.mp ?_⟩
  rw [← stored]
  exact fits.regionLsns _

theorem parse_toText {token : VectorSessionToken} (fits : token.Representable) :
    parse token.toText = .ok token := by
  unfold parse
  rw [splitOn_toText]
  simp only [parseI64_showInt fits.version.1 fits.version.2, parseU64_showNat fits.globalLsn,
    foldlM_regionBody token.regionProgress.sorted fits.entries, ok_bind, pure_eq_ok]

/-! ## Every token a client holds fits the text -/

def RegionsFit (progress : RegionProgress) : Prop :=
  (∀ region, progress.view region ≠ ⊥ → region < 2 ^ 64) ∧
    ∀ region, progress.view region < (((2 ^ 63 : Nat) : WithBot Nat) : WithBot (WithBot Nat))

theorem regionsFit_empty : RegionsFit RegionProgress.empty :=
  ⟨fun _ present => absurd rfl present, fun _ => WithBot.bot_lt_coe _⟩

theorem regionsFit_parseRegionSegment {progress next : RegionProgress} {segment : List Char}
    (fits : RegionsFit progress) (parsed : parseRegionSegment progress segment = .ok next) : RegionsFit next := by
  unfold parseRegionSegment at parsed
  split_ifs at parsed with empty
  · cases parsed
    exact fits
  split at parsed
  · cases parsed
  rename_i regionStr lsnStr _
  cases regionParsed : parseU64 regionStr with
  | none => simp [regionParsed] at parsed; cases parsed
  | some region =>
      cases lsnParsed : parseI64 lsnStr with
      | none => simp [regionParsed, lsnParsed] at parsed; cases parsed
      | some lsn =>
          simp only [regionParsed, lsnParsed] at parsed
          cases parsed
          have regionFits := parseU64_lt regionParsed
          have lsnFits := parseI64_bounds lsnParsed
          refine ⟨fun other present => ?_, fun other => ?_⟩
          · by_cases asked : other = region
            · exact asked ▸ regionFits
            · rw [RegionProgress.view_insert, if_neg asked] at present
              exact fits.1 other present
          · rw [RegionProgress.view_insert]
            split_ifs with asked negative
            · exact WithBot.coe_lt_coe.mpr (WithBot.bot_lt_coe _)
            · have small : lsn.toNat < 2 ^ 63 := by omega
              exact WithBot.coe_lt_coe.mpr (WithBot.coe_lt_coe.mpr small)
            · exact fits.2 other

theorem Representable.of_regionsFit {token : VectorSessionToken}
    (version : -2 ^ 63 ≤ token.version ∧ token.version < 2 ^ 63) (globalLsn : token.globalLsn < 2 ^ 64)
    (regions : RegionsFit token.regionProgress) : token.Representable :=
  ⟨version, globalLsn, regions.1, regions.2⟩

theorem representable_of_parse {text : List Char} {token : VectorSessionToken} (parsed : parse text = .ok token) :
    token.Representable := by
  unfold parse at parsed
  cases pieces : text.splitOn '#' with
  | nil => simp [pieces, fail] at parsed
  | cons versionStr parts =>
      simp only [pieces] at parsed
      cases versionParsed : parseI64 versionStr with
      | none => simp [versionParsed, fail] at parsed
      | some version =>
          simp only [versionParsed] at parsed
          cases parts with
          | nil => simp [fail] at parsed
          | cons globalStr segments =>
              cases globalParsed : parseU64 globalStr with
              | none => simp [globalParsed, fail] at parsed
              | some globalLsn =>
                  simp only [globalParsed] at parsed
                  obtain ⟨progress, loop, built⟩ := bind_eq_ok.mp parsed
                  cases built
                  exact Representable.of_regionsFit (parseI64_bounds versionParsed) (parseU64_lt globalParsed)
                    (foldlM_invariant RegionsFit
                      (fun _ _ _ _ fits stepped => regionsFit_parseRegionSegment fits stepped) regionsFit_empty loop)

theorem Representable.of_below {token first second : VectorSessionToken} (firstFits : first.Representable)
    (secondFits : second.Representable) (version : token.version = first.version ∨ token.version = second.version)
    (globalLsn : token.globalLsn = first.globalLsn ∨ token.globalLsn = second.globalLsn)
    (below : ∀ region, token.regionProgress.view region ≤
      first.regionProgress.view region ⊔ second.regionProgress.view region) :
    token.Representable := by
  refine ⟨?_, ?_, fun region present => ?_, fun region => ?_⟩
  · rcases version with same | same <;> rw [same]
    · exact firstFits.version
    · exact secondFits.version
  · rcases globalLsn with same | same <;> rw [same]
    · exact firstFits.globalLsn
    · exact secondFits.globalLsn
  · -- a region present after the merge was present before it
    by_cases inFirst : first.regionProgress.view region = ⊥
    · have inSecond : second.regionProgress.view region ≠ ⊥ := by
        intro absent
        have := below region
        rw [inFirst, absent, bot_sup_eq, le_bot_iff] at this
        exact present this
      exact secondFits.regionIds region inSecond
    · exact firstFits.regionIds region inFirst
  · exact lt_of_le_of_lt (below region) (sup_lt_iff.mpr ⟨firstFits.regionLsns region, secondFits.regionLsns region⟩)

theorem Representable.merge {self other : VectorSessionToken} (selfFits : self.Representable)
    (otherFits : other.Representable) : (self.merge other).2.Representable := by
  rcases lt_trichotomy self.version other.version with older | same | newer
  · rw [merge_of_version_lt older]
    refine Representable.of_below selfFits otherFits (.inr rfl) (.inr rfl) fun region => ?_
    rw [view_mergedRegions]
    split_ifs
    · exact bot_le
    · exact (sup_comm _ _).le
  · rw [merge_of_version_eq same]
    refine Representable.of_below selfFits otherFits (.inl rfl) (max_choice _ _) fun region => ?_
    rw [view_foldl_mergeSameRegion _ other.regionProgress.sorted]
  · rw [merge_of_version_gt newer]
    refine Representable.of_below selfFits otherFits (.inl rfl) (.inl rfl) fun region => ?_
    rw [view_mergedRegions]
    split_ifs
    · exact bot_le
    · exact le_rfl

theorem Reachable.representable {token : VectorSessionToken} (reachable : token.Reachable) :
    token.Representable := by
  induction reachable with
  | parsed parsed => exact representable_of_parse parsed
  | merged _ _ selfFits otherFits => exact selfFits.merge otherFits

theorem parse_showNat (lsn : Nat) (token : VectorSessionToken) : parse (showNat lsn) ≠ .ok token := by
  have whole : (showNat lsn).splitOn '#' = [showNat lsn] :=
    List.splitOn_eq_singleton (@not_mem_showNat lsn '#' (by decide))
  unfold parse
  rw [whole]
  cases versionParsed : parseI64 (showNat lsn) <;> simp [versionParsed, fail]

end VectorSessionToken

namespace SessionTokenValue

/-- `SessionTokenValue::parse`: a vector if the text is one, else a bare LSN. -/
def parse (text : List Char) : Run TokenParseError SessionTokenValue :=
  match VectorSessionToken.parse text with
  | .ok token => .ok (.vector token)
  | .error _ =>
      match parseU64 text with
      | some lsn => .ok (.simple lsn)
      | none => fail (.invalidValue text)

/-- `Display`. -/
def toText : SessionTokenValue → List Char
  | .simple lsn => showNat lsn
  | .vector token => token.toText

def Representable : SessionTokenValue → Prop
  | .simple lsn => lsn < 2 ^ 64
  | .vector token => token.Representable

inductive Reachable : SessionTokenValue → Prop
  | parsed {text : List Char} {value : SessionTokenValue} : parse text = .ok value → Reachable value
  | merged {self other : SessionTokenValue} : Reachable self → Reachable other →
      Reachable (self.merge other).2

theorem representable_of_parse {text : List Char} {value : SessionTokenValue} (parsed : parse text = .ok value) :
    value.Representable := by
  unfold parse at parsed
  cases vector : VectorSessionToken.parse text with
  | ok token =>
      simp only [vector] at parsed
      cases parsed
      exact VectorSessionToken.representable_of_parse vector
  | error halt =>
      simp only [vector] at parsed
      cases simple : parseU64 text with
      | none => simp [simple, fail] at parsed
      | some lsn =>
          simp only [simple] at parsed
          cases parsed
          exact parseU64_lt simple

theorem Representable.merge {self other : SessionTokenValue} (selfFits : self.Representable)
    (otherFits : other.Representable) : (self.merge other).2.Representable := by
  cases self with
  | simple selfLsn =>
      cases other with
      | simple otherLsn =>
          simp only [SessionTokenValue.merge]
          split_ifs
          · exact otherFits
          · exact selfFits
      | vector otherToken => exact otherFits
  | vector selfToken =>
      cases other with
      | simple _ => exact selfFits
      | vector otherToken => exact VectorSessionToken.Representable.merge selfFits otherFits

theorem Reachable.representable {value : SessionTokenValue} (reachable : value.Reachable) : value.Representable := by
  induction reachable with
  | parsed parsed => exact representable_of_parse parsed
  | merged _ _ selfFits otherFits => exact selfFits.merge otherFits

theorem parse_toText {value : SessionTokenValue} (fits : value.Representable) : parse value.toText = .ok value := by
  cases value with
  | simple lsn =>
      have small : lsn < 2 ^ 64 := fits
      simp only [parse, toText]
      cases vector : VectorSessionToken.parse (showNat lsn) with
      | ok token => exact absurd vector (VectorSessionToken.parse_showNat lsn token)
      | error halt => simp [parseU64_showNat small]
  | vector token => simp only [parse, toText, VectorSessionToken.parse_toText fits]

end SessionTokenValue

/-- Session tokens round-trip through their text: every token a client holds parses back
from what `Display` writes, so display is a canonical form of every accepted text, for
vectors and for session token values, and a V1 token's text is never a vector. -/
theorem session_token_text_round_trips :
    (∀ token : VectorSessionToken, token.Reachable → VectorSessionToken.parse token.toText = .ok token) ∧
    (∀ text token, VectorSessionToken.parse text = .ok token →
      VectorSessionToken.parse token.toText = VectorSessionToken.parse text) ∧
    (∀ value : SessionTokenValue, value.Reachable → SessionTokenValue.parse value.toText = .ok value) ∧
    (∀ text value, SessionTokenValue.parse text = .ok value →
      SessionTokenValue.parse value.toText = SessionTokenValue.parse text) ∧
    ∀ lsn token, VectorSessionToken.parse (SessionTokenValue.simple lsn).toText ≠ .ok token := by
  refine ⟨fun token reachable => VectorSessionToken.parse_toText reachable.representable, fun text token parsed => ?_,
    fun value reachable => SessionTokenValue.parse_toText reachable.representable, fun text value parsed => ?_,
    fun lsn token => VectorSessionToken.parse_showNat lsn token⟩
  · rw [parsed]
    exact VectorSessionToken.parse_toText (VectorSessionToken.representable_of_parse parsed)
  · rw [parsed]
    exact SessionTokenValue.parse_toText (SessionTokenValue.representable_of_parse parsed)

/-- A text with a no-progress region before a recorded one, written back in region order. -/
theorem session_token_text_round_trip_of_text :
    ∃ token, VectorSessionToken.parse ['3', '#', '1', '0', '0', '#', '2', '=', '-', '1', '#', '1', '=', '2', '0'] =
        .ok token ∧
      VectorSessionToken.parse token.toText =
        VectorSessionToken.parse ['3', '#', '1', '0', '0', '#', '2', '=', '-', '1', '#', '1', '=', '2', '0'] :=
  ⟨_, rfl, session_token_text_round_trips.2.1 _ _ rfl⟩

end CosmosDriver
