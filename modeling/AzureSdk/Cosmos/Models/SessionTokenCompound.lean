import AzureSdk.Cosmos.Models.SessionTokenText

/-!
# Compound session tokens

`SessionToken::merge` reads both tokens as comma-separated `pkRangeId:value`
segments, skipping blank ones and stopping at the first that does not parse. It keeps
one segment per range id, in the order the ids first appear, merges into it the value
of every later segment of that id with `merge_value`, and joins the segments' text with
commas. Its `pk_order` and `pk_map` together are here one list of segments in
first-seen order.

Read back, the merged token holds for each range id the merge of what the two tokens
held for it. On tokens with one segment per range id, which every token `merge`
returns is, the merge of compound tokens is thus the pointwise merge of two finite
maps from range id to value: commutative and idempotent, and associative where the
values of each id share a version.
-/

namespace CosmosDriver

open Outcome Text

set_option autoImplicit false

inductive SegmentParseError where
  | missingColon
  | value (error : TokenParseError)
  deriving DecidableEq

/-- The message of the `BadRequest` error. -/
def SegmentParseError.message : SegmentParseError → String
  | .missingColon => "invalid session token segment: missing \x27:\x27"
  | .value error => error.message

structure SessionTokenSegment where
  pkRangeId : List Char
  value : SessionTokenValue
  deriving DecidableEq

namespace SessionTokenSegment

/-- `from_str`: the range id before the first `:` of the trimmed text, the value after it. -/
def parse (s : List Char) : Run SegmentParseError SessionTokenSegment :=
  match splitOnce ':' (trim s) with
  | none => fail .missingColon
  | some (pkRangeId, valueStr) => do
      let value ← (SessionTokenValue.parse valueStr).mapError (Halt.map .value)
      pure ⟨pkRangeId, value⟩

/-- `Display`. -/
def toText (seg : SessionTokenSegment) : List Char :=
  seg.pkRangeId ++ ':' :: seg.value.toText

/-- What every segment read from a token or merged satisfies: its range id holds no
separator and starts with no whitespace, and its value is one a client holds. -/
structure Formed (seg : SessionTokenSegment) : Prop where
  noColon : ':' ∉ seg.pkRangeId
  noComma : ',' ∉ seg.pkRangeId
  startsTrimmed : ∀ c ∈ seg.pkRangeId.head?, isWhitespace c = false
  reachable : seg.value.Reachable


theorem parse_eq_ok {s : List Char} {seg : SessionTokenSegment} (parsed : parse s = .ok seg) :
    ∃ valueStr, splitOnce ':' (trim s) = some (seg.pkRangeId, valueStr) ∧
      SessionTokenValue.parse valueStr = .ok seg.value := by
  unfold parse at parsed
  split at parsed
  · cases parsed
  · rename_i pkRangeId valueStr split
    cases value : SessionTokenValue.parse valueStr with
    | ok value' =>
        simp only [value, Except.mapError, ok_bind, pure_eq_ok, Except.ok.injEq] at parsed
        cases parsed
        exact ⟨valueStr, split, value⟩
    | error halt => simp [value, Except.mapError] at parsed

theorem formed_of_parse {raw : List Char} {seg : SessionTokenSegment} (parsed : parse (trim raw) = .ok seg)
    (noComma : ',' ∉ raw) : seg.Formed := by
  obtain ⟨valueStr, split, value⟩ := parse_eq_ok parsed
  obtain ⟨noColon, whole⟩ := splitOnce_eq_some split
  have within : seg.pkRangeId.Sublist raw :=
    (whole ▸ List.sublist_append_left _ _).trans ((trim_sublist _).trans (trim_sublist raw))
  refine ⟨noColon, fun inside => noComma (within.subset inside), fun c first => ?_,
    .parsed value⟩
  apply head_trim (trim raw) c
  rw [whole, List.head?_append, first]
  rfl

theorem mem_toText_value {value : SessionTokenValue} {c : Char} (member : c ∈ value.toText) :
    c.isDigit = true ∨ c = '-' ∨ c = '#' ∨ c = '=' := by
  have ofShowNat : ∀ {n : Nat}, c ∈ showNat n → c.isDigit = true := isDigit_of_mem_showNat
  have ofShowInt : ∀ {n : Int}, c ∈ showInt n → c.isDigit = true ∨ c = '-' := by
    intro n inside
    by_contra neither
    rw [not_or] at neither
    exact not_mem_showInt (Bool.eq_false_iff.mpr neither.1) neither.2 inside
  cases value with
  | simple lsn => exact .inl (ofShowNat member)
  | vector token =>
      simp only [SessionTokenValue.toText, VectorSessionToken.toText, List.mem_append, List.mem_cons,
        List.mem_flatMap] at member
      rcases member with (version | rfl | globalLsn) | ⟨entry, -, rfl | region⟩
      · rcases ofShowInt version with digit | minus
        · exact .inl digit
        · exact .inr (.inl minus)
      · exact .inr (.inr (.inl rfl))
      · exact .inl (ofShowNat globalLsn)
      · exact .inr (.inr (.inl rfl))
      · simp only [VectorSessionToken.regionBody, List.mem_append, List.mem_cons] at region
        rcases region with id | rfl | lsn
        · exact .inl (ofShowNat id)
        · exact .inr (.inr (.inr rfl))
        · split at lsn
          · exact .inl (ofShowNat lsn)
          · simp only [List.mem_cons, List.not_mem_nil, or_false] at lsn
            rcases lsn with rfl | rfl
            · exact .inr (.inl rfl)
            · exact .inl rfl

theorem plain_of_mem_toText_value {value : SessionTokenValue} {c : Char} (member : c ∈ value.toText) :
    c ≠ ',' ∧ c ≠ ':' ∧ isWhitespace c = false := by
  rcases mem_toText_value member with digit | rfl | rfl | rfl
  · refine ⟨?_, ?_, isWhitespace_of_isDigit digit⟩ <;> rintro rfl <;> simp at digit
  all_goals decide

theorem trim_toText {seg : SessionTokenSegment} (formed : seg.Formed) : trim seg.toText = seg.toText := by
  apply trim_of_ends
  · intro c first
    rw [toText, List.head?_append] at first
    cases start : seg.pkRangeId.head? with
    | some d =>
        rw [start] at first
        cases first
        exact formed.startsTrimmed _ start
    | none =>
        rw [start] at first
        cases first
        rfl
  · intro c last
    rw [toText, List.getLast?_append, List.getLast?_cons] at last
    cases final : seg.value.toText.getLast? with
    | some d =>
        simp only [final, Option.getD_some, Option.some_or] at last
        cases last
        exact (plain_of_mem_toText_value (List.mem_of_getLast? final)).2.2
    | none =>
        simp only [final, Option.getD_none, Option.some_or] at last
        cases last
        rfl

theorem parse_toText {seg : SessionTokenSegment} (formed : seg.Formed) : parse seg.toText = .ok seg := by
  rw [parse, trim_toText formed, toText, splitOnce_append formed.noColon]
  simp [SessionTokenValue.parse_toText formed.reachable.representable, Except.mapError]

theorem comma_not_mem_toText {seg : SessionTokenSegment} (formed : seg.Formed) : ',' ∉ seg.toText := by
  simp only [toText, List.mem_append, List.mem_cons, not_or]
  exact ⟨formed.noComma, by decide, fun inside => (plain_of_mem_toText_value inside).1 rfl⟩

end SessionTokenSegment

/-- `SessionToken`: the text of a token of one or more segments. -/
structure SessionToken where
  text : List Char
  deriving DecidableEq

namespace SessionToken

open SessionTokenSegment

/-- A segment taken into `pk_order` and `pk_map`: its value merged into the segment of
its range id, or the segment appended when the id is new. -/
def absorb : List SessionTokenSegment → SessionTokenSegment → List SessionTokenSegment
  | [], seg => [seg]
  | existing :: rest, seg =>
      if existing.pkRangeId = seg.pkRangeId then
        ⟨existing.pkRangeId, (existing.value.merge seg.value).2⟩ :: rest
      else existing :: absorb rest seg

def mergeStep (merged : List SessionTokenSegment) (raw : List Char) :
    Run SegmentParseError (List SessionTokenSegment) :=
  let trimmed := trim raw
  if trimmed.isEmpty then .ok merged
  else do
    let seg ← SessionTokenSegment.parse trimmed
    pure (absorb merged seg)

def render (segs : List SessionTokenSegment) : SessionToken :=
  ⟨[','].intercalate (segs.map toText)⟩

def merge (self other : SessionToken) : Run SegmentParseError SessionToken := do
  let merged ← (self.text.splitOn ',' ++ other.text.splitOn ',').foldlM mergeStep []
  pure (render merged)

/-- The segments that pieces of a token's text hold, in order: blank pieces skipped,
and the first piece that does not parse ending the read. -/
def parseSegments : List (List Char) → Run SegmentParseError (List SessionTokenSegment)
  | [] => .ok []
  | raw :: rest =>
      if (trim raw).isEmpty then parseSegments rest
      else do
        let seg ← SessionTokenSegment.parse (trim raw)
        let segs ← parseSegments rest
        pure (seg :: segs)

def segments (token : SessionToken) : Run SegmentParseError (List SessionTokenSegment) :=
  parseSegments (token.text.splitOn ',')

def lookup (segs : List SessionTokenSegment) (id : List Char) : Option SessionTokenValue :=
  (segs.find? fun seg => decide (seg.pkRangeId = id)).map (·.value)

def mergeValues : Option SessionTokenValue → Option SessionTokenValue → Option SessionTokenValue :=
  Option.merge fun self other => (self.merge other).2

def Holds (token : SessionToken) (view : List Char → Option SessionTokenValue) : Prop :=
  ∃ segs, token.segments = .ok segs ∧ (segs.map (·.pkRangeId)).Nodup ∧ ∀ id, lookup segs id = view id

theorem foldlM_mergeStep (pieces : List (List Char)) (merged : List SessionTokenSegment) :
    pieces.foldlM mergeStep merged = (do
      let segs ← parseSegments pieces
      pure (segs.foldl absorb merged)) := by
  induction pieces generalizing merged with
  | nil => rfl
  | cons raw rest induction =>
      rw [List.foldlM_cons]
      simp only [mergeStep, parseSegments]
      split_ifs
      · simpa using induction merged
      · cases parse (trim raw) with
        | error halt => rfl
        | ok seg => simp [induction]

theorem merge_eq (self other : SessionToken) :
    self.merge other = (do
      let first ← self.segments
      let second ← other.segments
      pure (render ((first ++ second).foldl absorb []))) := by
  simp [merge, segments, foldlM_mergeStep]

theorem merge_eq_ok {self other token : SessionToken} (merged : self.merge other = .ok token) :
    ∃ first second, self.segments = .ok first ∧ other.segments = .ok second ∧
      token = render ((first ++ second).foldl absorb []) := by
  rw [merge_eq] at merged
  obtain ⟨first, read, rest⟩ := bind_eq_ok.mp merged
  obtain ⟨second, readOther, rendered⟩ := bind_eq_ok.mp rest
  exact ⟨first, second, read, readOther, (Except.ok.inj rendered).symm⟩

theorem parseSegments_formed {pieces : List (List Char)} {segs : List SessionTokenSegment}
    (read : parseSegments pieces = .ok segs) (noComma : ∀ piece ∈ pieces, ',' ∉ piece) :
    ∀ seg ∈ segs, seg.Formed := by
  induction pieces generalizing segs with
  | nil =>
      cases read
      simp
  | cons raw rest induction =>
      rw [List.forall_mem_cons] at noComma
      simp only [parseSegments] at read
      split_ifs at read
      · exact induction read noComma.2
      · obtain ⟨seg, parsed, more⟩ := bind_eq_ok.mp read
        obtain ⟨others, readRest, listed⟩ := bind_eq_ok.mp more
        cases listed
        rw [List.forall_mem_cons]
        exact ⟨formed_of_parse parsed noComma.1, induction readRest noComma.2⟩

theorem segments_formed {token : SessionToken} {segs : List SessionTokenSegment}
    (read : token.segments = .ok segs) : ∀ seg ∈ segs, seg.Formed :=
  parseSegments_formed read fun _ member => not_mem_of_mem_splitOn member

theorem formed_absorb {merged : List SessionTokenSegment} {seg : SessionTokenSegment}
    (mergedFormed : ∀ existing ∈ merged, existing.Formed) (segFormed : seg.Formed) :
    ∀ next ∈ absorb merged seg, next.Formed := by
  induction merged with
  | nil => simpa [absorb] using segFormed
  | cons existing rest induction =>
      rw [List.forall_mem_cons] at mergedFormed
      have existingFormed := mergedFormed.1
      simp only [absorb]
      split_ifs
      · -- the merged segment keeps the id of the one it replaces
        rw [List.forall_mem_cons]
        exact ⟨⟨existingFormed.noColon, existingFormed.noComma, existingFormed.startsTrimmed,
          .merged existingFormed.reachable segFormed.reachable⟩, mergedFormed.2⟩
      · rw [List.forall_mem_cons]
        exact ⟨existingFormed, induction mergedFormed.2⟩

theorem formed_foldl_absorb {segs merged : List SessionTokenSegment}
    (segsFormed : ∀ seg ∈ segs, seg.Formed) (mergedFormed : ∀ existing ∈ merged, existing.Formed) :
    ∀ next ∈ segs.foldl absorb merged, next.Formed := by
  induction segs generalizing merged with
  | nil => exact mergedFormed
  | cons seg rest induction =>
      rw [List.forall_mem_cons] at segsFormed
      exact induction segsFormed.2 (formed_absorb mergedFormed segsFormed.1)

theorem ids_absorb (merged : List SessionTokenSegment) (seg : SessionTokenSegment) :
    (absorb merged seg).map (·.pkRangeId) =
      if seg.pkRangeId ∈ merged.map (·.pkRangeId) then merged.map (·.pkRangeId)
      else merged.map (·.pkRangeId) ++ [seg.pkRangeId] := by
  induction merged with
  | nil => simp [absorb]
  | cons existing rest induction =>
      by_cases same : existing.pkRangeId = seg.pkRangeId
      · simp [absorb, same]
      · by_cases known : seg.pkRangeId ∈ rest.map (·.pkRangeId)
        · simp only [absorb, if_neg same, List.map_cons, induction, List.mem_cons, known, or_true, if_true]
        · have fresh : seg.pkRangeId ∉ existing.pkRangeId :: rest.map (·.pkRangeId) := by
            simpa [Ne.symm same] using known
          simp only [absorb, if_neg same, List.map_cons, induction, if_neg known, if_neg fresh, List.cons_append]

theorem nodup_absorb {merged : List SessionTokenSegment} (distinct : (merged.map (·.pkRangeId)).Nodup)
    (seg : SessionTokenSegment) : ((absorb merged seg).map (·.pkRangeId)).Nodup := by
  rw [ids_absorb]
  split_ifs with known
  · exact distinct
  · rw [← List.concat_eq_append]
    exact distinct.concat known

theorem nodup_foldl_absorb {merged : List SessionTokenSegment} (distinct : (merged.map (·.pkRangeId)).Nodup)
    (segs : List SessionTokenSegment) : ((segs.foldl absorb merged).map (·.pkRangeId)).Nodup := by
  induction segs generalizing merged with
  | nil => exact distinct
  | cons seg rest induction => exact induction (nodup_absorb distinct seg)

@[simp] theorem lookup_nil (id : List Char) : lookup [] id = none := rfl

theorem lookup_cons (seg : SessionTokenSegment) (rest : List SessionTokenSegment) (id : List Char) :
    lookup (seg :: rest) id = if seg.pkRangeId = id then some seg.value else lookup rest id := by
  by_cases same : seg.pkRangeId = id <;> simp [lookup, same]

theorem lookup_eq_none {segs : List SessionTokenSegment} {id : List Char}
    (absent : id ∉ segs.map (·.pkRangeId)) : lookup segs id = none := by
  simp only [lookup, Option.map_eq_none_iff, List.find?_eq_none, decide_eq_true_eq]
  intro seg member same
  exact absent (List.mem_map.mpr ⟨seg, member, same⟩)

theorem lookup_absorb (merged : List SessionTokenSegment) (seg : SessionTokenSegment) (id : List Char) :
    lookup (absorb merged seg) id =
      if seg.pkRangeId = id then mergeValues (lookup merged id) (some seg.value) else lookup merged id := by
  induction merged with
  | nil => by_cases here : seg.pkRangeId = id <;> simp [absorb, lookup_cons, here, mergeValues]
  | cons existing rest induction =>
      by_cases same : existing.pkRangeId = seg.pkRangeId
      · simp only [absorb, if_pos same, lookup_cons]
        by_cases here : seg.pkRangeId = id
        · simp [same, here, mergeValues]
        · simp [same, here]
      · simp only [absorb, if_neg same, lookup_cons, induction]
        by_cases here : existing.pkRangeId = id
        · have other : seg.pkRangeId ≠ id := fun there => same (here.trans there.symm)
          simp [here, other]
        · simp [here]

theorem lookup_foldl_absorb {segs : List SessionTokenSegment} (distinct : (segs.map (·.pkRangeId)).Nodup)
    (merged : List SessionTokenSegment) (id : List Char) :
    lookup (segs.foldl absorb merged) id = mergeValues (lookup merged id) (lookup segs id) := by
  induction segs generalizing merged with
  | nil => simp [mergeValues]
  | cons seg rest induction =>
      rw [List.map_cons, List.nodup_cons] at distinct
      rw [List.foldl_cons, induction distinct.2, lookup_absorb, lookup_cons]
      by_cases here : seg.pkRangeId = id
      · rw [if_pos here, if_pos here, @lookup_eq_none rest id (here ▸ distinct.1)]
        simp [mergeValues]
      · rw [if_neg here, if_neg here]

theorem parseSegments_toText {segs : List SessionTokenSegment} (formed : ∀ seg ∈ segs, seg.Formed) :
    parseSegments (segs.map toText) = .ok segs := by
  induction segs with
  | nil => rfl
  | cons seg rest induction =>
      rw [List.forall_mem_cons] at formed
      have written : seg.toText.isEmpty = false := by simp [toText]
      simp only [List.map_cons, parseSegments, trim_toText formed.1, written, Bool.false_eq_true, if_false,
        parse_toText formed.1, ok_bind, induction formed.2]
      rfl

theorem segments_render {segs : List SessionTokenSegment} (formed : ∀ seg ∈ segs, seg.Formed) :
    (render segs).segments = .ok segs := by
  cases segs with
  | nil => rfl
  | cons seg rest =>
      rw [segments, render, List.splitOn_intercalate]
      · exact parseSegments_toText formed
      · simpa using fun other member => comma_not_mem_toText (formed other member)
      · simp

theorem absorb_of_not_mem {merged : List SessionTokenSegment} {seg : SessionTokenSegment}
    (fresh : seg.pkRangeId ∉ merged.map (·.pkRangeId)) : absorb merged seg = merged ++ [seg] := by
  induction merged with
  | nil => rfl
  | cons existing rest induction =>
      rw [List.map_cons, List.mem_cons, not_or] at fresh
      simp only [absorb, if_neg (Ne.symm fresh.1), induction fresh.2, List.cons_append]

theorem foldl_absorb_of_nodup {merged segs : List SessionTokenSegment}
    (distinct : ((merged ++ segs).map (·.pkRangeId)).Nodup) : segs.foldl absorb merged = merged ++ segs := by
  induction segs generalizing merged with
  | nil => simp
  | cons seg rest induction =>
      have fresh : seg.pkRangeId ∉ merged.map (·.pkRangeId) := by
        rw [List.map_append, List.nodup_append] at distinct
        exact fun known => distinct.2.2 _ known _ List.mem_cons_self rfl
      rw [List.foldl_cons, absorb_of_not_mem fresh, induction (by simpa using distinct)]
      simp

theorem absorb_of_mem {merged : List SessionTokenSegment} {seg : SessionTokenSegment}
    (distinct : (merged.map (·.pkRangeId)).Nodup) (member : seg ∈ merged) : absorb merged seg = merged := by
  induction merged with
  | nil => cases member
  | cons existing rest induction =>
      rw [List.map_cons, List.nodup_cons] at distinct
      by_cases same : existing.pkRangeId = seg.pkRangeId
      · have found : existing = seg := by
          rcases List.mem_cons.mp member with here | later
          · exact here.symm
          · exact absurd (same ▸ List.mem_map_of_mem later) distinct.1
        subst found
        simp [absorb, SessionTokenValue.merge_self]
      · have later : seg ∈ rest := (List.mem_cons.mp member).resolve_left fun here => same (here ▸ rfl)
        simp only [absorb, if_neg same, induction distinct.2 later]

theorem foldl_absorb_self {merged segs : List SessionTokenSegment} (distinct : (merged.map (·.pkRangeId)).Nodup)
    (inside : ∀ seg ∈ segs, seg ∈ merged) : segs.foldl absorb merged = merged := by
  induction segs with
  | nil => rfl
  | cons seg rest induction =>
      rw [List.forall_mem_cons] at inside
      rw [List.foldl_cons, absorb_of_mem distinct inside.1, induction inside.2]

theorem segments_merged {first second : List SessionTokenSegment} (formed : ∀ seg ∈ first ++ second, seg.Formed) :
    (render ((first ++ second).foldl absorb [])).segments = .ok ((first ++ second).foldl absorb []) ∧
      (((first ++ second).foldl absorb []).map (·.pkRangeId)).Nodup :=
  ⟨segments_render (formed_foldl_absorb formed (by simp)), nodup_foldl_absorb (by simp) _⟩

theorem formed_of_segments {self other : SessionToken} {first second : List SessionTokenSegment}
    (read : self.segments = .ok first) (readOther : other.segments = .ok second) :
    ∀ seg ∈ first ++ second, seg.Formed := by
  rw [List.forall_mem_append]
  exact ⟨segments_formed read, segments_formed readOther⟩

theorem Holds.congr {token : SessionToken} {view view' : List Char → Option SessionTokenValue}
    (holds : token.Holds view) (same : ∀ id, view id = view' id) : token.Holds view' := by
  obtain ⟨segs, read, distinct, views⟩ := holds
  exact ⟨segs, read, distinct, fun id => (views id).trans (same id)⟩

theorem holds_of_merge {self other token : SessionToken} (merged : self.merge other = .ok token) :
    ∃ view, token.Holds view := by
  obtain ⟨first, second, read, readOther, rfl⟩ := merge_eq_ok merged
  obtain ⟨segs, distinct⟩ := segments_merged (formed_of_segments read readOther)
  exact ⟨_, _, segs, distinct, fun _ => rfl⟩

theorem merge_holds {self other : SessionToken} {selfView otherView : List Char → Option SessionTokenValue}
    (selfHolds : self.Holds selfView) (otherHolds : other.Holds otherView) :
    ∃ token, self.merge other = .ok token ∧ token.Holds fun id => mergeValues (selfView id) (otherView id) := by
  obtain ⟨first, read, firstDistinct, firstViews⟩ := selfHolds
  obtain ⟨second, readOther, secondDistinct, secondViews⟩ := otherHolds
  obtain ⟨segs, distinct⟩ := segments_merged (formed_of_segments read readOther)
  refine ⟨_, by rw [merge_eq, read, readOther]; rfl, _, segs, distinct, fun id => ?_⟩
  rw [List.foldl_append, lookup_foldl_absorb secondDistinct, lookup_foldl_absorb firstDistinct,
    firstViews, secondViews]
  simp [mergeValues]

/-- Range `0` merges its two vectors, range `1` keeps the larger V1 LSN, in first-seen order. -/
example : SessionToken.merge ⟨"0:1#100#1=20,1:5".toList⟩ ⟨"1:7, 0:1#90#2=3".toList⟩ =
    .ok ⟨"0:1#100#1=20#2=3,1:7".toList⟩ := by
  decide

theorem merge_self_of_merge {self other token : SessionToken} (merged : self.merge other = .ok token) :
    token.merge token = .ok token := by
  obtain ⟨first, second, read, readOther, rfl⟩ := merge_eq_ok merged
  obtain ⟨segs, distinct⟩ := segments_merged (formed_of_segments read readOther)
  generalize (first ++ second).foldl absorb [] = held at segs distinct ⊢
  rw [merge_eq, segs, ok_bind, ok_bind, List.foldl_append, @foldl_absorb_of_nodup [] held (by simpa using distinct),
    List.nil_append, foldl_absorb_self distinct fun _ member => member]
  rfl

theorem mergeValues_comm (left right : Option SessionTokenValue) :
    mergeValues left right = mergeValues right left := by
  cases left <;> cases right <;> simp [mergeValues, SessionTokenValue.merge_comm]

theorem mergeValues_self (value : Option SessionTokenValue) : mergeValues value value = value := by
  cases value <;> simp [mergeValues, SessionTokenValue.merge_self]

theorem mergeValues_assoc {version : Int} {first second third : Option SessionTokenValue}
    (firstAt : ∀ value ∈ first, value.AtVersion version) (secondAt : ∀ value ∈ second, value.AtVersion version)
    (thirdAt : ∀ value ∈ third, value.AtVersion version) :
    mergeValues (mergeValues first second) third = mergeValues first (mergeValues second third) := by
  cases first <;> cases second <;> cases third <;>
    simp only [mergeValues, Option.merge_none_left, Option.merge_none_right, Option.merge_some_some]
  exact congrArg some (SessionTokenValue.merge_assoc_of_atVersion (firstAt _ rfl) (secondAt _ rfl) (thirdAt _ rfl))

theorem merge_comm_holds {self other : SessionToken} {selfView otherView : List Char → Option SessionTokenValue}
    (selfHolds : self.Holds selfView) (otherHolds : other.Holds otherView) :
    ∃ view forward backward, self.merge other = .ok forward ∧ other.merge self = .ok backward ∧
      forward.Holds view ∧ backward.Holds view := by
  obtain ⟨forward, mergedForward, forwardHolds⟩ := merge_holds selfHolds otherHolds
  obtain ⟨backward, mergedBackward, backwardHolds⟩ := merge_holds otherHolds selfHolds
  exact ⟨_, forward, backward, mergedForward, mergedBackward, forwardHolds,
    backwardHolds.congr fun id => mergeValues_comm _ _⟩

theorem merge_self_holds {token : SessionToken} {view : List Char → Option SessionTokenValue}
    (holds : token.Holds view) : ∃ merged, token.merge token = .ok merged ∧ merged.Holds view := by
  obtain ⟨merged, mergedSelf, mergedHolds⟩ := merge_holds holds holds
  exact ⟨merged, mergedSelf, mergedHolds.congr fun id => mergeValues_self _⟩

theorem merge_assoc_holds {first second third : SessionToken}
    {firstView secondView thirdView : List Char → Option SessionTokenValue}
    (firstHolds : first.Holds firstView) (secondHolds : second.Holds secondView) (thirdHolds : third.Holds thirdView)
    (versions : ∀ id, ∃ version, (∀ value ∈ firstView id, value.AtVersion version) ∧
      (∀ value ∈ secondView id, value.AtVersion version) ∧ (∀ value ∈ thirdView id, value.AtVersion version)) :
    ∃ view left right, (do let firstSecond ← first.merge second; firstSecond.merge third) = .ok left ∧
      (do let secondThird ← second.merge third; first.merge secondThird) = .ok right ∧
      left.Holds view ∧ right.Holds view := by
  obtain ⟨firstSecond, mergedFirst, firstSecondHolds⟩ := merge_holds firstHolds secondHolds
  obtain ⟨left, mergedLeft, leftHolds⟩ := merge_holds firstSecondHolds thirdHolds
  obtain ⟨secondThird, mergedSecond, secondThirdHolds⟩ := merge_holds secondHolds thirdHolds
  obtain ⟨right, mergedRight, rightHolds⟩ := merge_holds firstHolds secondThirdHolds
  refine ⟨_, left, right, by rw [mergedFirst, ok_bind, mergedLeft], by rw [mergedSecond, ok_bind, mergedRight],
    leftHolds, rightHolds.congr fun id => ?_⟩
  obtain ⟨version, firstAt, secondAt, thirdAt⟩ := versions id
  exact (mergeValues_assoc firstAt secondAt thirdAt).symm

end SessionToken

open VectorSessionToken SessionTokenValue SessionToken in
/-- Merges are order-independent among tokens of one version, V1 tokens included, for
values and for compound tokens read as maps from range id to value: commutative and
idempotent always, associative within a version, and so a fold of values of one
version does not depend on their order. Every compound token `merge` returns has one
segment per range id and is its own merge. -/
theorem merge_semilattice_within_version :
    (∀ left right : VectorSessionToken, (left.merge right).2 = (right.merge left).2) ∧
    (∀ token : VectorSessionToken, (token.merge token).2 = token) ∧
    (∀ first second third : VectorSessionToken, first.version = second.version →
      second.version = third.version →
      ((first.merge second).2.merge third).2 = (first.merge (second.merge third).2).2) ∧
    (∀ (version : Int) (tokens reordered : List VectorSessionToken) (start : VectorSessionToken),
      tokens.Perm reordered → (∀ token ∈ tokens, token.version = version) → start.version = version →
      tokens.foldl (fun acc token => (acc.merge token).2) start =
        reordered.foldl (fun acc token => (acc.merge token).2) start) ∧
    (∀ left right : SessionTokenValue, (left.merge right).2 = (right.merge left).2) ∧
    (∀ value : SessionTokenValue, (value.merge value).2 = value) ∧
    (∀ (version : Int) (first second third : SessionTokenValue), first.AtVersion version →
      second.AtVersion version → third.AtVersion version →
      ((first.merge second).2.merge third).2 = (first.merge (second.merge third).2).2) ∧
    (∀ (version : Int) (values reordered : List SessionTokenValue) (start : SessionTokenValue),
      values.Perm reordered → (∀ value ∈ values, value.AtVersion version) → start.AtVersion version →
      values.foldl (fun acc value => (acc.merge value).2) start =
        reordered.foldl (fun acc value => (acc.merge value).2) start) ∧
    (∀ self other token : SessionToken, self.merge other = .ok token →
      (∃ view, token.Holds view) ∧ token.merge token = .ok token) ∧
    (∀ (self other : SessionToken) (selfView otherView : List Char → Option SessionTokenValue),
      self.Holds selfView → other.Holds otherView →
      ∃ token, self.merge other = .ok token ∧ token.Holds fun id => mergeValues (selfView id) (otherView id)) ∧
    (∀ (self other : SessionToken) (selfView otherView : List Char → Option SessionTokenValue),
      self.Holds selfView → other.Holds otherView →
      ∃ view forward backward, self.merge other = .ok forward ∧ other.merge self = .ok backward ∧
        forward.Holds view ∧ backward.Holds view) ∧
    (∀ (token : SessionToken) (view : List Char → Option SessionTokenValue), token.Holds view →
      ∃ merged, token.merge token = .ok merged ∧ merged.Holds view) ∧
    (∀ (first second third : SessionToken) (firstView secondView thirdView : List Char → Option SessionTokenValue),
      first.Holds firstView → second.Holds secondView → third.Holds thirdView →
      (∀ id, ∃ version, (∀ value ∈ firstView id, value.AtVersion version) ∧
        (∀ value ∈ secondView id, value.AtVersion version) ∧ (∀ value ∈ thirdView id, value.AtVersion version)) →
      ∃ view left right, (do let firstSecond ← first.merge second; firstSecond.merge third) = .ok left ∧
        (do let secondThird ← second.merge third; first.merge secondThird) = .ok right ∧
        left.Holds view ∧ right.Holds view) :=
  ⟨VectorSessionToken.merge_comm, VectorSessionToken.merge_self,
    fun _ _ _ => merge_assoc_of_version_eq,
    fun _ _ _ start perm atVersion startVersion =>
      VectorSessionToken.foldl_merge_perm perm atVersion start startVersion,
    SessionTokenValue.merge_comm, SessionTokenValue.merge_self,
    fun _ _ _ _ => merge_assoc_of_atVersion,
    fun _ _ _ start perm atVersion startAt => SessionTokenValue.foldl_merge_perm perm atVersion start startAt,
    fun _ _ _ merged => ⟨holds_of_merge merged, merge_self_of_merge merged⟩,
    fun _ _ _ _ => merge_holds, fun _ _ _ _ => merge_comm_holds, fun _ _ => merge_self_holds,
    fun _ _ _ _ _ _ => merge_assoc_holds⟩

theorem merge_semilattice_three_tokens :
    (((⟨3, 7, RegionProgress.empty.insert 1 ((4 : Nat) : WithBot Nat)⟩ : VectorSessionToken).merge
        ⟨3, 9, RegionProgress.empty⟩).2.merge ⟨3, 2, RegionProgress.empty.insert 2 ⊥⟩).2 =
      ((⟨3, 7, RegionProgress.empty.insert 1 ((4 : Nat) : WithBot Nat)⟩ : VectorSessionToken).merge
        ((⟨3, 9, RegionProgress.empty⟩ : VectorSessionToken).merge
          ⟨3, 2, RegionProgress.empty.insert 2 ⊥⟩).2).2 :=
  merge_semilattice_within_version.2.2.1 _ _ _ rfl rfl

end CosmosDriver
