import AzureSdk.Lib.KeysetPaging
import AzureSdk.Lib.BinarySearch
import AzureSdk.Lib.LexOrder
import AzureSdk.Cosmos.Emulator.QueryRanges
import AzureSdk.Cosmos.Dataflow.OrderBy

/-!
# Paging a document feed

`paginate_document_feed_items` pages the documents a read-feed or query request collects,
sorted by their cursor: the effective partition key, then the id. A continuation names the
cursor of the last document handed out, and the next page starts at the first document past
it (`partition_point`), however the container changed in between. That is keyset pagination
(`KeysetPaging`): a reader that sends each continuation back is never handed a document
twice, and a read that ends has handed out every document the container held throughout.

The continuation's text is `serde_json`'s rendering of `DocumentFeedCursorToken`, and
`serde_json` reads it back as the same fields; the model carries the fields, and `none` for a
text that is no such JSON.
-/

namespace CosmosDriver.Emulator

open BinaryJson (Value utf8Bytes hexDigits CompressionTable)
open LexOrder (Lawful lawfulAt_byPair byPair)
open KeysetPaging (Sorted after page next run)

set_option autoImplicit false

/-- `DocumentFeedCursor`: a document's effective partition key, then its id. -/
structure DocumentFeedCursor where
  epk : EffectivePartitionKey
  id : String
  deriving DecidableEq

structure DocumentFeedItem where
  body : Value
  cursor : DocumentFeedCursor
  deriving DecidableEq

/-- `DocumentFeedCursorToken`: the fields of a continuation. -/
structure DocumentFeedCursorToken where
  kind : String
  epk : String
  id : String
  deriving DecidableEq

def documentFeedCursorTokenKind : String := "document_feed_cursor_v1"

def isAsciiHexdigit (b : UInt8) : Bool :=
  (0x30 ≤ b && b ≤ 0x39) || (0x41 ≤ b && b ≤ 0x46) || (0x61 ≤ b && b ≤ 0x66)

/-- `is_even_length_hex`, on the bytes of the text. -/
def isEvenLengthHex (value : String) : Bool :=
  (utf8Bytes value).length % 2 == 0 && (utf8Bytes value).all isAsciiHexdigit

namespace DocumentFeedCursor

/-- The derived `Ord`: the keys, then the ids as `String` orders them, by their bytes. -/
def cmp (a b : DocumentFeedCursor) : Ordering := (a.epk.cmp b.epk).then (OrderBy.compareBytes a.id b.id)

def toToken (c : DocumentFeedCursor) : DocumentFeedCursorToken :=
  ⟨documentFeedCursorTokenKind, c.epk.toHex, c.id⟩

/-- `DocumentFeedCursor::parse`, on the fields `serde_json::from_str` reads from the text. -/
def parse : Option DocumentFeedCursorToken → Except String DocumentFeedCursor
  | none => .error "Invalid continuation token"
  | some token =>
      if token.kind != documentFeedCursorTokenKind then .error "Invalid continuation token kind"
      else if !isEvenLengthHex token.epk then .error "Invalid continuation token EPK"
      else .ok ⟨EffectivePartitionKey.fromStr token.epk, token.id⟩

theorem lawful_epk_cmp : Lawful EffectivePartitionKey.cmp := fun a =>
  ⟨EffectivePartitionKey.cmp_self a, fun b => EffectivePartitionKey.cmp_swap a b,
    fun b c first second => by
      rw [EffectivePartitionKey.cmp_eq_compare_canonicalBytes] at first second ⊢
      exact Std.TransCmp.eq_trans first second,
    fun b c first second => by
      rw [EffectivePartitionKey.cmp_eq_compare_canonicalBytes] at first second ⊢
      exact Std.TransCmp.lt_of_lt_of_le first second,
    fun b c first second => by
      rw [EffectivePartitionKey.cmp_eq_compare_canonicalBytes] at first second ⊢
      exact Std.TransCmp.lt_of_le_of_lt first second⟩

theorem lawful_cmp : Lawful cmp := fun a => by
  have pairs := (lawfulAt_byPair (lawful_epk_cmp a.epk) (OrderBy.OrderByItem.lawful_compareBytes a.id)).comap
    fun c : DocumentFeedCursor => (c.epk, c.id)
  exact pairs

/-- `impl PartialOrd` is derived: `<=` and `<` are read off `cmp`. -/
instance : Preorder DocumentFeedCursor := lawful_cmp.toPreorder

instance (a b : DocumentFeedCursor) : Decidable (a ≤ b) := inferInstanceAs (Decidable (a.cmp b ≠ .gt))

instance (a b : DocumentFeedCursor) : Decidable (a < b) := inferInstanceAs (Decidable (a.cmp b = .lt))

instance : Std.Total (· ≤ · : DocumentFeedCursor → DocumentFeedCursor → Prop) := ⟨lawful_cmp.le_total⟩

end DocumentFeedCursor

/-- The `offset` of `paginate_document_feed_items`: the `partition_point` of the continuation's
cursor, or `0` without a continuation. -/
def documentFeedOffset (items : List DocumentFeedItem) :
    Option (Option DocumentFeedCursorToken) → Except String Nat
  | some token => do
      let cursor ← DocumentFeedCursor.parse token
      pure (BinarySearch.partitionPoint items fun item => decide (item.cursor ≤ cursor))
  | none => pure 0

/-- The `limit` of `paginate_document_feed_items` with `remaining` documents past the offset:
`max_item_count` when it is positive, else all of them. -/
def pageLimit (maxItemCount : Option Int32) (remaining : Nat) : Nat :=
  match maxItemCount with
  | some n => if 0 < n then n.toInt.toNat else remaining
  | none => remaining

/-- `paginate_document_feed_items`. The continuation is `none` without the header, else the
fields `serde_json` reads from its text. -/
def paginateDocumentFeedItems (items : List DocumentFeedItem) (maxItemCount : Option Int32)
    (continuation : Option (Option DocumentFeedCursorToken)) :
    Except String (List Value × Option DocumentFeedCursorToken) := do
  let offset ← documentFeedOffset items continuation
  let total := items.length
  let limit := pageLimit maxItemCount (total - offset)
  let stop := min (offset + limit) total
  let pageItems := if offset ≥ total then [] else items.extract offset stop
  let next := if stop < total then pageItems.getLast?.map fun item => item.cursor.toToken else none
  pure (pageItems.map (·.body), next)

/-- A reader of the feed, as the SDK's pager is: each call pages the documents the container
holds at that call and sends back the continuation of the page before; the pages, and
whether the last came back without a continuation. -/
def readDocumentFeed (maxItemCount : Option Int32) :
    Option (Option DocumentFeedCursorToken) → List (List DocumentFeedItem) →
      Except String (List (List Value) × Bool)
  | _, [] => .ok ([], false)
  | continuation, items :: later => do
      let (page, next) ← paginateDocumentFeedItems items maxItemCount continuation
      match next with
      | none => pure ([page], true)
      | some token => do
          let (pages, done) ← readDocumentFeed maxItemCount (some (some token)) later
          pure (page :: pages, done)

/-! ## The continuation reads back -/

theorem isEvenLengthHex_bytesToHexUpper (bytes : List UInt8) : isEvenLengthHex (bytesToHexUpper bytes) = true := by
  have digits : ∀ d : Fin 16, (Char.ofUInt8 (CompressionTable.uppercaseHex.chars.get d)).val ≤ 127 ∧
      isAsciiHexdigit (CompressionTable.uppercaseHex.chars.get d) = true := by decide
  have ascii : ∀ c ∈ bytes.flatMap (hexDigits CompressionTable.uppercaseHex.chars), c.val ≤ 127 := by
    intro c member
    simp only [List.mem_flatMap, hexDigits, List.mem_cons, List.not_mem_nil, or_false] at member
    obtain ⟨b, -, rfl | rfl⟩ := member <;> exact (digits _).1
  rw [isEvenLengthHex, bytesToHexUpper, utf8Bytes_ofList_of_ascii _ ascii, List.map_flatMap]
  -- two digits for each byte, each a hex digit
  simp only [hexDigits, List.map_cons, List.map_nil, ofUInt8_val_toUInt8, List.length_flatMap, List.all_flatMap,
    List.length_cons, List.length_nil, List.all_cons, List.all_nil, digits, Bool.and_true]
  simp

theorem DocumentFeedCursor.parse_toToken (c : DocumentFeedCursor) : DocumentFeedCursor.parse (some c.toToken) = .ok c := by
  simp only [DocumentFeedCursor.parse, DocumentFeedCursor.toToken, bne_self_eq_false, EffectivePartitionKey.toHex,
    isEvenLengthHex_bytesToHexUpper, Bool.not_true, Bool.false_eq_true, if_false,
    EffectivePartitionKey.fromStr_bytesToHexUpper]

/-! ## A page is a keyset page

On documents sorted by cursor, with the continuation a page handed back, the page is the
library's keyset page at the cursor, of `pageLimit` documents. -/

theorem pageLimit_pos (maxItemCount : Option Int32) : ∀ remaining, 0 < remaining → 0 < pageLimit maxItemCount remaining := by
  intro remaining nonempty
  cases maxItemCount with
  | none => exact nonempty
  | some n =>
    simp only [pageLimit]
    split
    · rename_i positive
      have : 0 < n.toInt := Int32.lt_iff_toInt_lt.mp positive
      omega
    · exact nonempty

theorem slice_eq_take_drop (items : List DocumentFeedItem) (offset limit : Nat) :
    (if offset ≥ items.length then [] else items.extract offset (min (offset + limit) items.length)) =
      (items.drop offset).take limit := by
  split
  · rename_i past
    rw [List.drop_of_length_le past, List.take_nil]
  · rw [List.extract_eq_take_drop, List.take_eq_take_iff, List.length_drop]
    omega

theorem drop_partitionPoint_cursor {items : List DocumentFeedItem} (sorted : Sorted DocumentFeedItem.cursor items)
    (cursor : DocumentFeedCursor) :
    items.drop (BinarySearch.partitionPoint items fun item => decide (item.cursor ≤ cursor)) =
      after DocumentFeedItem.cursor (some cursor) items :=
  BinarySearch.drop_partitionPoint <| sorted.imp fun below atOrBelow =>
    decide_eq_true (le_of_lt (lt_of_lt_of_le below (of_decide_eq_true atOrBelow)))

theorem paginateDocumentFeedItems_eq {items : List DocumentFeedItem} (sorted : Sorted DocumentFeedItem.cursor items)
    (maxItemCount : Option Int32) (c : Option DocumentFeedCursor) :
    paginateDocumentFeedItems items maxItemCount (c.map fun c => some c.toToken) =
      let size := pageLimit maxItemCount (after DocumentFeedItem.cursor c items).length
      .ok ((page DocumentFeedItem.cursor c size items).map (·.body),
        (next DocumentFeedItem.cursor c size items).map (·.toToken)) := by
  obtain ⟨offset, offsetOk, dropped⟩ : ∃ offset, documentFeedOffset items (c.map fun c => some c.toToken) = .ok offset ∧
      items.drop offset = after DocumentFeedItem.cursor c items := by
    cases c with
    | none => exact ⟨0, rfl, List.drop_zero⟩
    | some cursor =>
      refine ⟨_, ?_, drop_partitionPoint_cursor sorted cursor⟩
      simp only [documentFeedOffset, Option.map_some, DocumentFeedCursor.parse_toToken]
      rfl
  unfold paginateDocumentFeedItems
  rw [offsetOk]
  have remaining : (after DocumentFeedItem.cursor c items).length = items.length - offset := by
    rw [← dropped, List.length_drop]
  simp only [bind, Except.bind, pure, Except.pure, slice_eq_take_drop, dropped, remaining, page, next]
  generalize pageLimit maxItemCount (items.length - offset) = size
  -- `end < total` is `size < total - offset`, whatever the offset
  have stops : min (offset + size) items.length < items.length ↔ size < items.length - offset := by omega
  by_cases more : size < items.length - offset
  · simp [stops, more, Option.map_map, Function.comp_def]
  · simp [stops, more]

/-! ## Reads over a changing container -/

theorem readDocumentFeed_eq_run (maxItemCount : Option Int32) (c : Option DocumentFeedCursor)
    (calls : List (List DocumentFeedItem)) (sorted : ∀ items ∈ calls, Sorted DocumentFeedItem.cursor items) :
    readDocumentFeed maxItemCount (c.map fun c => some c.toToken) calls =
      .ok ((run DocumentFeedItem.cursor (pageLimit maxItemCount) c calls).1.map (·.map (·.body)),
        (run DocumentFeedItem.cursor (pageLimit maxItemCount) c calls).2) := by
  induction calls generalizing c with
  | nil => rfl
  | cons items later induction =>
    rw [readDocumentFeed, paginateDocumentFeedItems_eq (sorted items List.mem_cons_self)]
    simp only [run]
    cases sent : next DocumentFeedItem.cursor c (pageLimit maxItemCount (after DocumentFeedItem.cursor c items).length) items with
    | none => rfl
    | some c' =>
      have rest := induction (some c') fun list member => sorted list (List.mem_cons_of_mem _ member)
      simp only [Option.map_some] at rest
      simp only [Option.map_some, bind, Except.bind, rest]
      rfl

theorem readDocumentFeed_never_repeats_or_loses (maxItemCount : Option Int32)
    (snapshots : List (List DocumentFeedItem))
    (sorted : ∀ items ∈ snapshots, items.Pairwise fun a b => a.cursor < b.cursor) :
    ∃ returned : List DocumentFeedItem, ∃ pages done,
      readDocumentFeed maxItemCount none snapshots = .ok (pages, done) ∧
      pages.flatten = returned.map (·.body) ∧
      returned.Pairwise (fun a b => a.cursor < b.cursor) ∧
      (∀ x ∈ returned, ∃ items ∈ snapshots, x ∈ items) ∧
      (done = true → ∀ x, (∀ items ∈ snapshots, x ∈ items) → x ∈ returned) := by
  have read := readDocumentFeed_eq_run maxItemCount none snapshots sorted
  rw [Option.map_none] at read
  refine ⟨_, _, _, read, List.map_flatten.symm, (KeysetPaging.run_sorted sorted).1,
    fun x returned => KeysetPaging.mem_of_mem_run returned, ?_⟩
  intro ended x present
  exact KeysetPaging.mem_run_of_forall_mem (pageLimit_pos maxItemCount) sorted ended present (KeysetPaging.past_none x)

theorem readDocumentFeed_never_repeats_or_loses_two_reads :
    (∀ items ∈ [[⟨.null, ⟨⟨[0x10]⟩, "a"⟩⟩, ⟨.bool true, ⟨⟨[0x20]⟩, "b"⟩⟩],
        [⟨.bool true, ⟨⟨[0x20]⟩, "b"⟩⟩, ⟨.bool false, ⟨⟨[0x30]⟩, "c"⟩⟩]],
      items.Pairwise fun a b : DocumentFeedItem => a.cursor < b.cursor) ∧
    ∃ returned : List DocumentFeedItem, ∃ pages done,
      readDocumentFeed (some 1) none [[⟨.null, ⟨⟨[0x10]⟩, "a"⟩⟩, ⟨.bool true, ⟨⟨[0x20]⟩, "b"⟩⟩],
        [⟨.bool true, ⟨⟨[0x20]⟩, "b"⟩⟩, ⟨.bool false, ⟨⟨[0x30]⟩, "c"⟩⟩]] = .ok (pages, done) ∧
      pages.flatten = returned.map (·.body) ∧
      returned.Pairwise (fun a b => a.cursor < b.cursor) ∧
      (∀ x ∈ returned, ∃ items ∈ [[⟨.null, ⟨⟨[0x10]⟩, "a"⟩⟩, ⟨.bool true, ⟨⟨[0x20]⟩, "b"⟩⟩],
        [⟨.bool true, ⟨⟨[0x20]⟩, "b"⟩⟩, ⟨.bool false, ⟨⟨[0x30]⟩, "c"⟩⟩]], x ∈ items) ∧
      (done = true → ∀ x, (∀ items ∈ [[⟨.null, ⟨⟨[0x10]⟩, "a"⟩⟩, ⟨.bool true, ⟨⟨[0x20]⟩, "b"⟩⟩],
        [⟨.bool true, ⟨⟨[0x20]⟩, "b"⟩⟩, ⟨.bool false, ⟨⟨[0x30]⟩, "c"⟩⟩]], x ∈ items) → x ∈ returned) :=
  ⟨by decide, readDocumentFeed_never_repeats_or_loses (some 1) _ (by decide)⟩

theorem readDocumentFeed_replicate (maxItemCount : Option Int32) {items : List DocumentFeedItem}
    (sorted : items.Pairwise fun a b => a.cursor < b.cursor) {calls : Nat} (enough : items.length < calls) :
    ∃ pages, readDocumentFeed maxItemCount none (List.replicate calls items) = .ok (pages, true) ∧
      pages.flatten = items.map (·.body) := by
  have each : ∀ list ∈ List.replicate calls items, Sorted DocumentFeedItem.cursor list := fun list member => by
    rw [List.eq_of_mem_replicate member]
    exact sorted
  obtain ⟨ended, flat⟩ := KeysetPaging.run_replicate (pageLimit_pos maxItemCount) sorted calls none enough
  have read := readDocumentFeed_eq_run maxItemCount none _ each
  rw [Option.map_none, ended] at read
  exact ⟨_, read, List.map_flatten.symm.trans (congrArg (List.map (·.body)) flat)⟩

theorem readDocumentFeed_replicate_three_calls :
    [(⟨.null, ⟨⟨[0x10]⟩, "a"⟩⟩ : DocumentFeedItem), ⟨.bool true, ⟨⟨[0x20]⟩, "b"⟩⟩].Pairwise
        (fun a b => a.cursor < b.cursor) ∧
      [(⟨.null, ⟨⟨[0x10]⟩, "a"⟩⟩ : DocumentFeedItem), ⟨.bool true, ⟨⟨[0x20]⟩, "b"⟩⟩].length < 3 ∧
      ∃ pages, readDocumentFeed (some 1) none (List.replicate 3 [⟨.null, ⟨⟨[0x10]⟩, "a"⟩⟩, ⟨.bool true, ⟨⟨[0x20]⟩, "b"⟩⟩]) =
        .ok (pages, true) ∧ pages.flatten = [Value.null, .bool true] :=
  ⟨by decide, by decide, readDocumentFeed_replicate (some 1) (by decide) (by decide)⟩

end CosmosDriver.Emulator
