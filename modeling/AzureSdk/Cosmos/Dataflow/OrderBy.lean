import Mathlib
import AzureSdk.Lib.Outcome
import AzureSdk.Cosmos.Dataflow.OrderByNumber

/-!
# The cross-partition ORDER BY comparator

`OrderByItem::cmp` orders JSON values by their Cosmos type first (`Undefined < Null <
Boolean < Number < String < Array < Object`) and then by value: numbers by
`OrderByNumber::cmp`, strings by their UTF-16 code units, arrays element by element, and
objects as their entries sorted by key. The comparator is lawful at every item, proved by
recursion on the size of the item with one lexicographic step per node, and
`compare_key_tuples` is lawful on the key tuples that have a value for every sort column.
`classify_row_vs_boundary` compares a row with the persisted boundary of the last emitted
row; on scalar boundaries it is `compare_key_tuples` read as Before, Tie or After, panics
included.
-/

namespace CosmosDriver.OrderBy

open Outcome LexOrder

set_option autoImplicit false

inductive CosmosType where
  | undefined
  | null
  | boolean
  | number
  | string
  | array
  | object
  deriving DecidableEq, Ord, Repr

theorem compare_cosmosType (a b : CosmosType) : compare a b = compare a.ctorIdx b.ctorIdx := by
  cases a <;> cases b <;> rfl

theorem CosmosType.ctorIdx_inj {a b : CosmosType} (same : a.ctorIdx = b.ctorIdx) : a = b := by
  cases a <;> cases b <;> first | rfl | exact absurd same (by decide)

/-- `char::encode_utf16`, the code units as numbers. -/
def encodeUtf16 (c : Char) : List Nat :=
  if c.val.toNat < 0x10000 then [c.val.toNat]
  else
    let v := c.val.toNat - 0x10000
    [0xD800 + v / 0x400, 0xDC00 + v % 0x400]

/-- `compare_strings`: `a.encode_utf16().cmp(b.encode_utf16())`. -/
def compareStrings (a b : String) : Ordering :=
  lex compare (a.toList.flatMap encodeUtf16) (b.toList.flatMap encodeUtf16)

def compareBytes (a b : String) : Ordering :=
  lex compare a.toByteArray.toList b.toByteArray.toList

inductive OrderByItem where
  | undefined
  | null
  | boolean (b : Bool)
  | number (n : OrderByNumber)
  | string (s : String)
  | array (items : List OrderByItem)
  /-- Key/value pairs in wire order. -/
  | object (entries : List (String × OrderByItem))

namespace OrderByItem

def cosmosType : OrderByItem → CosmosType
  | .undefined => .undefined
  | .null => .null
  | .boolean _ => .boolean
  | .number _ => .number
  | .string _ => .string
  | .array _ => .array
  | .object _ => .object

/-- The key of an object's comparison: its entries sorted by `compare_strings` on the keys
(`sort_by` is stable, as `mergeSort` is). -/
def sortEntries (entries : List (String × OrderByItem)) : List (String × OrderByItem) :=
  entries.mergeSort fun p q => compareStrings p.1 q.1 != .gt

theorem sizeOf_sortEntries (entries : List (String × OrderByItem)) :
    sizeOf (sortEntries entries) = sizeOf entries :=
  (List.mergeSort_perm _ _).sizeOf_eq_sizeOf

mutual

/-- `Ord for OrderByItem`. -/
def cmp (a b : OrderByItem) : Ordering :=
  let rankCmp := compare a.cosmosType b.cosmosType
  if rankCmp ≠ .eq then rankCmp
  else
    match a, b with
    | .undefined, .undefined => .eq
    | .null, .null => .eq
    | .boolean a, .boolean b => compare a b
    | .number a, .number b => a.cmp b
    | .string a, .string b => compareStrings a b
    | .array a, .array b => cmpItems a b
    | .object a, .object b => cmpEntries (sortEntries a) (sortEntries b)
    -- `unreachable!`: the ranks have told the variants apart
    | _, _ => .eq
termination_by sizeOf a
decreasing_by
  all_goals simp_wf
  rw [sizeOf_sortEntries]
  omega

/-- `Vec<OrderByItem>::cmp`. -/
def cmpItems : List OrderByItem → List OrderByItem → Ordering
  | [], [] => .eq
  | [], _ :: _ => .lt
  | _ :: _, [] => .gt
  | x :: xs, y :: ys => (cmp x y).then (cmpItems xs ys)
termination_by xs => sizeOf xs

/-- `Vec<(String, OrderByItem)>::cmp`: each pair by its key's bytes, then by its value. -/
def cmpEntries : List (String × OrderByItem) → List (String × OrderByItem) → Ordering
  | [], [] => .eq
  | [], _ :: _ => .lt
  | _ :: _, [] => .gt
  | (k, x) :: xs, (l, y) :: ys => ((compareBytes k l).then (cmp x y)).then (cmpEntries xs ys)
termination_by xs => sizeOf xs

end

def rank (x : OrderByItem) : Nat := x.cosmosType.ctorIdx

/-! ## Equations of the comparator -/

theorem cmp_of_cosmosType_ne {a b : OrderByItem} (differ : a.cosmosType ≠ b.cosmosType) :
    a.cmp b = compare a.cosmosType b.cosmosType := by
  have notTied : compare a.cosmosType b.cosmosType ≠ .eq := by
    rw [compare_cosmosType, Ne, compare_eq_iff_eq]
    exact fun same => differ (CosmosType.ctorIdx_inj same)
  unfold cmp
  exact if_pos notTied

theorem cmp_of_rank_ne {a b : OrderByItem} (differ : a.rank ≠ b.rank) : a.cmp b = compare a.rank b.rank := by
  rw [cmp_of_cosmosType_ne (fun same => differ (congrArg CosmosType.ctorIdx same)), compare_cosmosType]
  rfl

theorem rank_eq_iff {x y : OrderByItem} : x.rank = y.rank ↔ x.cosmosType = y.cosmosType :=
  ⟨CosmosType.ctorIdx_inj, congrArg CosmosType.ctorIdx⟩

theorem cmp_undefined : cmp .undefined .undefined = .eq := by unfold cmp; rfl

theorem cmp_null : cmp .null .null = .eq := by unfold cmp; rfl

theorem cmp_boolean (a b : Bool) : cmp (.boolean a) (.boolean b) = compare a b := by unfold cmp; rfl

theorem cmp_number (a b : OrderByNumber) : cmp (.number a) (.number b) = a.cmp b := by unfold cmp; rfl

theorem cmp_string (a b : String) : cmp (.string a) (.string b) = compareStrings a b := by unfold cmp; rfl

theorem cmpItems_eq_lex : ∀ xs ys : List OrderByItem, cmpItems xs ys = lex cmp xs ys
  | [], [] => by rw [cmpItems, lex]
  | [], _ :: _ => by rw [cmpItems, lex]
  | _ :: _, [] => by rw [cmpItems, lex]
  | x :: xs, y :: ys => by rw [cmpItems, lex, cmpItems_eq_lex xs ys]

theorem cmpEntries_eq_lex :
    ∀ xs ys : List (String × OrderByItem), cmpEntries xs ys = lex (byPair compareBytes cmp) xs ys
  | [], [] => by rw [cmpEntries, lex]
  | [], _ :: _ => by rw [cmpEntries, lex]
  | _ :: _, [] => by rw [cmpEntries, lex]
  | (k, x) :: xs, (l, y) :: ys => by rw [cmpEntries, lex, cmpEntries_eq_lex xs ys]; rfl

theorem cmp_array (xs ys : List OrderByItem) : cmp (.array xs) (.array ys) = lex cmp xs ys := by
  rw [← cmpItems_eq_lex]
  unfold cmp
  rfl

theorem cmp_object (xs ys : List (String × OrderByItem)) :
    cmp (.object xs) (.object ys) = lex (byPair compareBytes cmp) (sortEntries xs) (sortEntries ys) := by
  rw [← cmpEntries_eq_lex]
  unfold cmp
  rfl

/-! ## The comparator is lawful -/

theorem lawful_compareStrings : Lawful compareStrings := fun _ =>
  (lawfulAt_lex fun c _ => lawful_compare c).comap (fun s : String => s.toList.flatMap encodeUtf16)

theorem lawful_compareBytes : Lawful compareBytes := by
  have byNat : (compare : UInt8 → UInt8 → Ordering) = fun a b => compare a.toNat b.toNat :=
    funext₂ UInt8.compare_eq_toNat_compare_toNat
  have bytes : Lawful (compare : UInt8 → UInt8 → Ordering) := by
    rw [byNat]
    exact fun byte => (lawful_compare byte.toNat).comap UInt8.toNat
  exact fun a => (lawfulAt_lex fun byte _ => bytes byte).comap (fun s : String => s.toByteArray.toList)

theorem lawfulAt_of_variant {β : Type} {g : β → β → Ordering} (wrap : β → OrderByItem) {v : β}
    (lawful : LawfulAt g v) (onto : ∀ y, y.rank = (wrap v).rank → ∃ w, y = wrap w)
    (agrees : ∀ w w', (wrap w).cmp (wrap w') = g w w') : LawfulAt cmp (wrap v) :=
  lawfulAt_of_rank (fun _ _ differ => cmp_of_rank_ne differ)
    ((lawful.within : LawfulWithin g (fun _ => True) v).map wrap
      (fun y same => (onto y same).imp fun _ is => ⟨trivial, is⟩) agrees)

theorem sizeOf_lt_of_mem_array {y : OrderByItem} {xs : List OrderByItem} (member : y ∈ xs) :
    sizeOf y < sizeOf (OrderByItem.array xs) := by
  have inside := List.sizeOf_lt_of_mem member
  simp only [OrderByItem.array.sizeOf_spec]
  omega

theorem sizeOf_lt_of_mem_sortEntries {p : String × OrderByItem} {entries : List (String × OrderByItem)}
    (member : p ∈ sortEntries entries) : sizeOf p.2 < sizeOf (OrderByItem.object entries) := by
  have inside := List.sizeOf_lt_of_mem ((List.mergeSort_perm _ _).mem_iff.mp member)
  have second : sizeOf p.2 < sizeOf p := by
    obtain ⟨k, x⟩ := p
    simp only [Prod.mk.sizeOf_spec]
    omega
  simp only [OrderByItem.object.sizeOf_spec]
  omega

theorem lawfulAt_cmp : ∀ x : OrderByItem, LawfulAt cmp x
  | .undefined => lawfulAt_of_variant (fun _ : Unit => .undefined) (lawful_tied ())
      (fun y same => by cases y <;> simp_all [rank_eq_iff, cosmosType]) (fun _ _ => cmp_undefined)
  | .null => lawfulAt_of_variant (fun _ : Unit => .null) (lawful_tied ())
      (fun y same => by cases y <;> simp_all [rank_eq_iff, cosmosType]) (fun _ _ => cmp_null)
  | .boolean b => lawfulAt_of_variant OrderByItem.boolean (lawful_compare b)
      (fun y same => by cases y <;> simp_all [rank_eq_iff, cosmosType]) cmp_boolean
  | .number n => lawfulAt_of_variant OrderByItem.number (OrderByNumber.lawful_cmp n)
      (fun y same => by cases y <;> simp_all [rank_eq_iff, cosmosType]) cmp_number
  | .string s => lawfulAt_of_variant OrderByItem.string (lawful_compareStrings s)
      (fun y same => by cases y <;> simp_all [rank_eq_iff, cosmosType]) cmp_string
  | .array xs => lawfulAt_of_variant OrderByItem.array (lawfulAt_lex fun y member => lawfulAt_cmp y)
      (fun y same => by cases y <;> simp_all [rank_eq_iff, cosmosType]) cmp_array
  | .object entries => lawfulAt_of_variant OrderByItem.object
      ((lawfulAt_lex fun p member => lawfulAt_byPair (lawful_compareBytes p.1) (lawfulAt_cmp p.2)).comap
        sortEntries)
      (fun y same => by cases y <;> simp_all [rank_eq_iff, cosmosType]) cmp_object
termination_by x => sizeOf x
decreasing_by
  · exact sizeOf_lt_of_mem_array member
  · exact sizeOf_lt_of_mem_sortEntries member

end OrderByItem

/-! ## Resume boundaries -/

inductive OrderByResumeValue where
  | undefined
  | null
  | boolean (value : Bool)
  | number (value : OrderByNumber)
  | string (value : String)
  deriving DecidableEq, Repr

def OrderByResumeValue.cosmosType : OrderByResumeValue → CosmosType
  | .undefined => .undefined
  | .null => .null
  | .boolean _ => .boolean
  | .number _ => .number
  | .string _ => .string

/-- `to_resume_value`: no resume form for an array or an object. -/
def OrderByItem.toResumeValue : OrderByItem → Option OrderByResumeValue
  | .undefined => some .undefined
  | .null => some .null
  | .boolean b => some (.boolean b)
  | .number n => some (.number n)
  | .string s => some (.string s)
  | .array _ => none
  | .object _ => none

def columnCmp (item : OrderByItem) (value : OrderByResumeValue) : Ordering :=
  let rankCmp := compare item.cosmosType value.cosmosType
  if rankCmp ≠ .eq then rankCmp
  else
    match item, value with
    | .undefined, .undefined => .eq
    | .null, .null => .eq
    | .boolean a, .boolean value => compare a value
    | .number a, .number value => a.cmp value
    | .string a, .string value => compareStrings a value
    -- `unreachable!`: the ranks have told the variants apart
    | _, _ => .eq

theorem cosmosType_toResumeValue {b : OrderByItem} {value : OrderByResumeValue} (scalar : b.toResumeValue = some value) :
    value.cosmosType = b.cosmosType := by
  cases b <;> simp only [OrderByItem.toResumeValue, Option.some.injEq, reduceCtorEq] at scalar <;>
    (subst scalar; rfl)

theorem columnCmp_toResumeValue (item : OrderByItem) {b : OrderByItem} {value : OrderByResumeValue}
    (scalar : b.toResumeValue = some value) : columnCmp item value = item.cmp b := by
  have sameType := cosmosType_toResumeValue scalar
  by_cases differ : item.cosmosType = b.cosmosType
  · -- one variant on both sides: the value comparisons are the same
    cases b <;> simp only [OrderByItem.toResumeValue, Option.some.injEq, reduceCtorEq] at scalar <;>
      subst scalar <;> cases item <;> simp only [OrderByItem.cosmosType, reduceCtorEq] at differ <;>
      simp only [OrderByItem.cmp_undefined, OrderByItem.cmp_null, OrderByItem.cmp_boolean,
        OrderByItem.cmp_number, OrderByItem.cmp_string] <;> rfl
  · have notTied : compare item.cosmosType value.cosmosType ≠ .eq := by
      rw [compare_cosmosType, Ne, compare_eq_iff_eq, sameType]
      exact fun same => differ (CosmosType.ctorIdx_inj same)
    rw [OrderByItem.cmp_of_cosmosType_ne differ, ← sameType]
    exact if_pos notTied

/-! ## Key tuples -/

inductive SortOrder where
  | ascending
  | descending
  deriving DecidableEq, Repr

def SortOrder.apply : SortOrder → Ordering → Ordering
  | .ascending, order => order
  | .descending, order => order.swap

/-- `compare_key_tuples`: column by column in each column's direction, to the first
column that is not a tie. -/
def compareKeyTuples {ε : Type} (a b : List OrderByItem) (directions : List SortOrder) : Run ε Ordering :=
  go 0 directions
where
  go (i : Nat) : List SortOrder → Run ε Ordering
    | [] => .ok .eq
    | direction :: rest => do
        let x ← index a i
        let y ← index b i
        let order := direction.apply (x.cmp y)
        if order ≠ .eq then pure order else go (i + 1) rest

/-- The comparison `compare_key_tuples` makes of tuples with a value for every column. -/
def keyTupleCmp : List SortOrder → List OrderByItem → List OrderByItem → Ordering
  | direction :: rest, x :: xs, y :: ys => (direction.apply (x.cmp y)).then (keyTupleCmp rest xs ys)
  | _, _, _ => .eq

theorem compareKeyTuples_go {ε : Type} (a b : List OrderByItem) :
    ∀ (directions : List SortOrder) (i : Nat), i + directions.length ≤ a.length → i + directions.length ≤ b.length →
      (compareKeyTuples.go a b i directions : Run ε Ordering) = .ok (keyTupleCmp directions (a.drop i) (b.drop i))
  | [], i, _, _ => by cases a.drop i <;> cases b.drop i <;> rfl
  | direction :: rest, i, longA, longB => by
      simp only [List.length_cons] at longA longB
      have inA : i < a.length := by omega
      have inB : i < b.length := by omega
      rw [List.drop_eq_getElem_cons inA, List.drop_eq_getElem_cons inB, keyTupleCmp, compareKeyTuples.go,
        index_of_lt inA, index_of_lt inB]
      simp only [ok_bind]
      rw [compareKeyTuples_go a b rest (i + 1) (by omega) (by omega)]
      cases direction.apply (a[i].cmp b[i]) <;> rfl

theorem compareKeyTuples_eq {ε : Type} {a b : List OrderByItem} {directions : List SortOrder}
    (longA : directions.length ≤ a.length) (longB : directions.length ≤ b.length) :
    (compareKeyTuples a b directions : Run ε Ordering) = .ok (keyTupleCmp directions a b) :=
  compareKeyTuples_go a b directions 0 (by omega) (by omega)

theorem lawful_apply (direction : SortOrder) : Lawful fun x y : OrderByItem => direction.apply (x.cmp y) := by
  cases direction with
  | ascending => exact OrderByItem.lawfulAt_cmp
  | descending => exact Lawful.reverse OrderByItem.lawfulAt_cmp

theorem cons_of_length {n : Nat} {t : List OrderByItem} (long : n + 1 ≤ t.length) :
    ∃ p : OrderByItem × List OrderByItem, n ≤ p.2.length ∧ t = p.1 :: p.2 := by
  cases t with
  | nil => simp at long
  | cons x xs => exact ⟨(x, xs), by simpa using long, rfl⟩

theorem lawfulWithin_keyTupleCmp : ∀ (directions : List SortOrder) (a : List OrderByItem),
    directions.length ≤ a.length →
      LawfulWithin (keyTupleCmp directions) (fun t => directions.length ≤ t.length) a
  | [], a, _ => (lawful_tied a).within
  | _ :: _, [], long => absurd long (by simp)
  | direction :: rest, x :: xs, long =>
      (lawfulWithin_byPair (lawful_apply direction x)
          (lawfulWithin_keyTupleCmp rest xs (by simpa using long))).map
        (fun p : OrderByItem × List OrderByItem => p.1 :: p.2)
        (fun _ inClass => cons_of_length inClass) (fun _ _ => rfl)

/-! ## The row against the resume boundary -/

inductive RowVsBoundary where
  | before
  | tie
  | after
  deriving DecidableEq, Repr

/-- How `classify_row_vs_boundary` reads a column's ordering. -/
def RowVsBoundary.ofOrdering : Ordering → RowVsBoundary
  | .lt => .before
  | .eq => .tie
  | .gt => .after

def classifyRowVsBoundary {ε : Type} (keys : List OrderByItem) (resumeValues : List OrderByResumeValue)
    (directions : List SortOrder) : Run ε RowVsBoundary :=
  go 0 directions
where
  go (i : Nat) : List SortOrder → Run ε RowVsBoundary
    | [] => .ok .tie
    | direction :: rest => do
        let key ← index keys i
        let value ← index resumeValues i
        match direction.apply (columnCmp key value) with
        | .lt => pure .before
        | .gt => pure .after
        | .eq => go (i + 1) rest

theorem classify_go {ε : Type} (keys bs : List OrderByItem) (values : List OrderByResumeValue)
    (scalar : bs.map OrderByItem.toResumeValue = values.map some) :
    ∀ (directions : List SortOrder) (i : Nat),
      (classifyRowVsBoundary.go keys values i directions : Run ε RowVsBoundary) =
        RowVsBoundary.ofOrdering <$> compareKeyTuples.go keys bs i directions
  | [], i => rfl
  | direction :: rest, i => by
      -- the boundary has a value at `i` exactly where the tuple does, its resume form
      have column : (bs[i]?).map OrderByItem.toResumeValue = (values[i]?).map some := by
        rw [← List.getElem?_map, ← List.getElem?_map, scalar]
      rw [classifyRowVsBoundary.go, compareKeyTuples.go]
      cases key : keys[i]? with
      | none => simp [index, key, Outcome.panic]
      | some item =>
          cases value : values[i]? with
          | none =>
              have absent : bs[i]? = none := by simpa [value] using column
              simp [index, key, value, absent, Outcome.panic]
          | some v =>
              obtain ⟨b, present, resumes⟩ : ∃ b, bs[i]? = some b ∧ b.toResumeValue = some v := by
                cases found : bs[i]? with
                | none => simp [found, value] at column
                | some b => exact ⟨b, rfl, by simpa [found, value] using column⟩
              simp only [index, key, value, present, ok_bind, columnCmp_toResumeValue item resumes]
              cases direction.apply (item.cmp b)
              · rfl
              · exact classify_go keys bs values scalar rest (i + 1)
              · rfl

/-- The ORDER BY comparator is a total preorder on every item, and on every key tuple with a
value per column, where `compare_key_tuples` computes it without a panic; it is exact on
finite numbers; and against the resume form of a scalar boundary the row classification is
`compare_key_tuples` read as Before, Tie or After. -/
theorem order_by_comparator_is_lawful_and_exact :
    Lawful OrderByItem.cmp ∧
    (∀ (directions : List SortOrder) (a : List OrderByItem), directions.length ≤ a.length →
      LawfulWithin (keyTupleCmp directions) (fun t => directions.length ≤ t.length) a) ∧
    (∀ (ε : Type) (directions : List SortOrder) (a b : List OrderByItem),
      directions.length ≤ a.length → directions.length ≤ b.length →
      (compareKeyTuples a b directions : Run ε Ordering) = .ok (keyTupleCmp directions a b)) ∧
    (∀ x y : OrderByNumber, x.isFinite = true → y.isFinite = true → x.cmp y = compare x.toRat y.toRat) ∧
    (∀ (ε : Type) (keys bs : List OrderByItem) (values : List OrderByResumeValue) (directions : List SortOrder),
      bs.map OrderByItem.toResumeValue = values.map some →
      (classifyRowVsBoundary keys values directions : Run ε RowVsBoundary) =
        RowVsBoundary.ofOrdering <$> compareKeyTuples keys bs directions) :=
  ⟨OrderByItem.lawfulAt_cmp, lawfulWithin_keyTupleCmp,
    fun _ _ _ _ longA longB => compareKeyTuples_eq longA longB,
    fun _ _ finiteX finiteY => OrderByNumber.cmp_eq_compare_toRat finiteX finiteY,
    fun _ keys bs values directions scalar => classify_go keys bs values scalar directions 0⟩

theorem order_by_comparator_on_one_descending_column :
    LawfulWithin (keyTupleCmp [.descending]) (fun t => [SortOrder.descending].length ≤ t.length) [.null] ∧
    (compareKeyTuples [.null] [.boolean true] [.descending] : Run Empty Ordering) =
      .ok (keyTupleCmp [.descending] [.null] [.boolean true]) ∧
    (OrderByNumber.i64 1).cmp (.f64 ⟨0x3FF8000000000000⟩) =
      compare (OrderByNumber.i64 1).toRat (OrderByNumber.f64 ⟨0x3FF8000000000000⟩).toRat ∧
    (classifyRowVsBoundary [.null] [.boolean true] [.descending] : Run Empty RowVsBoundary) =
      RowVsBoundary.ofOrdering <$> compareKeyTuples [.null] [.boolean true] [.descending] := by
  obtain ⟨-, tuples, computed, exact, classified⟩ := order_by_comparator_is_lawful_and_exact
  exact ⟨tuples _ _ (by decide), computed _ _ _ _ (by decide) (by decide), exact _ _ (by decide) (by decide),
    classified _ _ _ _ _ rfl⟩

end CosmosDriver.OrderBy
