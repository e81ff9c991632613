import AzureSdk.Lib.Padding
import AzureSdk.Cosmos.BinaryJson.Value

/-!
# Effective partition keys

`effective_partition_key.rs`: the key bytes, their order, equality, hashing and
the hex forms. The order compares the common prefix and then asks whether the
longer key's tail is all zero, so keys that differ only by trailing zero bytes
are equal. That is `Padding.padCompare` at padding `0`, hence the lexicographic
order of the keys with their trailing zeros stripped (`canonical_slice`), and
from there a total order that equality and hashing agree with.
-/

namespace CosmosDriver

set_option autoImplicit false

/-- `EffectivePartitionKey`: the raw key bytes. Rust's `==` on keys is
`EffectivePartitionKey.eq`, not equality of the bytes. -/
structure EffectivePartitionKey where
  bytes : List UInt8
  deriving DecidableEq, Repr

/-- `canonical_slice`: the bytes up to the last non-zero one (`rposition`). -/
def canonicalSlice (bytes : List UInt8) : List UInt8 :=
  let stop := match bytes.reverse.findIdx? (· != 0) with
    | some fromBack => bytes.length - fromBack
    | none => 0
  bytes.take stop

def hexNibble (c : UInt8) : Option UInt8 :=
  if 0x30 ≤ c ∧ c ≤ 0x39 then some (c - 0x30)
  else if 0x61 ≤ c ∧ c ≤ 0x66 then some (c - 0x61 + 10)
  else if 0x41 ≤ c ∧ c ≤ 0x46 then some (c - 0x41 + 10)
  else none

/-- `chunks_exact(2)`: consecutive pairs, an odd last byte dropped. -/
def pairs : List UInt8 → List (UInt8 × UInt8)
  | hi :: lo :: rest => (hi, lo) :: pairs rest
  | _ => []

def hexByte (hi lo : UInt8) : Option UInt8 := do
  let high ← hexNibble hi
  let low ← hexNibble lo
  pure ((high <<< 4) ||| low)

/-- `try_hex_to_bytes`: every pair must be two hex digits, and none may be left over. -/
def tryHexToBytes (s : String) : Option (List UInt8) :=
  let bytes := BinaryJson.utf8Bytes s
  if bytes.length % 2 ≠ 0 then none
  else (pairs bytes).mapM fun (hi, lo) => hexByte hi lo

/-- The loop of `hex_to_bytes`: decoded pairs up to the first that fails. -/
def hexPrefix : List (UInt8 × UInt8) → List UInt8
  | [] => []
  | (hi, lo) :: rest =>
      match hexByte hi lo with
      | some byte => byte :: hexPrefix rest
      | none => []

/-- `hex_to_bytes`: lenient, it stops at the first malformed pair. -/
def hexToBytes (s : String) : List UInt8 := hexPrefix (pairs (BinaryJson.utf8Bytes s))

namespace EffectivePartitionKey

/-- `EffectivePartitionKey::MIN`, the empty key. -/
def min : EffectivePartitionKey := ⟨[]⟩

/-- `EffectivePartitionKey::MAX`, the exclusive upper bound `FF`. -/
def max : EffectivePartitionKey := ⟨[0xFF]⟩

def canonicalBytes (k : EffectivePartitionKey) : List UInt8 := canonicalSlice k.bytes

/-- `impl Ord for EffectivePartitionKey`. -/
def cmp (a b : EffectivePartitionKey) : Ordering :=
  let common := Nat.min a.bytes.length b.bytes.length
  match compare (a.bytes.take common) (b.bytes.take common) with
  | .eq =>
      let tail := if a.bytes.length > b.bytes.length then a.bytes.drop common
        else b.bytes.drop common
      if tail.all (· == 0) then .eq
      else if a.bytes.length > b.bytes.length then .gt
      else .lt
  | other => other

/-- `impl PartialEq for EffectivePartitionKey`. -/
def eq (a b : EffectivePartitionKey) : Bool := a.canonicalBytes == b.canonicalBytes

/-- `impl Hash for EffectivePartitionKey`: the canonical bytes are what a hasher is
fed, so a hash is any function of them. -/
def hash {α : Type} (hasher : List UInt8 → α) (k : EffectivePartitionKey) : α :=
  hasher k.canonicalBytes

/-- `impl PartialEq<str> for EffectivePartitionKey`: parsed strictly, compared
canonically. -/
def eqStr (k : EffectivePartitionKey) (other : String) : Bool :=
  match tryHexToBytes other with
  | some bytes => k.canonicalBytes == canonicalSlice bytes
  | none => false

/-- `impl From<&str> for EffectivePartitionKey`. -/
def fromStr (s : String) : EffectivePartitionKey := ⟨hexToBytes s⟩

instance : Ord EffectivePartitionKey := ⟨cmp⟩

instance : BEq EffectivePartitionKey := ⟨eq⟩

end EffectivePartitionKey

/-! ## Canonical bytes are the padding-stripped bytes -/

theorem canonicalSlice_append_zero (bytes : List UInt8) :
    canonicalSlice (bytes ++ [0]) = canonicalSlice bytes := by
  simp only [canonicalSlice, List.reverse_append, List.reverse_singleton, List.singleton_append,
    List.findIdx?_cons, bne_self_eq_false, Bool.false_eq_true, if_false, List.length_append,
    List.length_singleton]
  cases found : bytes.reverse.findIdx? (· != 0) with
  | none => simp
  | some fromBack =>
      -- the last non-zero byte is inside `bytes`, so the cut leaves the new zero out
      have inside : fromBack < bytes.length := by
        have := List.findIdx?_eq_some_iff_findIdx_eq.mp found
        simpa using this.1
      simp only [Option.map_some]
      rw [show bytes.length + 1 - (fromBack + 1) = bytes.length - fromBack by omega,
        List.take_append_of_le_length (by omega)]

theorem canonicalSlice_append_of_ne (bytes : List UInt8) {last : UInt8} (nonzero : last ≠ 0) :
    canonicalSlice (bytes ++ [last]) = bytes ++ [last] := by
  have kept : (last != 0) = true := by simpa using nonzero
  simp [canonicalSlice, List.findIdx?_cons, kept]

theorem canonicalSlice_eq_strip (bytes : List UInt8) : canonicalSlice bytes = Padding.strip 0 bytes := by
  induction bytes using List.reverseRecOn with
  | nil => rfl
  | append_singleton front last induction =>
      rw [Padding.strip_append]
      by_cases zero : last = 0
      · subst zero
        simp [canonicalSlice_append_zero, induction, Padding.strip]
      · rw [canonicalSlice_append_of_ne front zero, Padding.strip_cons_of_ne 0 zero]
        simp

namespace EffectivePartitionKey

/-! ## The order is the padded comparison -/

theorem cmp_nil_left (bytes : List UInt8) :
    cmp ⟨[]⟩ ⟨bytes⟩ = if bytes.all (· == 0) then .eq else .lt := by
  simp [cmp]

theorem cmp_nil_right (x : UInt8) (rest : List UInt8) :
    cmp ⟨x :: rest⟩ ⟨[]⟩ = if (x :: rest).all (· == 0) then .eq else .gt := by
  simp [cmp]

theorem cmp_cons_cons (x y : UInt8) (xs ys : List UInt8) :
    cmp ⟨x :: xs⟩ ⟨y :: ys⟩ = (compare x y).then (cmp ⟨xs⟩ ⟨ys⟩) := by
  have common : Nat.min (xs.length + 1) (ys.length + 1) = Nat.min xs.length ys.length + 1 := by
    simp [Nat.min_def]
    split_ifs <;> omega
  have longer : (xs.length + 1 > ys.length + 1) = (xs.length > ys.length) := by
    simp
  simp only [cmp, List.length_cons, common, List.take_succ_cons, List.drop_succ_cons,
    List.compare_cons_cons, longer]
  cases compare x y <;> rfl

theorem cmp_eq_padCompare (a b : EffectivePartitionKey) :
    a.cmp b = Padding.padCompare 0 a.bytes b.bytes := by
  obtain ⟨xs⟩ := a
  obtain ⟨ys⟩ := b
  induction xs generalizing ys with
  | nil => simp [cmp_nil_left, Padding.padCompare]
  | cons x xs induction =>
      cases ys with
      | nil => simp [cmp_nil_right, Padding.padCompare]
      | cons y ys => rw [cmp_cons_cons, induction ys, Padding.padCompare]

theorem compare_zero_ne_gt (x : UInt8) : compare (0 : UInt8) x ≠ .gt := by
  rw [Ne, Std.compare_eq_gt]
  exact UInt8.not_lt.mpr UInt8.zero_le

theorem cmp_eq_compare_canonicalBytes (a b : EffectivePartitionKey) :
    a.cmp b = compare a.canonicalBytes b.canonicalBytes := by
  rw [cmp_eq_padCompare, Padding.padCompare_eq_compare_strip 0 compare_zero_ne_gt, canonicalBytes,
    canonicalBytes, canonicalSlice_eq_strip, canonicalSlice_eq_strip]

theorem eq_iff_cmp_eq (a b : EffectivePartitionKey) : a.eq b = true ↔ a.cmp b = .eq := by
  rw [cmp_eq_compare_canonicalBytes, Std.LawfulEqCmp.compare_eq_iff_eq]
  simp [eq]

/-! ## The laws of a total order -/

theorem cmp_self (a : EffectivePartitionKey) : a.cmp a = .eq := by
  rw [cmp_eq_compare_canonicalBytes]
  exact Std.ReflCmp.compare_self

theorem cmp_swap (a b : EffectivePartitionKey) : b.cmp a = (a.cmp b).swap := by
  rw [cmp_eq_compare_canonicalBytes, cmp_eq_compare_canonicalBytes]
  exact Std.OrientedCmp.eq_swap

theorem cmp_le_trans {a b c : EffectivePartitionKey} (first : a.cmp b ≠ .gt) (second : b.cmp c ≠ .gt) :
    a.cmp c ≠ .gt := by
  rw [cmp_eq_compare_canonicalBytes] at first second ⊢
  exact Std.TransCmp.le_trans first second

theorem cmp_lt_trans {a b c : EffectivePartitionKey} (first : a.cmp b = .lt) (second : b.cmp c = .lt) :
    a.cmp c = .lt := by
  rw [cmp_eq_compare_canonicalBytes] at first second ⊢
  exact Std.TransCmp.lt_trans first second

theorem eq_of_cmp_ne_gt {a b : EffectivePartitionKey} (below : a.cmp b ≠ .gt) (above : b.cmp a ≠ .gt) :
    a.eq b = true := by
  rw [eq_iff_cmp_eq]
  rw [cmp_swap a b] at above
  cases order : a.cmp b with
  | lt => rw [order] at above; exact absurd rfl above
  | eq => rfl
  | gt => exact absurd order below

/-- `impl PartialOrd for EffectivePartitionKey` is `Some(self.cmp(other))`, so `<=` and `<`
are read off `cmp`; keys equal under `==` are equivalent, not identical. -/
instance : Preorder EffectivePartitionKey where
  le a b := a.cmp b ≠ .gt
  lt a b := a.cmp b = .lt
  le_refl a := by simp [cmp_self]
  le_trans _ _ _ := cmp_le_trans
  lt_iff_le_not_ge a b := by
    rw [cmp_swap a b]
    cases a.cmp b <;> decide

instance (a b : EffectivePartitionKey) : Decidable (a < b) :=
  inferInstanceAs (Decidable (a.cmp b = .lt))

instance (a b : EffectivePartitionKey) : Decidable (a ≤ b) :=
  inferInstanceAs (Decidable (a.cmp b ≠ .gt))

theorem le_iff_cmp (a b : EffectivePartitionKey) : a ≤ b ↔ a.cmp b ≠ .gt := Iff.rfl

theorem lt_iff_cmp (a b : EffectivePartitionKey) : a < b ↔ a.cmp b = .lt := Iff.rfl

theorem gt_iff_cmp (a b : EffectivePartitionKey) : b < a ↔ a.cmp b = .gt := by
  rw [lt_iff_cmp, cmp_swap a b]
  cases a.cmp b <;> decide

theorem lt_iff_not_le (a b : EffectivePartitionKey) : a < b ↔ ¬ b ≤ a := by
  rw [lt_iff_cmp, le_iff_cmp, cmp_swap a b]
  cases a.cmp b <;> decide

theorem le_total (a b : EffectivePartitionKey) : a ≤ b ∨ b ≤ a := by
  rw [le_iff_cmp, le_iff_cmp, cmp_swap a b]
  cases a.cmp b <;> decide

theorem cmp_eq_iff_antisymmRel (a b : EffectivePartitionKey) :
    a.cmp b = .eq ↔ AntisymmRel (· ≤ ·) a b := by
  change a.cmp b = .eq ↔ a.cmp b ≠ .gt ∧ b.cmp a ≠ .gt
  rw [cmp_swap a b]
  cases a.cmp b <;> decide

theorem min_le (a : EffectivePartitionKey) : min ≤ a := by
  rw [le_iff_cmp, cmp_eq_padCompare]
  simp only [min, Padding.padCompare]
  split <;> decide

theorem hash_eq_of_eq {α : Type} (hasher : List UInt8 → α) {a b : EffectivePartitionKey}
    (same : a.eq b = true) : a.hash hasher = b.hash hasher := by
  have bytes : a.canonicalBytes = b.canonicalBytes := by simpa [eq] using same
  simp only [hash, bytes]

/-! ## Hex strings -/

theorem mapM_hexByte_of_valid (chunks : List (UInt8 × UInt8))
    (valid : ∀ pair ∈ chunks, (hexByte pair.1 pair.2).isSome) :
    chunks.mapM (fun (hi, lo) => hexByte hi lo) = some (hexPrefix chunks) := by
  induction chunks with
  | nil => rfl
  | cons pair rest induction =>
      obtain ⟨hi, lo⟩ := pair
      obtain ⟨byte, decoded⟩ := Option.isSome_iff_exists.mp (valid (hi, lo) List.mem_cons_self)
      have others := induction (fun other member => valid other (List.mem_cons_of_mem _ member))
      simp [List.mapM_cons, decoded, others, hexPrefix]

def IsHexDigits (s : String) : Prop := ∀ c ∈ BinaryJson.utf8Bytes s, (hexNibble c).isSome

theorem pairs_valid {bytes : List UInt8} (digits : ∀ c ∈ bytes, (hexNibble c).isSome) :
    ∀ pair ∈ pairs bytes, (hexByte pair.1 pair.2).isSome := by
  induction bytes using pairs.induct with
  | case1 hi lo rest induction =>
      intro pair member
      simp only [pairs, List.mem_cons] at member
      rcases member with rfl | later
      · obtain ⟨high, highOk⟩ := Option.isSome_iff_exists.mp (digits hi (by simp))
        obtain ⟨low, lowOk⟩ := Option.isSome_iff_exists.mp (digits lo (by simp))
        simp [hexByte, highOk, lowOk]
      · exact induction (fun c member => digits c (by simp [member])) pair later
  | case2 bytes short =>
      intro pair member
      cases bytes with
      | nil => simp [pairs] at member
      | cons b rest =>
          cases rest with
          | nil => simp [pairs] at member
          | cons c rest => exact absurd rfl (short b c rest)

theorem tryHexToBytes_of_hexDigits {s : String} (digits : IsHexDigits s)
    (even : (BinaryJson.utf8Bytes s).length % 2 = 0) : tryHexToBytes s = some (hexToBytes s) := by
  simp only [tryHexToBytes, even, ne_eq, not_true_eq_false, if_false, hexToBytes]
  exact mapM_hexByte_of_valid _ (pairs_valid digits)

theorem eqStr_of_hexDigits (k : EffectivePartitionKey) {s : String} (digits : IsHexDigits s)
    (even : (BinaryJson.utf8Bytes s).length % 2 = 0) : k.eqStr s = k.eq (fromStr s) := by
  simp only [eqStr, tryHexToBytes_of_hexDigits digits even]
  rfl

theorem order_agrees_with_eq_and_hash :
    (∀ a b : EffectivePartitionKey,
      a.cmp b = compare (canonicalSlice a.bytes) (canonicalSlice b.bytes)) ∧
    (∀ a : EffectivePartitionKey, a.cmp a = .eq) ∧
    (∀ a b : EffectivePartitionKey, b.cmp a = (a.cmp b).swap) ∧
    (∀ a b : EffectivePartitionKey, a.cmp b ≠ .gt → b.cmp a ≠ .gt → a.eq b = true) ∧
    (∀ a b c : EffectivePartitionKey, a.cmp b ≠ .gt → b.cmp c ≠ .gt → a.cmp c ≠ .gt) ∧
    (∀ a b c : EffectivePartitionKey, a.cmp b = .lt → b.cmp c = .lt → a.cmp c = .lt) ∧
    (∀ a b : EffectivePartitionKey, a.eq b = true ↔ a.cmp b = .eq) ∧
    (∀ (α : Type) (hasher : List UInt8 → α) (a b : EffectivePartitionKey),
      a.eq b = true → a.hash hasher = b.hash hasher) ∧
    (∀ (k : EffectivePartitionKey) (s : String), IsHexDigits s →
      (BinaryJson.utf8Bytes s).length % 2 = 0 → k.eqStr s = k.eq (fromStr s)) :=
  ⟨cmp_eq_compare_canonicalBytes, cmp_self, cmp_swap, fun _ _ => eq_of_cmp_ne_gt,
    fun _ _ _ => cmp_le_trans, fun _ _ _ => cmp_lt_trans, eq_iff_cmp_eq,
    fun _ hasher _ _ => hash_eq_of_eq hasher, fun k _ => eqStr_of_hexDigits k⟩

end EffectivePartitionKey

end CosmosDriver
