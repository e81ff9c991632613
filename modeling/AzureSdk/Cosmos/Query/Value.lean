import AzureSdk.Cosmos.Query.Syntax
import AzureSdk.Cosmos.Dataflow.OrderBy

/-!
# Query values

`query/value`: `CosmosValue`, the evaluator's runtime value, with the equality and the
order of Cosmos SQL. Equality is `Undefined` when either side is, and across types;
numbers compare as doubles, an `i64` widened by `as f64`; arrays and objects compare
structurally. A JSON number becomes an `Integer` when `as_i64` reads it, else a `Number`.
-/

namespace CosmosDriver.Query

open BinaryJson (Value Number)
open Binary64 (F64)

set_option autoImplicit false

/-- `serde_json::Number::as_f64`: an integer widened by `as f64`, a float as it is. -/
def numberAsF64 : Number → F64
  | .posInt u => F64.ofNat u.toNat
  | .negInt i _ => F64.ofInt i.toInt
  | .float f _ => ⟨f.bits⟩

theorem isFinite_of_bits {f : BinaryJson.F64} (finite : f.isFinite = true) : (⟨f.bits⟩ : F64).isFinite = true := by
  have exponentField : ((f.bits >>> 52) &&& 0x7FF).toNat = f.bits.toNat / 2 ^ 52 % 2 ^ 11 := by
    rw [UInt64.toNat_and, UInt64.toNat_shiftRight, show (0x7FF : UInt64).toNat = 2 ^ 11 - 1 from rfl,
      Nat.and_two_pow_sub_one_eq_mod]
    simp [Nat.shiftRight_eq_div_pow]
  simp only [BinaryJson.F64.isFinite, bne_iff_ne, ne_eq] at finite
  unfold F64.isFinite
  apply decide_eq_true
  unfold F64.exponent
  intro allOnes
  apply finite
  apply UInt64.toNat_inj.mp
  rw [exponentField, allOnes]
  rfl

theorem isFinite_numberAsF64 (n : Number) : (numberAsF64 n).isFinite = true := by
  cases n with
  | posInt u => exact F64.isFinite_ofNat u.toNat_lt
  | negInt i _ =>
    have fits : i.toInt.natAbs < 2 ^ 64 := by
      have bounds := Int64.toInt_lt i
      have lower := Int64.le_toInt i
      omega
    exact F64.isFinite_ofInt fits
  | float f finite => exact isFinite_of_bits finite

theorem numberAsF64_of_asI64 {n : Number} {i : Int64} (read : n.asI64 = some i) :
    numberAsF64 n = F64.ofInt i.toInt := by
  cases n with
  | posInt u =>
    simp only [Number.asI64, Option.ite_none_right_eq_some, Option.some.injEq] at read
    obtain ⟨small, rfl⟩ := read
    have below : u.toNat < 2 ^ 63 := by
      have := UInt64.le_iff_toNat_le.mp small
      simp only [UInt64.reduceToNat] at this
      omega
    have value : u.toInt64.toInt = (u.toNat : Int) := by
      rw [← Int64.toInt_toBitVec, BitVec.toInt_eq_toNat_of_lt]
      · rfl
      · show 2 * u.toNat < 2 ^ 64
        omega
    rw [value]
    simp [numberAsF64, F64.ofInt]
  | negInt j _ =>
    simp only [Number.asI64, Option.some.injEq] at read
    rw [← read]
    rfl
  | float _ _ => simp [Number.asI64] at read

/-- `serde_json::Value::get` with a key: an object's entry, nothing for other values. -/
def jsonGet (value : Value) (key : String) : Option Value :=
  match value with
  | .object entries => SortedMap.get entries key
  | _ => none

inductive CosmosValue where
  | null
  | boolean (b : Bool)
  | number (n : F64)
  | integer (n : Int64)
  | string (s : String)
  | array (items : List CosmosValue)
  | object (props : List (String × CosmosValue))
  | undefined

namespace CosmosValue

inductive TypeOrder where
  | null
  | boolean
  | number
  | string
  | array
  | object
  deriving DecidableEq, Repr

/-- `type_order`: both numeric variants are `Number`; `Undefined` has none. -/
def typeOrder : CosmosValue → Option TypeOrder
  | .null => some .null
  | .boolean _ => some .boolean
  | .number _ | .integer _ => some .number
  | .string _ => some .string
  | .array _ => some .array
  | .object _ => some .object
  | .undefined => none

/-- `matches!(value, CosmosValue::Boolean(true))`. -/
def isTrue : CosmosValue → Bool
  | .boolean true => true
  | _ => false

theorem isTrue_iff {value : CosmosValue} : value.isTrue = true ↔ value = .boolean true := by
  cases value with
  | boolean b => cases b <;> simp [isTrue]
  | _ => simp [isTrue]

def isUndefined : CosmosValue → Bool
  | .undefined => true
  | _ => false

mutual
/-- `cosmos_eq`. The array and object arms are `structural_eq`, the only pairs of one type
that the earlier arms leave. -/
def cosmosEq : CosmosValue → CosmosValue → CosmosValue
  | .undefined, _ => .undefined
  | .null, other =>
      match other with
      | .undefined => .undefined
      | .null => .boolean true
      | _ => .undefined
  | .boolean a, other =>
      match other with
      | .undefined => .undefined
      | .boolean b => .boolean (a == b)
      | _ => .undefined
  | .number a, other =>
      match other with
      | .undefined => .undefined
      | .number b => .boolean (a.beq b)
      | .integer b => .boolean (a.beq (F64.ofInt b.toInt))
      | _ => .undefined
  | .integer a, other =>
      match other with
      | .undefined => .undefined
      | .integer b => .boolean (a == b)
      | .number b => .boolean ((F64.ofInt a.toInt).beq b)
      | _ => .undefined
  | .string a, other =>
      match other with
      | .undefined => .undefined
      | .string b => .boolean (a == b)
      | _ => .undefined
  | .array a, other =>
      match other with
      | .undefined => .undefined
      | .array b => .boolean (a.length == b.length && itemsEq a b)
      | _ => .undefined
  | .object a, other =>
      match other with
      | .undefined => .undefined
      | .object b => .boolean (a.length == b.length && propsEq a b)
      | _ => .undefined

/-- The zip of `structural_eq` on arrays: every pair equal. -/
def itemsEq : List CosmosValue → List CosmosValue → Bool
  | a :: as, b :: bs => (cosmosEq a b).isTrue && itemsEq as bs
  | _, _ => true

/-- The loop of `structural_eq` on objects: every key of the left found on the right,
its first entry there equal. -/
def propsEq : List (String × CosmosValue) → List (String × CosmosValue) → Bool
  | [], _ => true
  | (key, value) :: rest, other =>
      match other.lookup key with
      | some otherValue => (cosmosEq value otherValue).isTrue && propsEq rest other
      | none => false
end

/-- `cosmos_cmp`: `None` across types, for `Undefined`, for arrays and objects, and when a
double is NaN. Strings compare by their UTF-16 code units. -/
def cosmosCmp : CosmosValue → CosmosValue → Option Ordering
  | .null, .null => some .eq
  | .boolean a, .boolean b => some (compare a b)
  | .number a, .number b => a.partialCmp b
  | .integer a, .integer b => some (compare a b)
  | .number a, .integer b => a.partialCmp (F64.ofInt b.toInt)
  | .integer a, .number b => (F64.ofInt a.toInt).partialCmp b
  | .string a, .string b => some (OrderBy.compareStrings a b)
  | _, _ => none

mutual
def fromJson : Value → CosmosValue
  | .null => .null
  | .bool b => .boolean b
  | .number n =>
      match n.asI64 with
      | some i => .integer i
      | none => .number (numberAsF64 n)
  | .string s => .string s
  | .array items => .array (fromJsonItems items)
  | .object entries => .object (fromJsonEntries entries)

def fromJsonItems : List Value → List CosmosValue
  | [] => []
  | item :: items => fromJson item :: fromJsonItems items

def fromJsonEntries : List (String × Value) → List (String × CosmosValue)
  | [] => []
  | (key, value) :: entries => (key, fromJson value) :: fromJsonEntries entries
end

end CosmosValue

end CosmosDriver.Query
