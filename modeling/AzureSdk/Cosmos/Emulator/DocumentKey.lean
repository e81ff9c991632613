import AzureSdk.Cosmos.Query.Value
import AzureSdk.Cosmos.Models.EffectivePartitionKeyCompute
import AzureSdk.Lib.Except
import AzureSdk.Cosmos.Models.RequestCharge

/-!
# The partition key of a stored document

`in_memory_emulator/epk`: `extract_pk_from_body` reads a document's partition key, one
component per path. A path's leading slashes are trimmed and its segments looked up object
by object; a missing property reads as `Undefined`, and an intermediate that is no object
or a leaf that is no scalar is rejected. A number is stored by `FiniteF64::new_lossy`,
which writes both zeros as `+0.0`.

`jsonPath` is the lookup of a path by itself, and `KeyComponent` what a stored component
says of it: the path is missing and the component `Undefined`, or the path holds a scalar
and the component is that scalar's.
-/

namespace CosmosDriver.Emulator

open BinaryJson (Value)
open Binary64 (F64)
open Query (numberAsF64 jsonGet)
open FiniteF64 (newLossy)

set_option autoImplicit false

/-- `PartitionKeyValue::from(f64)`, which is `new_strict`: `new_lossy` after an assertion
that the value is finite, which every caller has checked before. -/
def pkNumber (value : F64) : PartitionKeyValue := .number (newLossy value).bits

/-- `json_to_pk_component`. `as_f64` reads every number, so only finiteness is checked. -/
def jsonToPkComponent : Value → Except String PartitionKeyValue
  | .null => .ok .null
  | .bool b => .ok (.bool b)
  | .string s => .ok (.string s)
  | .number n =>
      if !(numberAsF64 n).isFinite then
        .error "partition key numbers must be finite (NaN and Infinity are not allowed)"
      else .ok (pkNumber (numberAsF64 n))
  | .array _ => .error "partition key components must be scalar (null, bool, number, or string)"
  | .object _ => .error "partition key components must be scalar (null, bool, number, or string)"

/-- The loop of `extract_pk_at_path` over the segments. -/
def walkSegments : Value → List String → Except String PartitionKeyValue
  | _, [] => .ok .undefined
  | current, segment :: rest =>
      match current with
      | .object entries =>
          match SortedMap.get entries segment with
          | some next => if rest.isEmpty then jsonToPkComponent next else walkSegments next rest
          | none => .ok .undefined
      | _ => .error ("partition key path component \x27" ++ segment ++ "\x27 encountered a non-object intermediate")

/-- `extract_pk_at_path`: an empty path names the body itself. -/
def extractPkAtPath (body : Value) (path : String) : Except String PartitionKeyValue :=
  let pathStr := path.toList.dropWhile (· = '/')
  if pathStr.isEmpty then jsonToPkComponent body
  else walkSegments body ((pathStr.splitOn '/').map String.ofList)

def extractPkFromBody (body : Value) (pkPaths : List String) : Except String (List PartitionKeyValue) :=
  match body with
  | .object _ => pkPaths.mapM (extractPkAtPath body)
  | _ => .error "document body must be a JSON object to extract a partition key"

/-! ## What a stored key says of the document -/

def jsonPath : Value → List String → Option Value
  | value, [] => some value
  | value, segment :: rest => (jsonGet value segment).bind fun next => jsonPath next rest

theorem jsonPath_append : ∀ (value : Value) (path more : List String),
    jsonPath value (path ++ more) = (jsonPath value path).bind fun found => jsonPath found more
  | _, [], _ => rfl
  | value, segment :: rest, more => by
    simp only [List.cons_append, jsonPath, Option.bind_assoc]
    congr 1
    funext next
    exact jsonPath_append next rest more

def KeyComponent (doc : Value) (path : List String) (component : PartitionKeyValue) : Prop :=
  (jsonPath doc path = none ∧ component = .undefined) ∨
    ∃ value, jsonPath doc path = some value ∧ jsonToPkComponent value = .ok component

theorem jsonToPkComponent_number (n : BinaryJson.Number) :
    jsonToPkComponent (.number n) = .ok (pkNumber (numberAsF64 n)) := by
  simp [jsonToPkComponent, Query.isFinite_numberAsF64]

theorem keyComponent_of_walkSegments :
    ∀ {doc : Value} {path : List String} {component : PartitionKeyValue},
      path ≠ [] → walkSegments doc path = .ok component → KeyComponent doc path component
  | _, [], _, nonEmpty, _ => absurd rfl nonEmpty
  | doc, segment :: rest, component, _, walked => by
    cases doc with
    | object entries =>
      unfold walkSegments at walked
      dsimp only at walked
      unfold KeyComponent
      cases found : SortedMap.get entries segment with
      | none =>
        rw [found] at walked
        cases walked
        left
        simp [jsonPath, jsonGet, found]
      | some next =>
        rw [found] at walked
        dsimp only at walked
        by_cases last : rest = []
        · subst last
          right
          exact ⟨next, by simp [jsonPath, jsonGet, found], by simpa using walked⟩
        · rw [if_neg (by simpa using last)] at walked
          have deeper := keyComponent_of_walkSegments last walked
          simpa [KeyComponent, jsonPath, jsonGet, found] using deeper
    | null | bool _ | number _ | string _ | array _ => simp [walkSegments] at walked

/-- A component as the emulator stores it: never `Infinity`, a number as `new_lossy` left it. -/
inductive StoredComponent : PartitionKeyValue → Prop
  | null : StoredComponent .null
  | string (s : String) : StoredComponent (.string s)
  | number (bits : UInt64) (canonical : newLossy ⟨bits⟩ = ⟨bits⟩) : StoredComponent (.number bits)
  | bool (b : Bool) : StoredComponent (.bool b)
  | undefined : StoredComponent .undefined

theorem extractPkFromBody_eq_ok {body : Value} {pkPaths : List String} {key : List PartitionKeyValue}
    (extracted : extractPkFromBody body pkPaths = .ok key) :
    (∃ entries, body = .object entries) ∧
      List.Forall₂ (fun path component => extractPkAtPath body path = .ok component) pkPaths key := by
  cases body with
  | object entries => exact ⟨⟨entries, rfl⟩, Except.mapM_eq_ok_iff.mp extracted⟩
  | null | bool _ | number _ | string _ | array _ => simp [extractPkFromBody] at extracted

theorem keyComponent_of_extractPkAtPath {entries : List (String × Value)} {path : String}
    {component : PartitionKeyValue} (extracted : extractPkAtPath (.object entries) path = .ok component) :
    KeyComponent (.object entries) (((path.toList.dropWhile (· = '/')).splitOn '/').map String.ofList) component := by
  unfold extractPkAtPath at extracted
  dsimp only at extracted
  split at extracted
  · simp [jsonToPkComponent] at extracted
  · have segments : ((path.toList.dropWhile (· = '/')).splitOn '/').map String.ofList ≠ [] := by
      simp
    exact keyComponent_of_walkSegments segments extracted

end CosmosDriver.Emulator
