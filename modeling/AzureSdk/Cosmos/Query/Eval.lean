import AzureSdk.Cosmos.Query.Value
import AzureSdk.Cosmos.Query.Like
import AzureSdk.Lib.Except

/-!
# Evaluating WHERE clauses

`query/eval`: `eval_scalar` reads an expression against one JSON document, the root alias
naming the whole document; `eval_where` keeps the document when the clause is `true`, so
that `false`, `Undefined` and every other value drop it; the first step of
`query_documents` filters the documents of a plain-root query, and expands each document
into its binding contexts (JOIN, `IN`, a FROM path) before it filters otherwise.

Two things come from outside, as parameters (`Builtins`): IEEE arithmetic on doubles
(`+ - * / %`) and `eval_function`, the table of built-in functions. The rest is computed as
the source computes it: integer arithmetic checked and promoted to doubles on overflow,
the bitwise operators on saturated `as i64` casts, three-valued `AND` and `OR`.
-/

namespace CosmosDriver.Query

open BinaryJson (Value)
open Binary64 (F64)
open CosmosValue

set_option autoImplicit false

inductive EvalError where
  | unsupported (s : String)
  | unknownFunction (s : String)
  | typeError (s : String)
  | parameterNotFound (s : String)
  deriving DecidableEq, Repr

/-- `Display for EvalError`. -/
def EvalError.toString : EvalError → String
  | .unsupported s => "unsupported expression: " ++ s
  | .unknownFunction s => "unknown function: " ++ s
  | .typeError s => "type error: " ++ s
  | .parameterNotFound s => "parameter not found: @" ++ s

/-- What the evaluator takes from outside: the IEEE operations on doubles, and
`eval_function`. -/
structure Builtins where
  add : F64 → F64 → F64
  sub : F64 → F64 → F64
  mul : F64 → F64 → F64
  div : F64 → F64 → F64
  rem : F64 → F64 → F64
  evalFunction : String → List CosmosValue → Except EvalError CosmosValue

def evalLiteral : SqlLiteral → CosmosValue
  | .string s => .string s
  | .number n => .number n
  | .integer n => .integer n
  | .boolean b => .boolean b
  | .null => .null
  | .undefined => .undefined

/-- `member_access`: the first property of that name. -/
def memberAccess (source : CosmosValue) (member : String) : CosmosValue :=
  match source with
  | .object props => (props.lookup member).getD .undefined
  | _ => .undefined

/-- `indexer_access`. A double index must be a non-negative integer (`fract() == 0.0`,
which no infinity or NaN passes) and is then cast `as usize`. -/
def indexerAccess (source index : CosmosValue) : CosmosValue :=
  match source, index with
  | .array arr, .number n =>
      if n.lt F64.zero || !n.isIntegral then .undefined else arr.getD n.toUsizeSaturating .undefined
  | .array arr, .integer n => if n < 0 then .undefined else arr.getD n.toInt.toNat .undefined
  | .object props, .string key => (props.lookup key).getD .undefined
  | _, _ => .undefined

/-- `as_bool`: only a Boolean is an operand of the logical operators. -/
def asBool : CosmosValue → Option Bool
  | .boolean b => some b
  | _ => none

/-- `eval_and`: `false` wins, then `Undefined`. -/
def evalAnd (left right : CosmosValue) : CosmosValue :=
  match asBool left, asBool right with
  | some false, _ => .boolean false
  | _, some false => .boolean false
  | some true, some true => .boolean true
  | _, _ => .undefined

/-- `eval_or`: `true` wins, then `Undefined`. -/
def evalOr (left right : CosmosValue) : CosmosValue :=
  match asBool left, asBool right with
  | some true, _ => .boolean true
  | _, some true => .boolean true
  | some false, some false => .boolean false
  | _, _ => .undefined

/-- The arms of `eval_binary` for `<`, `>`, `<=` and `>=`: `Undefined` when `cosmos_cmp`
finds no order, else whether the order is one the operator accepts. -/
def comparison (accepts : Ordering → Bool) (left right : CosmosValue) : CosmosValue :=
  match cosmosCmp left right with
  | some order => .boolean (accepts order)
  | none => .undefined

/-- `i64::checked_add`, `checked_sub` and `checked_mul`: the exact result, when it fits. -/
def checkedOp (f : Int → Int → Int) (a b : Int64) : Option Int64 :=
  let r := f a.toInt b.toInt
  if -2 ^ 63 ≤ r ∧ r < 2 ^ 63 then some (Int64.ofInt r) else none

/-- `numeric_op`: both sides widened to doubles. -/
def numericOp (left right : CosmosValue) (f : F64 → F64 → Option F64) : CosmosValue :=
  let pair : Option (F64 × F64) :=
    match left, right with
    | .number a, .number b => some (a, b)
    | .integer a, .integer b => some (F64.ofInt a.toInt, F64.ofInt b.toInt)
    | .number a, .integer b => some (a, F64.ofInt b.toInt)
    | .integer a, .number b => some (F64.ofInt a.toInt, b)
    | _, _ => none
  match pair.bind fun operands => f operands.1 operands.2 with
  | some n => .number n
  | none => .undefined

/-- `arith_op`: two integers stay integers unless the checked operation overflows, and are
then widened, a non-finite result dropped. -/
def arithOp (left right : CosmosValue) (intFn : Int64 → Int64 → Option Int64)
    (floatFn : F64 → F64 → Option F64) : CosmosValue :=
  match left, right with
  | .integer a, .integer b =>
      match intFn a b with
      | some r => .integer r
      | none =>
          match floatFn (F64.ofInt a.toInt) (F64.ofInt b.toInt) with
          | some r => if r.isFinite then .number r else .undefined
          | none => .undefined
  | _, _ => numericOp left right floatFn

/-- The `to_i64` of `int_op`: a double cast `as i64`. -/
def toI64 : CosmosValue → Option Int64
  | .number n => some n.toInt64Saturating
  | .integer n => some n
  | _ => none

def intOp (left right : CosmosValue) (f : Int64 → Int64 → Int64) : CosmosValue :=
  match toI64 left, toI64 right with
  | some a, some b => .integer (f a b)
  | _, _ => .undefined

/-- The closures of `Divide` and `Modulo`: nothing for a zero divisor or a non-finite
result. -/
def checkedDivision (op : F64 → F64 → F64) (a b : F64) : Option F64 :=
  if b.beq F64.zero then none
  else
    let r := op a b
    if r.isFinite then some r else none

def evalBinary (builtins : Builtins) (op : SqlBinaryOp) (left right : CosmosValue) : CosmosValue :=
  match op with
  | .equal => cosmosEq left right
  | .notEqual =>
      match cosmosEq left right with
      | .boolean b => .boolean !b
      | other => other
  | .lessThan => comparison (fun order => order == .lt) left right
  | .greaterThan => comparison (fun order => order == .gt) left right
  | .lessThanOrEqual => comparison (fun order => order == .lt || order == .eq) left right
  | .greaterThanOrEqual => comparison (fun order => order == .gt || order == .eq) left right
  | .and => evalAnd left right
  | .or => evalOr left right
  | .add => arithOp left right (checkedOp (· + ·)) fun a b => some (builtins.add a b)
  | .subtract => arithOp left right (checkedOp (· - ·)) fun a b => some (builtins.sub a b)
  | .multiply => arithOp left right (checkedOp (· * ·)) fun a b => some (builtins.mul a b)
  | .divide => numericOp left right (checkedDivision builtins.div)
  | .modulo => numericOp left right (checkedDivision builtins.rem)
  | .stringConcat =>
      match left, right with
      | .string a, .string b => .string (a ++ b)
      | _, _ => .undefined
  | .bitwiseAnd => intOp left right (· &&& ·)
  | .bitwiseOr => intOp left right (· ||| ·)
  | .bitwiseXor => intOp left right (· ^^^ ·)
  | .leftShift => intOp left right fun a b => a <<< (b &&& 0x3F)
  | .rightShift => intOp left right fun a b => a >>> (b &&& 0x3F)
  | .zeroFillRightShift => intOp left right fun a b => (a.toUInt64 >>> (b.toUInt64 &&& 0x3F)).toInt64

/-- `eval_unary`. `-i64::MIN` wraps, as `wrapping_neg` does. -/
def evalUnary (op : SqlUnaryOp) (value : CosmosValue) : CosmosValue :=
  match op, value with
  | .not, .boolean b => .boolean !b
  | .not, _ => .undefined
  | .minus, .number n => .number n.neg
  | .minus, .integer n => .integer (-n)
  | .minus, _ => .undefined
  | .plus, .number n => .number n
  | .plus, .integer n => .integer n
  | .plus, _ => .undefined
  | .bitwiseNot, .number n => if n.isIntegral then .integer (~~~n.toInt64Saturating) else .undefined
  | .bitwiseNot, .integer n => .integer (~~~n)
  | .bitwiseNot, _ => .undefined

section Scalar

variable (builtins : Builtins) (doc : Value) (rootAlias : Option String) (params : Params)

mutual
def evalScalar : SqlScalarExpression → Except EvalError CosmosValue
  | .literal lit => pure (evalLiteral lit)
  | .propertyRef name =>
      -- the root alias is the whole document; any other name is one of its properties
      if rootAlias = some name then pure (fromJson doc)
      else pure (((jsonGet doc name).map fromJson).getD .undefined)
  | .memberRef source member => do
      let sourceValue ← evalScalar source
      pure (memberAccess sourceValue member)
  | .memberIndexer source index => do
      let sourceValue ← evalScalar source
      let indexValue ← evalScalar index
      pure (indexerAccess sourceValue indexValue)
  | .binary op left right => do
      let leftValue ← evalScalar left
      let rightValue ← evalScalar right
      pure (evalBinary builtins op leftValue rightValue)
  | .unary op operand => do
      let value ← evalScalar operand
      pure (evalUnary op value)
  | .functionCall name args isUdf =>
      if isUdf then .error (.unsupported "UDF calls")
      else do
        let argValues ← evalArgs args
        builtins.evalFunction name argValues
  | .in expression items not => do
      let value ← evalScalar expression
      let found ← evalIn value items
      pure (.boolean (if not then !found else found))
  | .between expression low high not => do
      let value ← evalScalar expression
      let lowValue ← evalScalar low
      let highValue ← evalScalar high
      let inRange :=
        match cosmosCmp value lowValue, cosmosCmp value highValue with
        | some lo, some hi => (lo == .gt || lo == .eq) && (hi == .lt || hi == .eq)
        | _, _ => false
      pure (.boolean (if not then !inRange else inRange))
  | .like expression pattern escape not => do
      let value ← evalScalar expression
      let patternValue ← evalScalar pattern
      -- an ESCAPE of other than one character leaves the row unmatched
      if escape.any fun e => e.length != 1 then pure .undefined
      else
        match value, patternValue with
        | .string s, .string p =>
            let matched := sqlLikeMatch s p escape
            pure (.boolean (if not then !matched else matched))
        | _, _ => pure .undefined
  | .conditional condition ifTrue ifFalse => do
      let cond ← evalScalar condition
      match cond with
      | .boolean true => evalScalar ifTrue
      | .boolean false => evalScalar ifFalse
      | _ => pure .undefined
  | .coalesce left right => do
      let value ← evalScalar left
      if value.isUndefined then evalScalar right else pure value
  | .exists | .subquery | .array => .error (.unsupported "subqueries")
  | .arrayCreate items => do
      let values ← evalArgs items
      pure (.array values)
  | .objectCreate props => do
      let values ← evalProps props
      pure (.object values)
  | .parameterRef name =>
      match resolveParameterValue params name with
      | some value => pure (fromJson value)
      | none => .error (.parameterNotFound name)
  | .isNull expression not => do
      let value ← evalScalar expression
      let isNull := match value with
        | .null => true
        | _ => false
      pure (.boolean (if not then !isNull else isNull))

def evalArgs : List SqlScalarExpression → Except EvalError (List CosmosValue)
  | [] => pure []
  | item :: items => do
      let value ← evalScalar item
      let values ← evalArgs items
      pure (value :: values)

/-- The loop of `IN`: the items in order, up to the first one equal to the value. -/
def evalIn (value : CosmosValue) : List SqlScalarExpression → Except EvalError Bool
  | [] => pure false
  | item :: items => do
      let itemValue ← evalScalar item
      if (cosmosEq value itemValue).isTrue then pure true else evalIn value items

def evalProps : List (String × SqlScalarExpression) → Except EvalError (List (String × CosmosValue))
  | [] => pure []
  | (name, expression) :: props => do
      let value ← evalScalar expression
      let values ← evalProps props
      pure ((name, value) :: values)
end

/-- `eval_where`: no clause keeps every document. -/
def evalWhere (whereClause : Option SqlScalarExpression) : Except EvalError Bool :=
  match whereClause with
  | some expression => do
      let result ← evalScalar builtins doc rootAlias params expression
      pure result.isTrue
  | none => pure true

/-! ### What an evaluation that succeeds was made of -/

variable {builtins doc rootAlias params}

theorem evalScalar_binary_eq_ok {op : SqlBinaryOp} {left right : SqlScalarExpression} {value : CosmosValue} :
    evalScalar builtins doc rootAlias params (.binary op left right) = .ok value ↔
      ∃ leftValue, evalScalar builtins doc rootAlias params left = .ok leftValue ∧
        ∃ rightValue, evalScalar builtins doc rootAlias params right = .ok rightValue ∧
        evalBinary builtins op leftValue rightValue = value := by
  simp only [evalScalar, Except.bind_eq_ok_iff, Except.pure_eq_ok_iff]

theorem evalScalar_in_eq_ok {expression : SqlScalarExpression} {items : List SqlScalarExpression}
    {not : Bool} {value : CosmosValue} :
    evalScalar builtins doc rootAlias params (.in expression items not) = .ok value ↔
      ∃ expressionValue, evalScalar builtins doc rootAlias params expression = .ok expressionValue ∧
        ∃ found, evalIn builtins doc rootAlias params expressionValue items = .ok found ∧
        .boolean (if not then !found else found) = value := by
  simp only [evalScalar, Except.bind_eq_ok_iff, Except.pure_eq_ok_iff]

theorem evalIn_eq_ok_true {value : CosmosValue} :
    ∀ {items : List SqlScalarExpression}, evalIn builtins doc rootAlias params value items = .ok true →
      ∃ item ∈ items, ∃ itemValue, evalScalar builtins doc rootAlias params item = .ok itemValue ∧
        (cosmosEq value itemValue).isTrue = true
  | [], found => by simp [evalIn, pure, Except.pure] at found
  | item :: items, found => by
    rw [evalIn, Except.bind_eq_ok_iff] at found
    obtain ⟨itemValue, evaluated, decided⟩ := found
    by_cases equal : (cosmosEq value itemValue).isTrue = true
    · exact ⟨item, List.mem_cons_self, itemValue, evaluated, equal⟩
    · rw [if_neg equal] at decided
      obtain ⟨later, member, laterValue, laterEvaluated, laterEqual⟩ := evalIn_eq_ok_true decided
      exact ⟨later, List.mem_cons_of_mem _ member, laterValue, laterEvaluated, laterEqual⟩

theorem evalWhere_some_eq_ok_true {expression : SqlScalarExpression} :
    evalWhere builtins doc rootAlias params (some expression) = .ok true ↔
      evalScalar builtins doc rootAlias params expression = .ok (.boolean true) := by
  simp only [evalWhere, Except.bind_eq_ok_iff, Except.pure_eq_ok_iff, isTrue_iff, exists_eq_right]

end Scalar

theorem evalAnd_eq_true {left right : CosmosValue} :
    evalAnd left right = .boolean true ↔ left = .boolean true ∧ right = .boolean true := by
  cases left <;> cases right <;> simp [evalAnd, asBool] <;> grind

theorem evalOr_eq_true {left right : CosmosValue} (isTrue : evalOr left right = .boolean true) :
    left = .boolean true ∨ right = .boolean true := by
  cases left <;> cases right <;> simp [evalOr, asBool] at isTrue ⊢ <;> grind

/-! ## The FROM clause and the filter step of `query_documents` -/

/-- `serde_json::Value::get` with an index; a negative `i64` cast `as usize` is past every
array's end. -/
def jsonIndex (value : Value) (i : Int64) : Option Value :=
  match value with
  | .array items => if i < 0 then none else items[i.toInt.toNat]?
  | _ => none

/-- One segment of `resolve_collection_path`: a missing step reads `null`. -/
def pathStep (value : Value) : SqlPathSegment → Value
  | .identifier name => (jsonGet value name).getD .null
  | .index i => (jsonIndex value i).getD .null
  | .stringIndex s => (jsonGet value s).getD .null

/-- `resolve_collection_path`: the path from the bound root, or from the document. -/
def resolveCollectionPath (rootDocument : Value) (collection : SqlCollection)
    (bindings : List (String × Value)) : Except EvalError Value :=
  match collection with
  | .path root path => pure (path.foldl pathStep ((SortedMap.get bindings root).getD rootDocument))
  | .subquery => .error (.unsupported "FROM subqueries")

/-- `Map::extend`: the other map's entries inserted in order. -/
def extendBindings (bindings other : List (String × Value)) : List (String × Value) :=
  other.foldl (fun merged entry => SortedMap.insert merged entry.1 entry.2) bindings

/-- `expand_from`: the binding contexts of one document. -/
def expandFrom (doc : Value) :
    SqlCollectionExpression → List (String × Value) → Except EvalError (List (List (String × Value)))
  | .aliased collection aliasName, bindings => do
      let name := aliasName.getD
        (match collection with
          | .path root _ => root
          | .subquery => "c")
      let source ← resolveCollectionPath doc collection bindings
      pure [SortedMap.insert [] name source]
  | .join left right, bindings => do
      let leftBindings ← expandFrom doc left bindings
      leftBindings.foldlM
        (fun result leftCtx => do
          let rightBindings ← expandFrom doc right (extendBindings bindings leftCtx)
          pure (result ++ rightBindings.map fun rightCtx => extendBindings leftCtx rightCtx))
        []
  | .arrayIterator identifier collection, bindings => do
      let arr ← resolveCollectionPath doc collection bindings
      match arr with
      | .array items => pure (items.map fun item => SortedMap.insert [] identifier item)
      | _ => pure []

/-- Step 1 of `query_documents`: the rows that the WHERE clause keeps, in document order. A
plain-root query keeps documents, evaluated with the root alias; any other FROM clause keeps
binding contexts, evaluated with none. An evaluation error fails the query with its text. -/
def filterRows (builtins : Builtins) (query : SqlQuery) (parameters : Params) (documents : List Value) :
    Except String (List Value) :=
  documents.foldlM
    (fun rows doc =>
      match query.fromClause.filter fun fromClause => !isPlainRootFrom fromClause with
      | some fromClause => do
          let bindingsList ← (expandFrom doc fromClause []).mapError EvalError.toString
          bindingsList.foldlM
            (fun rows bindings => do
              let keep ← (evalWhere builtins (.object bindings) none parameters query.whereClause).mapError
                EvalError.toString
              pure (if keep then rows ++ [.object bindings] else rows))
            rows
      | none => do
          let keep ← (evalWhere builtins doc (getRootAlias query) parameters query.whereClause).mapError
            EvalError.toString
          pure (if keep then rows ++ [doc] else rows))
    []

end CosmosDriver.Query
