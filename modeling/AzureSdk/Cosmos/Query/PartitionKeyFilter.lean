import AzureSdk.Cosmos.Query.Value

/-!
# The partition key filter of a local query plan

`query/plan`: from a WHERE clause and the container's partition key paths, the planner
extracts the partition key values a matching document can have: one tuple
(`Equality`), a list of tuples (`InList`), none at all (`Contradictory`), or no bound
(`Unconstrained`). A single path reads `=` and positive `IN` on the path, and folds the
leaves of `AND` and `OR` chains with `intersect_pk_filters` and `union_pk_filters`. A
hierarchical key reads the disjuncts of a top-level `OR` one by one; in each, every
component takes the values its conjuncts allow, the components up to the first
unconstrained one, and the tuples are their cartesian product.

Chains are flattened by `flatten_chain` with an explicit stack, so that a generated query
of thousands of conjuncts does not exhaust the stack; `chainLeaves` is the recursive
descent it replaces, and `flattenChain_eq` says they agree.

The `Hash` and `Eq` of the values are modelled by structural equality in
`normalize_pk_union`'s set; `==` itself compares numbers as doubles (`beq`).
-/

namespace CosmosDriver.Query

open BinaryJson (Value)
open Binary64 (F64)

set_option autoImplicit false

/-- `PartitionKeyValue` of the planner. -/
inductive PartitionKeyValue where
  | string (s : String)
  | number (n : F64)
  | bool (b : Bool)
  | null
  | undefined
  | unboundParameter (name : String)
  | invalidParameter (name reason : String)
  deriving DecidableEq, Repr

inductive PartitionKeyFilter where
  | equality (values : List PartitionKeyValue)
  | inList (values : List (List PartitionKeyValue))
  | unconstrained
  | contradictory
  | notEvaluated
  deriving DecidableEq, Repr

namespace PartitionKeyValue

/-- The derived `PartialEq`: numbers by `f64` equality, every other payload exactly. -/
def beq : PartitionKeyValue → PartitionKeyValue → Bool
  | .string a, .string b => a == b
  | .number a, .number b => a.beq b
  | .bool a, .bool b => a == b
  | .null, .null => true
  | .undefined, .undefined => true
  | .unboundParameter a, .unboundParameter b => a == b
  | .invalidParameter name reason, .invalidParameter name' reason' => name == name' && reason == reason'
  | _, _ => false

/-- `try_number`: a double that is not finite is no partition key value. -/
def tryNumber (n : F64) : Option PartitionKeyValue := if n.isFinite then some (.number n) else none

end PartitionKeyValue

open CosmosDriver.Query.PartitionKeyValue

/-- `PartialEq for Vec<PartitionKeyValue>`: the same length, and equal in every position. -/
def tupleBeq : List PartitionKeyValue → List PartitionKeyValue → Bool
  | [], [] => true
  | a :: as, b :: bs => a.beq b && tupleBeq as bs
  | _, _ => false

/-- `is_unresolved_pk_value`: a parameter left unbound, or bound to no usable value. -/
def isUnresolvedPkValue : PartitionKeyValue → Bool
  | .unboundParameter _ => true
  | .invalidParameter _ _ => true
  | _ => false

/-! ## Paths and literals -/

/-- `resolve_property_path`: the names of a chain of member accesses on a property. -/
def resolvePropertyPath : SqlScalarExpression → Option (List String)
  | .propertyRef name => some [name]
  | .memberRef source member => (resolvePropertyPath source).map (· ++ [member])
  | _ => none

/-- `is_pk_reference`: the path is the partition key path, after the root alias when it
starts with it. -/
def isPkReference (expr : SqlScalarExpression) (pkPath : List String) (rootAlias : Option String) : Bool :=
  match resolvePropertyPath expr with
  | none => false
  | some resolvedPath =>
      match rootAlias with
      | some aliasName =>
          if resolvedPath.head? = some aliasName then resolvedPath.tail == pkPath else resolvedPath == pkPath
      | none => resolvedPath == pkPath

/-- `resolve_pk_parameter`. `as_f64` reads every `serde_json` number as a finite double,
so the `InvalidParameter` of a number is never built (`resolvePkParameter_number`). -/
def resolvePkParameter (name : String) (parameters : Params) : PartitionKeyValue :=
  let needle := normalizeParameterName name
  match parameters.find? fun entry => normalizeParameterName entry.1 = needle with
  | none => .unboundParameter needle
  | some (_, value) =>
      match value with
      | .string s => .string s
      | .number n => (tryNumber (numberAsF64 n)).getD (.invalidParameter needle "number value is not a finite f64")
      | .bool b => .bool b
      | .null => .null
      | .array _ => .invalidParameter needle "array values cannot be used as a partition key"
      | .object _ => .invalidParameter needle "object values cannot be used as a partition key"

/-- `extract_literal_value`: both numeric literals become doubles. -/
def extractLiteralValue (expr : SqlScalarExpression) (parameters : Params) : Option PartitionKeyValue :=
  match expr with
  | .literal lit =>
      match lit with
      | .string s => some (.string s)
      | .number n => tryNumber n
      | .integer n => tryNumber (F64.ofInt n.toInt)
      | .boolean b => some (.bool b)
      | .null => some .null
      | .undefined => some .undefined
  | .parameterRef name => some (resolvePkParameter name parameters)
  | _ => none

/-! ## Flattening `AND` and `OR` chains -/

def chainOperands (op : SqlBinaryOp) : SqlScalarExpression → Option (SqlScalarExpression × SqlScalarExpression)
  | .binary nodeOp left right => if nodeOp = op then some (left, right) else none
  | _ => none

theorem sizeOf_lt_of_chainOperands {op : SqlBinaryOp} {node left right : SqlScalarExpression}
    (split : chainOperands op node = some (left, right)) : sizeOf left + sizeOf right < sizeOf node := by
  cases node with
  | binary nodeOp l r =>
    simp only [chainOperands, Option.ite_none_right_eq_some, Option.some.injEq, Prod.mk.injEq] at split
    obtain ⟨-, rfl, rfl⟩ := split
    simp only [SqlScalarExpression.binary.sizeOf_spec]
    omega
  | _ => simp [chainOperands] at split

-- the equation `split` is read by the termination proof only
set_option linter.unusedVariables false in
/-- `flatten_chain`: the stack's top is the list's head; a node of the operator pushes its
right operand, then its left, so the leaves come out left to right. -/
def flattenChain (op : SqlBinaryOp) (stack out : List SqlScalarExpression) : List SqlScalarExpression :=
  match stack with
  | [] => out
  | node :: rest =>
      match split : chainOperands op node with
      | some (left, right) => flattenChain op (left :: right :: rest) out
      | none => flattenChain op rest (out ++ [node])
termination_by stack.length + 2 * (stack.map sizeOf).sum
decreasing_by
  all_goals simp only [List.map_cons, List.sum_cons, List.length_cons]
  · have smaller := sizeOf_lt_of_chainOperands split
    omega
  · omega

/-- The recursive descent that `flatten_chain` replaces. -/
def chainLeaves (op : SqlBinaryOp) (expr : SqlScalarExpression) : List SqlScalarExpression :=
  match expr with
  | .binary nodeOp left right =>
      if nodeOp = op then chainLeaves op left ++ chainLeaves op right else [.binary nodeOp left right]
  | _ => [expr]

theorem chainLeaves_of_chainOperands {op : SqlBinaryOp} {node left right : SqlScalarExpression}
    (split : chainOperands op node = some (left, right)) :
    chainLeaves op node = chainLeaves op left ++ chainLeaves op right := by
  cases node with
  | binary nodeOp l r =>
    simp only [chainOperands, Option.ite_none_right_eq_some, Option.some.injEq, Prod.mk.injEq] at split
    obtain ⟨same, rfl, rfl⟩ := split
    rw [chainLeaves, if_pos same]
  | _ => simp [chainOperands] at split

theorem chainLeaves_of_chainOperands_none {op : SqlBinaryOp} {node : SqlScalarExpression}
    (leaf : chainOperands op node = none) : chainLeaves op node = [node] := by
  cases node with
  | binary nodeOp l r =>
    have differs : nodeOp ≠ op := by
      intro same
      simp [chainOperands, same] at leaf
    rw [chainLeaves, if_neg differs]
  | _ => rfl

theorem flattenChain_eq (op : SqlBinaryOp) (stack out : List SqlScalarExpression) :
    flattenChain op stack out = out ++ stack.flatMap (chainLeaves op) := by
  fun_induction flattenChain op stack out with
  | case1 out => simp
  | case2 out node rest left right split ih =>
    simp only [ih, List.flatMap_cons, chainLeaves_of_chainOperands split, List.append_assoc]
  | case3 out node rest leaf ih =>
    rw [ih, List.flatMap_cons, chainLeaves_of_chainOperands_none leaf]
    simp

/-- `flatten_and` and `flatten_or`. -/
def flatten (op : SqlBinaryOp) (expr : SqlScalarExpression) : List SqlScalarExpression := flattenChain op [expr] []

theorem flatten_eq (op : SqlBinaryOp) (expr : SqlScalarExpression) : flatten op expr = chainLeaves op expr := by
  simp [flatten, flattenChain_eq]

theorem sizeOf_le_of_mem_chainLeaves (op : SqlBinaryOp) (expr : SqlScalarExpression) :
    ∀ leaf ∈ chainLeaves op expr, sizeOf leaf ≤ sizeOf expr := by
  fun_induction chainLeaves op expr with
  | case1 left right ihLeft ihRight =>
    intro leaf member
    simp only [SqlScalarExpression.binary.sizeOf_spec]
    rcases List.mem_append.mp member with inLeft | inRight
    · have below := ihLeft leaf inLeft
      omega
    · have below := ihRight leaf inRight
      omega
  | case2 nodeOp left right differs =>
    intro leaf member
    rw [List.mem_singleton.mp member]
  | case3 expr notBinary =>
    intro leaf member
    rw [List.mem_singleton.mp member]

theorem sizeOf_lt_of_mem_flatten {op : SqlBinaryOp} {left right leaf : SqlScalarExpression}
    (member : leaf ∈ flatten op (.binary op left right)) : sizeOf leaf < sizeOf (SqlScalarExpression.binary op left right) := by
  rw [flatten_eq, chainLeaves, if_pos rfl] at member
  simp only [SqlScalarExpression.binary.sizeOf_spec]
  rcases List.mem_append.mp member with inLeft | inRight
  · have below := sizeOf_le_of_mem_chainLeaves op left leaf inLeft
    omega
  · have below := sizeOf_le_of_mem_chainLeaves op right leaf inRight
    omega

/-! ## Combining filters -/

/-- `Iterator::reduce(f).unwrap_or(Unconstrained)`. -/
def reduceFilters (f : PartitionKeyFilter → PartitionKeyFilter → PartitionKeyFilter) :
    List PartitionKeyFilter → PartitionKeyFilter
  | [] => .unconstrained
  | first :: rest => rest.foldl f first

/-- One step of the loop of `normalize_pk_union`: a tuple not seen yet is pushed. The set
`seen` holds exactly the tuples pushed to `deduped`. -/
def dedupTuple (deduped : List (List PartitionKeyValue)) (value : List PartitionKeyValue) :
    List (List PartitionKeyValue) :=
  if value ∈ deduped then deduped else deduped ++ [value]

theorem mem_foldl_dedupTuple {tuple : List PartitionKeyValue} :
    ∀ {values deduped : List (List PartitionKeyValue)},
      tuple ∈ values.foldl dedupTuple deduped ↔ tuple ∈ deduped ∨ tuple ∈ values
  | [], _ => by simp
  | value :: values, deduped => by
    rw [List.foldl_cons, mem_foldl_dedupTuple, dedupTuple]
    split
    · rename_i seen
      simp only [List.mem_cons]
      constructor
      · rintro (old | later)
        · exact .inl old
        · exact .inr (.inr later)
      · rintro (old | rfl | later)
        · exact .inl old
        · exact .inl seen
        · exact .inr later
    · simp [or_assoc]

/-- `normalize_pk_union`: the tuples with repeats dropped, first occurrences kept in order. -/
def normalizePkUnion (values : List (List PartitionKeyValue)) : PartitionKeyFilter :=
  match values.foldl dedupTuple [] with
  | [] => .unconstrained
  | [value] => .equality value
  | deduped => .inList deduped

/-- `union_pk_filters`: the values of both sides, a contradictory side adding none. -/
def unionPkFilters : PartitionKeyFilter → PartitionKeyFilter → PartitionKeyFilter
  | .equality a, .equality b => normalizePkUnion [a, b]
  | .equality a, .inList list => normalizePkUnion (list ++ [a])
  | .inList list, .equality a => normalizePkUnion (list ++ [a])
  | .inList a, .inList b => normalizePkUnion (a ++ b)
  | .contradictory, other => other
  | other, .contradictory => other
  | _, _ => .unconstrained

/-- The `Equality AND InList` arm of `intersect_pk_filters`, for either order. -/
def intersectEqualityList (eq : List PartitionKeyValue) (list : List (List PartitionKeyValue)) : PartitionKeyFilter :=
  if eq.any isUnresolvedPkValue then normalizePkUnion list
  else if list.any fun item => tupleBeq item eq then .equality eq
  else .contradictory

def intersectPkFilters : PartitionKeyFilter → PartitionKeyFilter → PartitionKeyFilter
  | .unconstrained, other => other
  | other, .unconstrained => other
  | .contradictory, _ => .contradictory
  | _, .contradictory => .contradictory
  | .equality a, .equality b =>
      match a.any isUnresolvedPkValue, b.any isUnresolvedPkValue with
      | true, true => .unconstrained
      | true, false => .equality b
      | false, true => .equality a
      | false, false => if tupleBeq a b then .equality a else .contradictory
  | .equality eq, .inList list => intersectEqualityList eq list
  | .inList list, .equality eq => intersectEqualityList eq list
  | .inList a, .inList b =>
      let intersection := a.filter fun item => b.any fun other => tupleBeq other item
      match intersection with
      | [] => .contradictory
      | [single] => .equality single
      | _ => .inList intersection
  | .notEvaluated, other => other
  | other, .notEvaluated => other

/-! ## A single partition key path -/

/-- One side of an `=` in `extract_single_pk`: the other side's value, when this side is
the partition key. -/
def equalityOperand (pkPath : List String) (rootAlias : Option String) (parameters : Params)
    (pkSide valueSide : SqlScalarExpression) : Option PartitionKeyValue :=
  if isPkReference pkSide pkPath rootAlias then extractLiteralValue valueSide parameters else none

def extractSinglePk (expr : SqlScalarExpression) (pkPath : List String) (rootAlias : Option String)
    (parameters : Params) : PartitionKeyFilter :=
  match expr with
  | .binary .equal left right =>
      match equalityOperand pkPath rootAlias parameters left right <|>
          equalityOperand pkPath rootAlias parameters right left with
      | some val => .equality [val]
      | none => .unconstrained
  | .in expression items false =>
      if isPkReference expression pkPath rootAlias then
        let values := items.filterMap fun item => (extractLiteralValue item parameters).map fun v => [v]
        if values.length = items.length then .inList values else .unconstrained
      else .unconstrained
  | .binary .and left right =>
      reduceFilters intersectPkFilters
        ((flatten .and (.binary .and left right)).attach.map fun conjunct =>
          extractSinglePk conjunct.1 pkPath rootAlias parameters)
  | .binary .or left right =>
      reduceFilters unionPkFilters
        ((flatten .or (.binary .or left right)).attach.map fun disjunct =>
          extractSinglePk disjunct.1 pkPath rootAlias parameters)
  | _ => .unconstrained
termination_by sizeOf expr
decreasing_by
  · exact sizeOf_lt_of_mem_flatten conjunct.2
  · exact sizeOf_lt_of_mem_flatten disjunct.2

/-! ## A hierarchical partition key -/

/-- What the scan of one component has found: the value of an `=`, and the values that its
`IN` lists all allow. -/
structure ComponentScan where
  equalValue : Option PartitionKeyValue
  inValues : Option (List PartitionKeyValue)
  deriving DecidableEq, Repr

/-- One conjunct of a component's scan in `extract_hierarchical_pk`: `none` when the
conjunct makes the whole conjunction contradictory. -/
def scanConjunct (pkPath : List String) (rootAlias : Option String) (parameters : Params)
    (scan : ComponentScan) (conjunct : SqlScalarExpression) : Option ComponentScan :=
  match conjunct with
  | .binary .equal left right =>
      let val :=
        if isPkReference left pkPath rootAlias then extractLiteralValue right parameters
        else if isPkReference right pkPath rootAlias then extractLiteralValue left parameters
        else none
      match val with
      | none => some scan
      | some v =>
          match scan.equalValue with
          | none => some { scan with equalValue := some v }
          | some existing => if existing.beq v then some scan else none
  | .in expression items false =>
      if isPkReference expression pkPath rootAlias then
        match items.mapM fun item => extractLiteralValue item parameters with
        | none => some scan
        | some vs =>
            -- a second list narrows the first: AND semantics
            let narrowed :=
              match scan.inValues with
              | none => vs
              | some existing => existing.filter fun v => vs.any fun w => w.beq v
            if narrowed.isEmpty then none else some { scan with inValues := some narrowed }
      else some scan
  | _ => some scan

def scanComponent (pkPath : List String) (rootAlias : Option String) (parameters : Params)
    (conjuncts : List SqlScalarExpression) : Option ComponentScan :=
  conjuncts.foldlM (scanConjunct pkPath rootAlias parameters) ⟨none, none⟩

/-- The loop over the components: their accepted values up to the first unconstrained
component, or the filter that `extract_hierarchical_pk` returns at once. -/
def collectComponents (conjuncts : List SqlScalarExpression) (rootAlias : Option String) (parameters : Params) :
    List (List String) → List (List PartitionKeyValue) → Except PartitionKeyFilter (List (List PartitionKeyValue))
  | [], perComponent => .ok perComponent
  | pkPath :: rest, perComponent =>
      match scanComponent pkPath rootAlias parameters conjuncts with
      | none => .error .contradictory
      | some scan =>
          match scan.equalValue, scan.inValues with
          | some eq, some list =>
              if list.any fun v => v.beq eq then collectComponents conjuncts rootAlias parameters rest (perComponent ++ [[eq]])
              else .error .contradictory
          | some eq, none => collectComponents conjuncts rootAlias parameters rest (perComponent ++ [[eq]])
          | none, some list => collectComponents conjuncts rootAlias parameters rest (perComponent ++ [list])
          | none, none => if perComponent.isEmpty then .error .unconstrained else .ok perComponent

def cartesianProduct (perComponent : List (List PartitionKeyValue)) : List (List PartitionKeyValue) :=
  perComponent.foldl (fun tuples component => tuples.flatMap fun pre => component.map fun v => pre ++ [v]) [[]]

def maxHpkTuples : Nat := 1024

/-- `extract_hierarchical_pk` past its top-level `OR`: the conjuncts of one disjunct. -/
def hierarchicalConjunction (conjuncts : List SqlScalarExpression) (pkSegments : List (List String))
    (rootAlias : Option String) (parameters : Params) : PartitionKeyFilter :=
  match collectComponents conjuncts rootAlias parameters pkSegments [] with
  | .error filter => filter
  | .ok perComponent =>
      let total := (perComponent.map List.length).prod
      if total = 0 then .contradictory
      else if total > maxHpkTuples then .unconstrained
      else
        match cartesianProduct perComponent with
        | [tuple] => .equality tuple
        | tuples => .inList tuples

def extractHierarchicalPk (expr : SqlScalarExpression) (pkSegments : List (List String))
    (rootAlias : Option String) (parameters : Params) : PartitionKeyFilter :=
  match expr with
  | .binary .or left right =>
      reduceFilters unionPkFilters
        ((flatten .or (.binary .or left right)).attach.map fun disjunct =>
          extractHierarchicalPk disjunct.1 pkSegments rootAlias parameters)
  | _ => hierarchicalConjunction (flatten .and expr) pkSegments rootAlias parameters
termination_by sizeOf expr
decreasing_by exact sizeOf_lt_of_mem_flatten disjunct.2

def extractPkFromExpression (expr : SqlScalarExpression) (pkSegments : List (List String))
    (rootAlias : Option String) (parameters : Params) : PartitionKeyFilter :=
  match pkSegments with
  | [pkPath] => extractSinglePk expr pkPath rootAlias parameters
  | _ => extractHierarchicalPk expr pkSegments rootAlias parameters

/-- `strip_prefix('/').unwrap_or(p)`: one leading `/` removed. -/
def stripSlash : List Char → List Char
  | '/' :: rest => rest
  | chars => chars

def pkSegment (path : String) : List String := ((stripSlash path.toList).splitOn '/').map String.ofList

/-- The `pk_filters` of `generate_query_plan_with_parameters`. -/
def planPkFilters (query : SqlQuery) (pkPaths : List String) (parameters : Params) : PartitionKeyFilter :=
  if pkPaths.isEmpty then .notEvaluated
  else
    match query.whereClause with
    | some expression => extractPkFromExpression expression (pkPaths.map pkSegment) (getRootAlias query) parameters
    | none => .unconstrained

end CosmosDriver.Query
