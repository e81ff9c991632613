import AzureSdk.Cosmos.BinaryJson.Value
import AzureSdk.Lib.Binary64

/-!
# The SQL the query engine reads

`query/ast`: scalar expressions, the collection expressions of a FROM clause and, of a
query, its FROM and WHERE clauses; the SELECT, GROUP BY, ORDER BY and OFFSET/LIMIT clauses
are read by nothing modelled here. A subquery (`EXISTS`, `ARRAY(..)`, a scalar subquery, a
FROM subquery) is kept without its body: the evaluator rejects each of them and the planner
reads none. With it, `query/common`: the root alias and the parameter lookup that the
evaluator and the planner share.
-/

namespace CosmosDriver.Query

open BinaryJson (Value)

set_option autoImplicit false

inductive SqlLiteral where
  | string (s : String)
  | number (n : Binary64.F64)
  | integer (n : Int64)
  | boolean (b : Bool)
  | null
  | undefined
  deriving DecidableEq, Repr

inductive SqlBinaryOp where
  | add
  | subtract
  | multiply
  | divide
  | modulo
  | equal
  | notEqual
  | lessThan
  | greaterThan
  | lessThanOrEqual
  | greaterThanOrEqual
  | and
  | or
  | bitwiseAnd
  | bitwiseOr
  | bitwiseXor
  | leftShift
  | rightShift
  | zeroFillRightShift
  | stringConcat
  deriving DecidableEq, Repr

inductive SqlUnaryOp where
  | not
  | minus
  | plus
  | bitwiseNot
  deriving DecidableEq, Repr

/-- `SqlScalarExpression`; an object literal's properties are `(name, expression)` pairs. -/
inductive SqlScalarExpression where
  | literal (lit : SqlLiteral)
  | propertyRef (name : String)
  | memberRef (source : SqlScalarExpression) (member : String)
  | memberIndexer (source index : SqlScalarExpression)
  | binary (op : SqlBinaryOp) (left right : SqlScalarExpression)
  | unary (op : SqlUnaryOp) (operand : SqlScalarExpression)
  | functionCall (name : String) (args : List SqlScalarExpression) (isUdf : Bool)
  | between (expression low high : SqlScalarExpression) (not : Bool)
  | «in» (expression : SqlScalarExpression) (items : List SqlScalarExpression) (not : Bool)
  | like (expression pattern : SqlScalarExpression) (escape : Option String) (not : Bool)
  | conditional (condition ifTrue ifFalse : SqlScalarExpression)
  | coalesce (left right : SqlScalarExpression)
  | «exists»
  | subquery
  | array
  | arrayCreate (items : List SqlScalarExpression)
  | objectCreate (props : List (String × SqlScalarExpression))
  | parameterRef (name : String)
  | isNull (expression : SqlScalarExpression) (not : Bool)

inductive SqlPathSegment where
  | identifier (name : String)
  | index (i : Int64)
  | stringIndex (s : String)
  deriving DecidableEq, Repr

inductive SqlCollection where
  | path (root : String) (path : List SqlPathSegment)
  | subquery
  deriving DecidableEq, Repr

inductive SqlCollectionExpression where
  | aliased (collection : SqlCollection) (aliasName : Option String)
  | arrayIterator (identifier : String) (collection : SqlCollection)
  | join (left right : SqlCollectionExpression)
  deriving DecidableEq, Repr

/-- `SqlQuery`, by its FROM collection and its WHERE expression. -/
structure SqlQuery where
  fromClause : Option SqlCollectionExpression
  whereClause : Option SqlScalarExpression

/-! ## `query/common` -/

def getAliasFromCollection : SqlCollectionExpression → Option String
  | .aliased collection aliasName =>
      aliasName.or
        (match collection with
          | .path root _ => some root
          | .subquery => none)
  | .join left _ => getAliasFromCollection left
  | .arrayIterator _ _ => none

def getRootAlias (query : SqlQuery) : Option String := query.fromClause.bind getAliasFromCollection

/-- `Params`: the `(name, value)` pairs bound to a query. -/
abbrev Params := List (String × Value)

/-- `normalize_parameter_name`: `trim_start_matches('@')`. -/
def normalizeParameterName (name : String) : String := String.ofList (name.toList.dropWhile (· = '@'))

/-- `resolve_parameter_value`: the first binding whose normalized name is the reference's. -/
def resolveParameterValue (parameters : Params) (name : String) : Option Value :=
  let needle := normalizeParameterName name
  (parameters.find? fun entry => normalizeParameterName entry.1 = needle).map Prod.snd

/-- `is_plain_root_from`: the FROM clause names the whole document, with no path. -/
def isPlainRootFrom : SqlCollectionExpression → Bool
  | .aliased collection _ =>
      match collection with
      | .path _ path => path.isEmpty
      | .subquery => false
  | .arrayIterator _ _ => false
  | .join _ _ => false

/-- `use_binding_context` of `query_documents`: a FROM clause other than the plain root. -/
def usesBindingContext (query : SqlQuery) : Bool := query.fromClause.any fun fromClause => !isPlainRootFrom fromClause

end CosmosDriver.Query
