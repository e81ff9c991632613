import AzureSdk.Cosmos.Query.Eval
import AzureSdk.Cosmos.Query.PartitionKeyFilter
import AzureSdk.Cosmos.Emulator.DocumentKey

/-!
# The local plan routes to every document the query returns

The emulator answers a query-plan request with the ranges that the plan's partition key
filter routes to, so every document the query returns has to lie in them. `admits` says
which stored keys a filter routes to: a tuple routes to the keys it is a prefix of, a
number to the stored numbers equal to it as doubles, a contradictory filter to none.
`query_plan_admits_every_matching_document`: for a query over the plain root, every
document the filter step of `query_documents` returns, keyed as the emulator stores it, is
admitted by the filter that `generate_query_plan_with_parameters` extracts from the same
query and parameters, whatever the arithmetic and the built-in functions compute.

The proof follows the planner. A leaf `=` or `IN` on the key's path is sound because the
evaluator reads the path as the stored key does and compares with `cosmos_eq`, whose
`true` between a scalar and any value makes their planner values equal (`routingValue`).
`AND` chains are sound by intersection, under the invariant that a single path's tuples
have one component each (`SingleTuples`); `OR` chains by union; a hierarchical key by an
invariant of the per-component scan and by the cartesian product.
-/

namespace CosmosDriver.Query

open BinaryJson (Value)
open Binary64 (F64)
open CosmosValue
open Emulator (KeyComponent jsonPath jsonToPkComponent)

set_option autoImplicit false

/-! ## The keys a filter routes to -/

/-- A planner value admits a stored component: a number the stored doubles equal to it, any
other scalar itself. -/
def admitsComponent : PartitionKeyValue → CosmosDriver.PartitionKeyValue → Bool
  | .string s, .string t => s == t
  | .number x, .number bits => (F64.mk bits).beq x
  | .bool b, .bool c => b == c
  | .null, .null => true
  | .undefined, .undefined => true
  | _, _ => false

def admitsTuple : List PartitionKeyValue → List CosmosDriver.PartitionKeyValue → Bool
  | [], _ => true
  | v :: vs, k :: ks => admitsComponent v k && admitsTuple vs ks
  | _ :: _, [] => false

def PartitionKeyFilter.admits (filter : PartitionKeyFilter) (key : List CosmosDriver.PartitionKeyValue) : Bool :=
  match filter with
  | .equality values => admitsTuple values key
  | .inList tuples => tuples.any fun tuple => admitsTuple tuple key
  | .unconstrained => true
  | .contradictory => false
  | .notEvaluated => true

open PartitionKeyFilter

theorem beq_of_admitsComponent {p q : PartitionKeyValue} {k : CosmosDriver.PartitionKeyValue}
    (first : admitsComponent p k = true) (second : admitsComponent q k = true) : p.beq q = true := by
  cases k <;> cases p <;> simp [admitsComponent] at first <;> cases q <;>
    simp [admitsComponent] at second <;> simp only [PartitionKeyValue.beq]
  case number.number.number bits x y => exact F64.beq_trans (F64.beq_comm.trans first) second
  all_goals simp_all

def SingleTuples : PartitionKeyFilter → Prop
  | .equality values => values.length = 1
  | .inList tuples => ∀ tuple ∈ tuples, tuple.length = 1
  | _ => True

theorem admitsTuple_single (p : PartitionKeyValue) (k : CosmosDriver.PartitionKeyValue) :
    admitsTuple [p] [k] = admitsComponent p k := by
  simp [admitsTuple]

theorem tupleBeq_of_admitsTuple {t u : List PartitionKeyValue} {k : CosmosDriver.PartitionKeyValue}
    (tOne : t.length = 1) (uOne : u.length = 1) (tAdmitted : admitsTuple t [k] = true)
    (uAdmitted : admitsTuple u [k] = true) : tupleBeq t u = true := by
  match t, u, tOne, uOne with
  | [p], [q], _, _ =>
    rw [admitsTuple_single] at tAdmitted uAdmitted
    simp [tupleBeq, beq_of_admitsComponent tAdmitted uAdmitted]

/-! ### Union and intersection -/

theorem admits_normalizePkUnion {values : List (List PartitionKeyValue)} {key : List CosmosDriver.PartitionKeyValue}
    {tuple : List PartitionKeyValue} (member : tuple ∈ values) (admitted : admitsTuple tuple key = true) :
    (normalizePkUnion values).admits key = true := by
  have kept : tuple ∈ values.foldl dedupTuple [] := mem_foldl_dedupTuple.mpr (.inr member)
  unfold normalizePkUnion
  split
  · rename_i empty
    rw [empty] at kept
    cases kept
  · rename_i single
    rw [single, List.mem_singleton] at kept
    rw [admits, ← kept]
    exact admitted
  · exact List.any_eq_true.mpr ⟨tuple, kept, admitted⟩

theorem singleTuples_normalizePkUnion {values : List (List PartitionKeyValue)}
    (single : ∀ tuple ∈ values, tuple.length = 1) : SingleTuples (normalizePkUnion values) := by
  have fromValues : ∀ tuple ∈ values.foldl dedupTuple [], tuple.length = 1 := fun tuple kept =>
    single tuple ((mem_foldl_dedupTuple.mp kept).resolve_left List.not_mem_nil)
  unfold normalizePkUnion
  split
  · trivial
  · rename_i value only
    exact fromValues value (by simp [only])
  · exact fromValues

theorem admits_unionPkFilters {a b : PartitionKeyFilter} {key : List CosmosDriver.PartitionKeyValue}
    (admitted : a.admits key = true ∨ b.admits key = true) : (unionPkFilters a b).admits key = true := by
  cases a <;> cases b
  case equality.equality x y =>
    simp only [unionPkFilters]
    rcases admitted with first | second
    · exact admits_normalizePkUnion List.mem_cons_self first
    · exact admits_normalizePkUnion (by simp) second
  case equality.inList x list =>
    simp only [unionPkFilters]
    rcases admitted with first | second
    · exact admits_normalizePkUnion (by simp) first
    · obtain ⟨tuple, member, tupleAdmitted⟩ := List.any_eq_true.mp second
      exact admits_normalizePkUnion (List.mem_append_left _ member) tupleAdmitted
  case inList.equality list y =>
    simp only [unionPkFilters]
    rcases admitted with first | second
    · obtain ⟨tuple, member, tupleAdmitted⟩ := List.any_eq_true.mp first
      exact admits_normalizePkUnion (List.mem_append_left _ member) tupleAdmitted
    · exact admits_normalizePkUnion (by simp) second
  case inList.inList x y =>
    simp only [unionPkFilters]
    rcases admitted with first | second
    · obtain ⟨tuple, member, tupleAdmitted⟩ := List.any_eq_true.mp first
      exact admits_normalizePkUnion (List.mem_append_left _ member) tupleAdmitted
    · obtain ⟨tuple, member, tupleAdmitted⟩ := List.any_eq_true.mp second
      exact admits_normalizePkUnion (List.mem_append_right _ member) tupleAdmitted
  -- a contradictory side adds nothing, and every other pair is unconstrained
  all_goals simp_all [unionPkFilters, admits]

theorem singleTuples_unionPkFilters {a b : PartitionKeyFilter} (left : SingleTuples a) (right : SingleTuples b) :
    SingleTuples (unionPkFilters a b) := by
  cases a <;> cases b <;> simp only [unionPkFilters, SingleTuples] at left right ⊢ <;>
    first
      | trivial
      | exact left
      | exact right
      | (apply singleTuples_normalizePkUnion; simp only [List.mem_append, List.mem_cons, List.not_mem_nil]; grind)

theorem admits_intersectEqualityList {eq : List PartitionKeyValue} {list : List (List PartitionKeyValue)}
    {k : CosmosDriver.PartitionKeyValue} (eqOne : eq.length = 1) (listOne : ∀ tuple ∈ list, tuple.length = 1)
    (eqAdmitted : admitsTuple eq [k] = true) (listAdmitted : (inList list).admits [k] = true) :
    (intersectEqualityList eq list).admits [k] = true := by
  obtain ⟨tuple, member, tupleAdmitted⟩ := List.any_eq_true.mp listAdmitted
  unfold intersectEqualityList
  split
  · exact admits_normalizePkUnion member tupleAdmitted
  · split
    · exact eqAdmitted
    · rename_i _ absent
      exact (absent (List.any_eq_true.mpr ⟨tuple, member,
        tupleBeq_of_admitsTuple (listOne tuple member) eqOne tupleAdmitted eqAdmitted⟩)).elim

theorem admits_intersect_inList {a b : List (List PartitionKeyValue)} {k : CosmosDriver.PartitionKeyValue}
    (aOne : ∀ tuple ∈ a, tuple.length = 1) (bOne : ∀ tuple ∈ b, tuple.length = 1)
    (aAdmitted : (inList a).admits [k] = true) (bAdmitted : (inList b).admits [k] = true) :
    (intersectPkFilters (.inList a) (.inList b)).admits [k] = true := by
  obtain ⟨t, tMember, tAdmitted⟩ := List.any_eq_true.mp aAdmitted
  obtain ⟨u, uMember, uAdmitted⟩ := List.any_eq_true.mp bAdmitted
  have kept : t ∈ a.filter fun item => b.any fun other => tupleBeq other item :=
    List.mem_filter.mpr ⟨tMember, List.any_eq_true.mpr
      ⟨u, uMember, tupleBeq_of_admitsTuple (bOne u uMember) (aOne t tMember) uAdmitted tAdmitted⟩⟩
  simp only [intersectPkFilters]
  split
  · rename_i empty
    rw [empty] at kept
    cases kept
  · rename_i single
    rw [single, List.mem_singleton] at kept
    rw [admits, ← kept]
    exact tAdmitted
  · exact List.any_eq_true.mpr ⟨t, kept, tAdmitted⟩

theorem admits_intersectPkFilters {a b : PartitionKeyFilter} {k : CosmosDriver.PartitionKeyValue}
    (aSingle : SingleTuples a) (bSingle : SingleTuples b) (aAdmitted : a.admits [k] = true)
    (bAdmitted : b.admits [k] = true) : (intersectPkFilters a b).admits [k] = true := by
  cases a <;> cases b
  case equality.equality x y =>
    simp only [intersectPkFilters]
    split
    · rfl
    · exact bAdmitted
    · exact aAdmitted
    · split
      · exact aAdmitted
      · rename_i _ _ differs
        exact absurd (tupleBeq_of_admitsTuple aSingle bSingle aAdmitted bAdmitted) differs
  case equality.inList x list => exact admits_intersectEqualityList aSingle bSingle aAdmitted bAdmitted
  case inList.equality list y => exact admits_intersectEqualityList bSingle aSingle bAdmitted aAdmitted
  case inList.inList x y => exact admits_intersect_inList aSingle bSingle aAdmitted bAdmitted
  all_goals simp only [admits, intersectPkFilters] at aAdmitted bAdmitted ⊢ <;> assumption

theorem singleTuples_intersectPkFilters {a b : PartitionKeyFilter} (left : SingleTuples a) (right : SingleTuples b) :
    SingleTuples (intersectPkFilters a b) := by
  cases a <;> cases b
  case equality.equality x y =>
    simp only [intersectPkFilters]
    split
    · trivial
    · exact right
    · exact left
    · split
      · exact left
      · trivial
  case equality.inList x list =>
    simp only [intersectPkFilters, intersectEqualityList]
    split
    · exact singleTuples_normalizePkUnion right
    · split
      · exact left
      · trivial
  case inList.equality list y =>
    simp only [intersectPkFilters, intersectEqualityList]
    split
    · exact singleTuples_normalizePkUnion left
    · split
      · exact right
      · trivial
  case inList.inList x y =>
    simp only [intersectPkFilters]
    split
    · trivial
    · rename_i _ value single
      have kept : value ∈ x.filter fun item => y.any fun other => tupleBeq other item := by
        rw [single]
        exact List.mem_singleton_self _
      exact left value (List.mem_filter.mp kept).1
    · intro tuple kept
      exact left tuple (List.mem_filter.mp kept).1
  all_goals simp only [intersectPkFilters, SingleTuples] at left right ⊢ <;> assumption

/-! ### Folds of filters -/

theorem reduceFilters_of_forall (f : PartitionKeyFilter → PartitionKeyFilter → PartitionKeyFilter)
    (Good : PartitionKeyFilter → Prop) (keeps : ∀ a b, Good a → Good b → Good (f a b)) :
    ∀ {filters : List PartitionKeyFilter}, filters ≠ [] → (∀ filter ∈ filters, Good filter) →
      Good (reduceFilters f filters)
  | [], nonEmpty, _ => absurd rfl nonEmpty
  | first :: rest, _, good => by
    have folded : ∀ (acc : PartitionKeyFilter) (rest : List PartitionKeyFilter), Good acc →
        (∀ filter ∈ rest, Good filter) → Good (rest.foldl f acc) := by
      intro acc rest accGood restGood
      induction rest generalizing acc with
      | nil => exact accGood
      | cons next more induction =>
        exact induction _ (keeps acc next accGood (restGood next List.mem_cons_self))
          fun filter member => restGood filter (List.mem_cons_of_mem _ member)
    exact folded first rest (good first List.mem_cons_self) fun filter member =>
      good filter (List.mem_cons_of_mem _ member)

theorem reduceFilters_of_exists (f : PartitionKeyFilter → PartitionKeyFilter → PartitionKeyFilter)
    (Good : PartitionKeyFilter → Prop) (left : ∀ a b, Good a → Good (f a b)) (right : ∀ a b, Good b → Good (f a b)) :
    ∀ {filters : List PartitionKeyFilter}, (∃ filter ∈ filters, Good filter) → Good (reduceFilters f filters)
  | [], found => by simp at found
  | first :: rest, found => by
    have folded : ∀ (acc : PartitionKeyFilter) (rest : List PartitionKeyFilter),
        (Good acc ∨ ∃ filter ∈ rest, Good filter) → Good (rest.foldl f acc) := by
      intro acc rest good
      induction rest generalizing acc with
      | nil => simpa using good
      | cons next more induction =>
        apply induction
        rcases good with accGood | ⟨filter, member, filterGood⟩
        · exact .inl (left acc next accGood)
        · rcases List.mem_cons.mp member with rfl | later
          · exact .inl (right acc filter filterGood)
          · exact .inr ⟨filter, later, filterGood⟩
    obtain ⟨filter, member, filterGood⟩ := found
    rcases List.mem_cons.mp member with rfl | later
    · exact folded filter rest (.inl filterGood)
    · exact folded first rest (.inr ⟨filter, later, filterGood⟩)

theorem chainLeaves_ne_nil (op : SqlBinaryOp) (expr : SqlScalarExpression) : chainLeaves op expr ≠ [] := by
  fun_induction chainLeaves op expr <;> simp_all

/-! ## The evaluator on the key's path -/

section Document

variable (builtins : Builtins) (doc : Value) (rootAlias : Option String) (params : Params)

def Holds (expr : SqlScalarExpression) : Prop :=
  evalScalar builtins doc rootAlias params expr = .ok (.boolean true)

variable {builtins doc rootAlias params}

theorem holds_and {left right : SqlScalarExpression} (holds : Holds builtins doc rootAlias params (.binary .and left right)) :
    Holds builtins doc rootAlias params left ∧ Holds builtins doc rootAlias params right := by
  obtain ⟨leftValue, leftOk, rightValue, rightOk, combined⟩ := evalScalar_binary_eq_ok.mp holds
  obtain ⟨rfl, rfl⟩ := evalAnd_eq_true.mp combined
  exact ⟨leftOk, rightOk⟩

theorem holds_or {left right : SqlScalarExpression} (holds : Holds builtins doc rootAlias params (.binary .or left right)) :
    Holds builtins doc rootAlias params left ∨ Holds builtins doc rootAlias params right := by
  obtain ⟨leftValue, leftOk, rightValue, rightOk, combined⟩ := evalScalar_binary_eq_ok.mp holds
  rcases evalOr_eq_true combined with rfl | rfl
  · exact .inl leftOk
  · exact .inr rightOk

theorem holds_of_mem_chainLeaves_and (expr : SqlScalarExpression) (holds : Holds builtins doc rootAlias params expr) :
    ∀ leaf ∈ chainLeaves .and expr, Holds builtins doc rootAlias params leaf := by
  fun_induction chainLeaves .and expr with
  | case1 left right ihLeft ihRight =>
    obtain ⟨leftHolds, rightHolds⟩ := holds_and holds
    intro leaf member
    rcases List.mem_append.mp member with inLeft | inRight
    · exact ihLeft leftHolds leaf inLeft
    · exact ihRight rightHolds leaf inRight
  | case2 nodeOp left right differs =>
    intro leaf member
    rw [List.mem_singleton.mp member]
    exact holds
  | case3 expr notBinary =>
    intro leaf member
    rw [List.mem_singleton.mp member]
    exact holds

theorem exists_holds_chainLeaves_or (expr : SqlScalarExpression) (holds : Holds builtins doc rootAlias params expr) :
    ∃ leaf ∈ chainLeaves .or expr, Holds builtins doc rootAlias params leaf := by
  fun_induction chainLeaves .or expr with
  | case1 left right ihLeft ihRight =>
    rcases holds_or holds with leftHolds | rightHolds
    · obtain ⟨leaf, member, leafHolds⟩ := ihLeft leftHolds
      exact ⟨leaf, List.mem_append_left _ member, leafHolds⟩
    · obtain ⟨leaf, member, leafHolds⟩ := ihRight rightHolds
      exact ⟨leaf, List.mem_append_right _ member, leafHolds⟩
  | case2 nodeOp left right differs => exact ⟨_, List.mem_singleton_self _, holds⟩
  | case3 expr notBinary => exact ⟨_, List.mem_singleton_self _, holds⟩

/-- What the evaluator reads at a path of the document: `Undefined` where it is missing. -/
def pathValue (doc : Value) (path : List String) : CosmosValue := ((jsonPath doc path).map fromJson).getD .undefined

theorem lookup_fromJsonEntries (key : String) (entries : List (String × Value)) :
    (fromJsonEntries entries).lookup key = (SortedMap.get entries key).map fromJson := by
  induction entries with
  | nil => rfl
  | cons entry rest induction =>
    obtain ⟨other, value⟩ := entry
    by_cases same : key = other
    · simp [fromJsonEntries, SortedMap.get, same]
    · have differs : (key == other) = false := beq_false_of_ne same
      simp [fromJsonEntries, List.lookup, SortedMap.get, same, differs, induction]

theorem memberAccess_pathValue (path : List String) (member : String) :
    memberAccess (pathValue doc path) member = pathValue doc (path ++ [member]) := by
  unfold pathValue
  rw [Emulator.jsonPath_append]
  cases jsonPath doc path with
  | none => rfl
  | some found =>
    cases found with
    | object entries => simp [Emulator.jsonPath, fromJson, memberAccess, jsonGet, lookup_fromJsonEntries]
    | number n =>
      simp only [Option.map_some, Option.getD_some, fromJson, Option.bind_some, Emulator.jsonPath, jsonGet,
        Option.bind_none, Option.map_none, Option.getD_none]
      split <;> rfl
    | null | bool _ | string _ | array _ => rfl

theorem resolvePropertyPath_ne_nil {expr : SqlScalarExpression} {path : List String}
    (resolved : resolvePropertyPath expr = some path) : path ≠ [] := by
  cases expr with
  | propertyRef name =>
    simp only [resolvePropertyPath, Option.some.injEq] at resolved
    simp [← resolved]
  | memberRef source member =>
    simp only [resolvePropertyPath, Option.map_eq_some_iff] at resolved
    obtain ⟨_, _, rfl⟩ := resolved
    simp
  | _ => simp [resolvePropertyPath] at resolved

theorem evalScalar_of_resolvePropertyPath (expr : SqlScalarExpression) :
    ∀ {name : String} {members : List String}, resolvePropertyPath expr = some (name :: members) →
      evalScalar builtins doc rootAlias params expr =
        .ok (pathValue doc (if rootAlias = some name then members else name :: members)) := by
  fun_induction resolvePropertyPath expr with
  | case1 property =>
    intro name members resolved
    simp only [Option.some.injEq, List.cons.injEq] at resolved
    obtain ⟨rfl, rfl⟩ := resolved
    simp only [evalScalar]
    split <;> simp [pathValue, Emulator.jsonPath, pure, Except.pure]
  | case2 source member induction =>
    intro name members resolved
    simp only [Option.map_eq_some_iff] at resolved
    obtain ⟨sourcePath, sourceResolved, extended⟩ := resolved
    obtain ⟨first, sourceMembers, rfl⟩ := List.exists_cons_of_ne_nil (resolvePropertyPath_ne_nil sourceResolved)
    simp only [List.cons_append, List.cons.injEq] at extended
    obtain ⟨rfl, rfl⟩ := extended
    rw [evalScalar, induction sourceResolved]
    show Except.ok (memberAccess _ member) = _
    rw [memberAccess_pathValue]
    split <;> rfl
  | case3 other notPath =>
    intro name members resolved
    simp at resolved

theorem evalScalar_of_isPkReference {expr : SqlScalarExpression} {path : List String}
    (reference : isPkReference expr path rootAlias = true) :
    evalScalar builtins doc rootAlias params expr = .ok (pathValue doc path) := by
  unfold isPkReference at reference
  cases resolved : resolvePropertyPath expr with
  | none => simp [resolved] at reference
  | some resolvedPath =>
    obtain ⟨name, members, rfl⟩ := List.exists_cons_of_ne_nil (resolvePropertyPath_ne_nil resolved)
    rw [evalScalar_of_resolvePropertyPath expr resolved]
    rw [resolved] at reference
    cases rootAlias with
    | none =>
      simp only [beq_iff_eq] at reference
      simp [reference]
    | some aliasName =>
      by_cases named : name = aliasName
      · subst named
        simp only [List.head?_cons, if_true, List.tail_cons, beq_iff_eq] at reference
        simp [reference]
      · simp only [List.head?_cons, Option.some.injEq, named, if_false, beq_iff_eq] at reference
        simp [reference, Ne.symm named]

/-! ## Equal values and stored components -/

def routingValue : CosmosValue → Option PartitionKeyValue
  | .string s => some (.string s)
  | .number n => some (.number n)
  | .integer i => some (.number (F64.ofInt i.toInt))
  | .boolean b => some (.bool b)
  | .null => some .null
  | _ => none

theorem isNaN_ofInt (i : Int64) : (F64.ofInt i.toInt).isNaN = false := by
  apply F64.not_isNaN_of_isFinite
  apply F64.isFinite_ofInt
  have upper := Int64.toInt_lt i
  have lower := Int64.le_toInt i
  omega

theorem cosmosEq_routing {a b : CosmosValue} {x : PartitionKeyValue} (equal : (cosmosEq a b).isTrue = true)
    (routed : routingValue a = some x) : ∃ y, routingValue b = some y ∧ x.beq y = true := by
  rw [isTrue_iff] at equal
  cases a <;> cases b <;> simp [cosmosEq, routingValue] at equal routed ⊢ <;> subst routed <;>
    simp only [PartitionKeyValue.beq]
  case integer.integer i j =>
    subst equal
    exact F64.beq_self (isNaN_ofInt i)
  all_goals simp_all

theorem cosmosEq_routing_symm {a b : CosmosValue} {x : PartitionKeyValue} (equal : (cosmosEq b a).isTrue = true)
    (routed : routingValue a = some x) : ∃ y, routingValue b = some y ∧ x.beq y = true := by
  rw [isTrue_iff] at equal
  cases a <;> cases b <;> simp [cosmosEq, routingValue] at equal routed ⊢ <;> subst routed <;>
    simp only [PartitionKeyValue.beq]
  case integer.integer i j =>
    subst equal
    exact F64.beq_self (isNaN_ofInt j)
  case number.number f g => exact F64.beq_comm.trans equal
  case number.integer f j => exact F64.beq_comm.trans equal
  case integer.number i g => exact F64.beq_comm.trans equal
  all_goals simp_all

theorem admitsComponent_of_jsonToPkComponent {value : Value} {k : CosmosDriver.PartitionKeyValue}
    (stored : jsonToPkComponent value = .ok k) :
    ∃ x, routingValue (fromJson value) = some x ∧ ∀ p, admitsComponent p k = x.beq p := by
  cases value with
  | null =>
    simp only [jsonToPkComponent, Except.ok.injEq] at stored
    subst stored
    exact ⟨.null, rfl, fun p => by cases p <;> rfl⟩
  | bool b =>
    simp only [jsonToPkComponent, Except.ok.injEq] at stored
    subst stored
    refine ⟨.bool b, rfl, fun p => ?_⟩
    cases p <;> simp [admitsComponent, PartitionKeyValue.beq, Bool.beq_comm]
  | string s =>
    simp only [jsonToPkComponent, Except.ok.injEq] at stored
    subst stored
    refine ⟨.string s, rfl, fun p => ?_⟩
    cases p <;> simp [admitsComponent, PartitionKeyValue.beq, eq_comm]
  | number n =>
    rw [Emulator.jsonToPkComponent_number, Except.ok.injEq] at stored
    subst stored
    have routed : routingValue (fromJson (.number n)) = some (.number (numberAsF64 n)) := by
      simp only [fromJson]
      split
      · rename_i i read
        simp [routingValue, numberAsF64_of_asI64 read]
      · rfl
    refine ⟨_, routed, fun p => ?_⟩
    cases p <;> simp [admitsComponent, PartitionKeyValue.beq, Emulator.pkNumber,
      FiniteF64.newLossy_beq (isFinite_numberAsF64 n)]
  | array _ => simp [jsonToPkComponent] at stored
  | object _ => simp [jsonToPkComponent] at stored

theorem routingValue_of_extractLiteralValue {expr : SqlScalarExpression} {p : PartitionKeyValue} {value : CosmosValue}
    (literal : extractLiteralValue expr params = some p)
    (evaluated : evalScalar builtins doc rootAlias params expr = .ok value) {y : PartitionKeyValue}
    (routed : routingValue value = some y) : p = y := by
  cases expr with
  | literal lit =>
    simp only [evalScalar, pure, Except.pure, Except.ok.injEq] at evaluated
    subst evaluated
    cases lit <;> simp [extractLiteralValue, PartitionKeyValue.tryNumber, evalLiteral, routingValue] at literal routed
    all_goals grind
  | parameterRef name =>
    simp only [evalScalar] at evaluated
    cases bound : resolveParameterValue params name with
    | none => simp [bound] at evaluated
    | some parameter =>
      simp only [bound, pure, Except.pure, Except.ok.injEq] at evaluated
      subst evaluated
      simp only [resolveParameterValue, Option.map_eq_some_iff] at bound
      obtain ⟨entry, found, rfl⟩ := bound
      simp only [extractLiteralValue, resolvePkParameter, found, Option.some.injEq] at literal
      subst literal
      cases entry with
      | mk entryName parameter =>
        cases parameter with
        | number n =>
          have finite := isFinite_numberAsF64 n
          have routedNumber : routingValue (fromJson (.number n)) = some (.number (numberAsF64 n)) := by
            simp only [fromJson]
            split
            · rename_i i read
              simp [routingValue, numberAsF64_of_asI64 read]
            · rfl
          rw [routedNumber, Option.some.injEq] at routed
          simp [PartitionKeyValue.tryNumber, finite, ← routed]
        | _ => simp_all [fromJson, routingValue]
  | _ => simp [extractLiteralValue] at literal

theorem admitsComponent_of_equal {path : List String} {k : CosmosDriver.PartitionKeyValue}
    {valueSide : SqlScalarExpression} {p : PartitionKeyValue} {value : CosmosValue}
    (component : KeyComponent doc path k) (literal : extractLiteralValue valueSide params = some p)
    (evaluated : evalScalar builtins doc rootAlias params valueSide = .ok value)
    (equal : (cosmosEq (pathValue doc path) value).isTrue = true) : admitsComponent p k = true := by
  rcases component with ⟨missing, -⟩ | ⟨stored, found, fromStored⟩
  · simp [pathValue, missing, cosmosEq, CosmosValue.isTrue] at equal
  · rw [pathValue, found] at equal
    obtain ⟨x, routed, admitted⟩ := admitsComponent_of_jsonToPkComponent fromStored
    obtain ⟨y, valueRouted, same⟩ := cosmosEq_routing equal routed
    rw [admitted, routingValue_of_extractLiteralValue literal evaluated valueRouted]
    exact same

theorem admitsComponent_of_equal_symm {path : List String} {k : CosmosDriver.PartitionKeyValue}
    {valueSide : SqlScalarExpression} {p : PartitionKeyValue} {value : CosmosValue}
    (component : KeyComponent doc path k) (literal : extractLiteralValue valueSide params = some p)
    (evaluated : evalScalar builtins doc rootAlias params valueSide = .ok value)
    (equal : (cosmosEq value (pathValue doc path)).isTrue = true) : admitsComponent p k = true := by
  rcases component with ⟨missing, -⟩ | ⟨stored, found, fromStored⟩
  · cases value <;> simp [pathValue, missing, cosmosEq, CosmosValue.isTrue] at equal
  · rw [pathValue, found] at equal
    obtain ⟨x, routed, admitted⟩ := admitsComponent_of_jsonToPkComponent fromStored
    obtain ⟨y, valueRouted, same⟩ := cosmosEq_routing_symm equal routed
    rw [admitted, routingValue_of_extractLiteralValue literal evaluated valueRouted]
    exact same

theorem admitsComponent_of_holds_equal {path : List String} {k : CosmosDriver.PartitionKeyValue}
    {pkSide valueSide : SqlScalarExpression} {p : PartitionKeyValue} (component : KeyComponent doc path k)
    (holds : Holds builtins doc rootAlias params (.binary .equal pkSide valueSide) ∨
      Holds builtins doc rootAlias params (.binary .equal valueSide pkSide))
    (reference : isPkReference pkSide path rootAlias = true) (literal : extractLiteralValue valueSide params = some p) :
    admitsComponent p k = true := by
  have atPath := @evalScalar_of_isPkReference builtins doc rootAlias params pkSide path reference
  rcases holds with holds | holds
  · obtain ⟨pkValue, pkOk, value, valueOk, equal⟩ := evalScalar_binary_eq_ok.mp holds
    rw [atPath, Except.ok.injEq] at pkOk
    subst pkOk
    exact admitsComponent_of_equal component literal valueOk (isTrue_iff.mpr equal)
  · obtain ⟨value, valueOk, pkValue, pkOk, equal⟩ := evalScalar_binary_eq_ok.mp holds
    rw [atPath, Except.ok.injEq] at pkOk
    subst pkOk
    exact admitsComponent_of_equal_symm component literal valueOk (isTrue_iff.mpr equal)

theorem admitsComponent_of_equalityOperand {path : List String} {k : CosmosDriver.PartitionKeyValue}
    {pkSide valueSide : SqlScalarExpression} {p : PartitionKeyValue} (component : KeyComponent doc path k)
    (holds : Holds builtins doc rootAlias params (.binary .equal pkSide valueSide) ∨
      Holds builtins doc rootAlias params (.binary .equal valueSide pkSide))
    (operand : equalityOperand path rootAlias params pkSide valueSide = some p) : admitsComponent p k = true := by
  unfold equalityOperand at operand
  split at operand
  · exact admitsComponent_of_holds_equal component holds ‹_› operand
  · cases operand

theorem exists_admitted_item {path : List String} {k : CosmosDriver.PartitionKeyValue}
    {expression : SqlScalarExpression} {items : List SqlScalarExpression} (component : KeyComponent doc path k)
    (reference : isPkReference expression path rootAlias = true)
    (holds : Holds builtins doc rootAlias params (.in expression items false)) :
    ∃ item ∈ items, ∀ p, extractLiteralValue item params = some p → admitsComponent p k = true := by
  obtain ⟨value, valueOk, found, inOk, result⟩ := evalScalar_in_eq_ok.mp holds
  simp only [Bool.false_eq_true, if_false, CosmosValue.boolean.injEq] at result
  subst result
  rw [evalScalar_of_isPkReference reference, Except.ok.injEq] at valueOk
  subst valueOk
  obtain ⟨item, member, itemValue, itemOk, equal⟩ := evalIn_eq_ok_true inOk
  exact ⟨item, member, fun p literal => admitsComponent_of_equal component literal itemOk equal⟩

theorem admits_reduce_union {left right : SqlScalarExpression} {key : List CosmosDriver.PartitionKeyValue}
    (extract : SqlScalarExpression → PartitionKeyFilter)
    (holds : Holds builtins doc rootAlias params (.binary .or left right))
    (sound : ∀ disjunct ∈ flatten .or (.binary .or left right), Holds builtins doc rootAlias params disjunct →
      (extract disjunct).admits key = true) :
    (reduceFilters unionPkFilters ((flatten .or (.binary .or left right)).attach.map fun disjunct =>
      extract disjunct.1)).admits key = true := by
  obtain ⟨disjunct, member, disjunctHolds⟩ := exists_holds_chainLeaves_or _ holds
  have inFlatten : disjunct ∈ flatten .or (.binary .or left right) := (flatten_eq .or _).symm ▸ member
  apply reduceFilters_of_exists _ (fun filter => filter.admits key = true)
    (fun _ _ first => admits_unionPkFilters (.inl first)) (fun _ _ second => admits_unionPkFilters (.inr second))
  exact ⟨_, List.mem_map.mpr ⟨⟨disjunct, inFlatten⟩, List.mem_attach _ _, rfl⟩, sound disjunct inFlatten disjunctHolds⟩

/-! ## A single path -/

theorem singleTuples_extractSinglePk (expr : SqlScalarExpression) (path : List String) :
    SingleTuples (extractSinglePk expr path rootAlias params) := by
  fun_induction extractSinglePk expr path rootAlias params with
  | case1 => rfl
  | case3 expression items reference | case4 expression items reference =>
    dsimp only
    split
    · intro tuple member
      obtain ⟨item, -, made⟩ := List.mem_filterMap.mp member
      obtain ⟨v, -, rfl⟩ := Option.map_eq_some_iff.mp made
      rfl
    · trivial
  | case6 left right induction =>
    apply reduceFilters_of_forall _ SingleTuples (fun _ _ => singleTuples_intersectPkFilters)
    · simp [flatten_eq, chainLeaves_ne_nil]
    · intro filter member
      obtain ⟨conjunct, -, rfl⟩ := List.mem_map.mp member
      exact induction conjunct
  | case7 left right induction =>
    apply reduceFilters_of_forall _ SingleTuples (fun _ _ => singleTuples_unionPkFilters)
    · simp [flatten_eq, chainLeaves_ne_nil]
    · intro filter member
      obtain ⟨disjunct, -, rfl⟩ := List.mem_map.mp member
      exact induction disjunct
  | _ => trivial

theorem admits_extractSinglePk {path : List String} {k : CosmosDriver.PartitionKeyValue}
    (component : KeyComponent doc path k) (expr : SqlScalarExpression)
    (holds : Holds builtins doc rootAlias params expr) :
    (extractSinglePk expr path rootAlias params).admits [k] = true := by
  fun_induction extractSinglePk expr path rootAlias params with
  | case1 left right val operand =>
    rw [admits, admitsTuple_single]
    rw [Option.orElse_apply] at operand
    -- the planner reads the left operand as the key first, then the right
    cases leftSide : equalityOperand path rootAlias params left right with
    | some leftVal =>
      rw [leftSide, Option.orElse_some, Option.some.injEq] at operand
      subst operand
      exact admitsComponent_of_equalityOperand component (.inl holds) leftSide
    | none =>
      simp only [leftSide, Option.orElse_none] at operand
      exact admitsComponent_of_equalityOperand component (.inr holds) operand
  | case3 expression items reference | case4 expression items reference =>
    dsimp only
    split
    · rename_i sameLength
      obtain ⟨item, member, admitted⟩ := exists_admitted_item component reference holds
      have someLiteral : (extractLiteralValue item params).isSome = true := by
        simpa using List.filterMap_length_eq_length.mp sameLength item member
      obtain ⟨p, extracted⟩ := Option.isSome_iff_exists.mp someLiteral
      refine List.any_eq_true.mpr ⟨[p], List.mem_filterMap.mpr ⟨item, member, by simp [extracted]⟩, ?_⟩
      rw [admitsTuple_single]
      exact admitted p extracted
    · rfl
  | case6 left right induction =>
    have leaves := holds_of_mem_chainLeaves_and _ holds
    -- the invariant carried through the fold: one component per tuple, and the key admitted
    refine (reduceFilters_of_forall intersectPkFilters (fun filter => SingleTuples filter ∧ filter.admits [k] = true)
      (fun _ _ first second => ⟨singleTuples_intersectPkFilters first.1 second.1,
        admits_intersectPkFilters first.1 second.1 first.2 second.2⟩) ?_ ?_).2
    · simp [flatten_eq, chainLeaves_ne_nil]
    · intro filter member
      obtain ⟨conjunct, -, rfl⟩ := List.mem_map.mp member
      have conjunctHolds := leaves conjunct.1 (flatten_eq .and _ ▸ conjunct.2)
      exact ⟨singleTuples_extractSinglePk conjunct.1 path, induction conjunct conjunctHolds⟩
  | case7 left right induction =>
    exact admits_reduce_union (fun disjunct => extractSinglePk disjunct path rootAlias params) holds
      fun disjunct member disjunctHolds => induction ⟨disjunct, member⟩ disjunctHolds
  | _ => rfl

/-! ## A hierarchical key -/

def ScanAdmits (k : CosmosDriver.PartitionKeyValue) (scan : ComponentScan) : Prop :=
  (∀ v, scan.equalValue = some v → admitsComponent v k = true) ∧
    ∀ values, scan.inValues = some values → ∃ v ∈ values, admitsComponent v k = true

theorem scanConjunct_admits {path : List String} {k : CosmosDriver.PartitionKeyValue} {scan : ComponentScan}
    {conjunct : SqlScalarExpression} (component : KeyComponent doc path k)
    (holds : Holds builtins doc rootAlias params conjunct) (admitted : ScanAdmits k scan) :
    ∃ next, scanConjunct path rootAlias params scan conjunct = some next ∧ ScanAdmits k next := by
  unfold scanConjunct
  split
  · rename_i left right
    have found : ∀ v, (if isPkReference left path rootAlias = true then extractLiteralValue right params
        else if isPkReference right path rootAlias = true then extractLiteralValue left params else none) = some v →
        admitsComponent v k = true := by
      intro v extracted
      split at extracted
      · exact admitsComponent_of_holds_equal component (.inl holds) ‹_› extracted
      · split at extracted
        · exact admitsComponent_of_holds_equal component (.inr holds) ‹_› extracted
        · cases extracted
    dsimp only
    split
    · exact ⟨scan, rfl, admitted⟩
    · rename_i v extracted
      have vAdmitted := found v extracted
      split
      · exact ⟨_, rfl, fun w set => (by cases set; exact vAdmitted), admitted.2⟩
      · rename_i existing known
        rw [if_pos (beq_of_admitsComponent (admitted.1 existing known) vAdmitted)]
        exact ⟨scan, rfl, admitted⟩
  · rename_i expression items
    split
    · rename_i reference
      obtain ⟨item, member, itemAdmitted⟩ := exists_admitted_item component reference holds
      split
      · exact ⟨scan, rfl, admitted⟩
      · rename_i values extracted
        obtain ⟨v, vMember, vExtracted⟩ := (Option.listMapM_eq_some_iff.mp extracted).exists_of_mem_left member
        have vAdmitted := itemAdmitted v vExtracted
        dsimp only
        -- a second list keeps the values of the first that it also holds
        cases known : scan.inValues with
        | none =>
          dsimp only
          rw [if_neg (List.ne_nil_of_mem vMember ∘ List.isEmpty_iff.mp)]
          exact ⟨_, rfl, admitted.1, fun narrowed set => by cases set; exact ⟨v, vMember, vAdmitted⟩⟩
        | some existing =>
          obtain ⟨w, wMember, wAdmitted⟩ := admitted.2 existing known
          have kept : w ∈ existing.filter fun x => values.any fun u => u.beq x :=
            List.mem_filter.mpr ⟨wMember, List.any_eq_true.mpr ⟨v, vMember, beq_of_admitsComponent vAdmitted wAdmitted⟩⟩
          dsimp only
          rw [if_neg (List.ne_nil_of_mem kept ∘ List.isEmpty_iff.mp)]
          exact ⟨_, rfl, admitted.1, fun narrowed set => by cases set; exact ⟨w, kept, wAdmitted⟩⟩
    · exact ⟨scan, rfl, admitted⟩
  · exact ⟨scan, rfl, admitted⟩

theorem scanComponent_admits {path : List String} {k : CosmosDriver.PartitionKeyValue}
    (component : KeyComponent doc path k) :
    ∀ {conjuncts : List SqlScalarExpression} {scan : ComponentScan},
      (∀ conjunct ∈ conjuncts, Holds builtins doc rootAlias params conjunct) → ScanAdmits k scan →
        ∃ result, conjuncts.foldlM (scanConjunct path rootAlias params) scan = some result ∧ ScanAdmits k result
  | [], scan, _, admitted => ⟨scan, rfl, admitted⟩
  | conjunct :: rest, scan, holds, admitted => by
    obtain ⟨next, stepped, nextAdmitted⟩ :=
      scanConjunct_admits component (holds conjunct List.mem_cons_self) admitted
    rw [List.foldlM_cons, stepped]
    exact scanComponent_admits component (fun c member => holds c (List.mem_cons_of_mem _ member)) nextAdmitted

def ComponentsAdmit (perComponent : List (List PartitionKeyValue)) (key : List CosmosDriver.PartitionKeyValue) : Prop :=
  List.Forall₂ (fun values k => ∃ v ∈ values, admitsComponent v k = true) perComponent key

theorem componentsAdmit_append {perComponent : List (List PartitionKeyValue)} {key : List CosmosDriver.PartitionKeyValue}
    {values : List PartitionKeyValue} {k : CosmosDriver.PartitionKeyValue} (admitted : ComponentsAdmit perComponent key)
    (next : ∃ v ∈ values, admitsComponent v k = true) : ComponentsAdmit (perComponent ++ [values]) (key ++ [k]) :=
  List.rel_append admitted (List.Forall₂.cons next .nil)

theorem collectComponents_admits {conjuncts : List SqlScalarExpression}
    (holds : ∀ conjunct ∈ conjuncts, Holds builtins doc rootAlias params conjunct) :
    ∀ {paths : List (List String)} {restKey doneKey : List CosmosDriver.PartitionKeyValue}
      {perComponent : List (List PartitionKeyValue)},
      List.Forall₂ (KeyComponent doc) paths restKey → ComponentsAdmit perComponent doneKey →
        (∀ filter, collectComponents conjuncts rootAlias params paths perComponent = .error filter →
          filter.admits (doneKey ++ restKey) = true) ∧
        (∀ result, collectComponents conjuncts rootAlias params paths perComponent = .ok result →
          ∃ keyPrefix, ComponentsAdmit result keyPrefix ∧ keyPrefix <+: doneKey ++ restKey)
  | [], restKey, doneKey, perComponent, components, admitted => by
    cases components
    refine ⟨fun filter stopped => (by cases stopped), fun result finished => ?_⟩
    cases finished
    exact ⟨doneKey, admitted, by simp⟩
  | path :: paths, _, doneKey, perComponent, @List.Forall₂.cons _ _ _ _ k _ restKey component components, admitted => by
    obtain ⟨scan, scanned, scanAdmitted⟩ :=
      scanComponent_admits component holds
        (show ScanAdmits k ⟨none, none⟩ from ⟨fun _ none => (by cases none), fun _ none => (by cases none)⟩)
    have next := fun values (found : ∃ v ∈ values, admitsComponent v k = true) =>
      collectComponents_admits holds components (componentsAdmit_append admitted found)
    simp only [List.append_assoc, List.singleton_append] at next
    rw [collectComponents, show scanComponent path rootAlias params conjuncts = some scan from scanned]
    dsimp only
    split
    · rename_i eq list known listed
      obtain ⟨v, vMember, vAdmitted⟩ := scanAdmitted.2 list listed
      have eqAdmitted := scanAdmitted.1 eq known
      rw [if_pos (show (list.any fun v => v.beq eq) = true from
        List.any_eq_true.mpr ⟨v, vMember, beq_of_admitsComponent vAdmitted eqAdmitted⟩)]
      exact next [eq] ⟨eq, List.mem_singleton_self _, eqAdmitted⟩
    · rename_i eq known _
      exact next [eq] ⟨eq, List.mem_singleton_self _, scanAdmitted.1 eq known⟩
    · rename_i list _ listed
      exact next list (scanAdmitted.2 list listed)
    · split
      · exact ⟨fun filter stopped => (by cases stopped; rfl), fun result finished => (by cases finished)⟩
      · refine ⟨fun filter stopped => (by cases stopped), fun result finished => ?_⟩
        cases finished
        exact ⟨doneKey, admitted, by simp⟩

theorem mem_cartesianProduct :
    ∀ {perComponent : List (List PartitionKeyValue)} {tuples : List (List PartitionKeyValue)}
      {done chosen : List PartitionKeyValue},
      done ∈ tuples → List.Forall₂ (fun v values => v ∈ values) chosen perComponent →
        done ++ chosen ∈ perComponent.foldl (fun tuples component =>
          tuples.flatMap fun pre => component.map fun v => pre ++ [v]) tuples
  | [], _, done, _, member, .nil => by simpa using member
  | component :: rest, tuples, done, _, member, @List.Forall₂.cons _ _ _ v _ chosen _ chosenHere chosenRest => by
    rw [List.foldl_cons]
    have extended : done ++ [v] ∈ tuples.flatMap fun pre => component.map fun v => pre ++ [v] :=
      List.mem_flatMap.mpr ⟨done, member, List.mem_map.mpr ⟨v, chosenHere, rfl⟩⟩
    simpa using mem_cartesianProduct extended chosenRest

theorem admitsTuple_of_forall₂ :
    ∀ {tuple : List PartitionKeyValue} {keyPrefix : List CosmosDriver.PartitionKeyValue},
      List.Forall₂ (fun v k => admitsComponent v k = true) tuple keyPrefix →
        ∀ more, admitsTuple tuple (keyPrefix ++ more) = true
  | [], [], .nil, more => by cases more <;> rfl
  | _ :: _, _ :: _, .cons here rest, more => by simp [admitsTuple, here, admitsTuple_of_forall₂ rest more]

theorem exists_chosen_values {perComponent : List (List PartitionKeyValue)}
    {keyPrefix : List CosmosDriver.PartitionKeyValue} (admitted : ComponentsAdmit perComponent keyPrefix) :
    ∃ chosen, List.Forall₂ (fun v values => v ∈ values) chosen perComponent ∧
      List.Forall₂ (fun v k => admitsComponent v k = true) chosen keyPrefix := by
  unfold ComponentsAdmit at admitted
  induction admitted with
  | nil => exact ⟨[], .nil, .nil⟩
  | cons here rest induction =>
    obtain ⟨v, member, vAdmitted⟩ := here
    obtain ⟨chosen, chosenIn, chosenAdmitted⟩ := induction
    exact ⟨v :: chosen, .cons member chosenIn, .cons vAdmitted chosenAdmitted⟩

theorem exists_admitted_tuple {perComponent : List (List PartitionKeyValue)}
    {keyPrefix : List CosmosDriver.PartitionKeyValue} (admitted : ComponentsAdmit perComponent keyPrefix) :
    ∃ tuple ∈ cartesianProduct perComponent, ∀ more, admitsTuple tuple (keyPrefix ++ more) = true := by
  obtain ⟨chosen, chosenIn, chosenAdmitted⟩ := exists_chosen_values admitted
  have product := mem_cartesianProduct (List.mem_singleton_self ([] : List PartitionKeyValue)) chosenIn
  exact ⟨chosen, by simpa [cartesianProduct] using product, admitsTuple_of_forall₂ chosenAdmitted⟩

theorem prod_length_ne_zero {perComponent : List (List PartitionKeyValue)}
    {keyPrefix : List CosmosDriver.PartitionKeyValue} (admitted : ComponentsAdmit perComponent keyPrefix) :
    (perComponent.map List.length).prod ≠ 0 := by
  obtain ⟨chosen, chosenIn, -⟩ := exists_chosen_values admitted
  clear admitted
  induction chosenIn with
  | nil => simp
  | cons member rest induction =>
    rw [List.map_cons, List.prod_cons]
    exact Nat.mul_ne_zero (List.ne_nil_of_mem member ∘ List.length_eq_zero_iff.mp) induction

theorem admits_hierarchicalConjunction {conjuncts : List SqlScalarExpression} {segments : List (List String)}
    {key : List CosmosDriver.PartitionKeyValue} (components : List.Forall₂ (KeyComponent doc) segments key)
    (holds : ∀ conjunct ∈ conjuncts, Holds builtins doc rootAlias params conjunct) :
    (hierarchicalConjunction conjuncts segments rootAlias params).admits key = true := by
  obtain ⟨stopped, finished⟩ := collectComponents_admits holds components (show ComponentsAdmit [] [] from .nil)
  unfold hierarchicalConjunction
  split
  · rename_i filter stop
    exact stopped filter stop
  · rename_i perComponent collected
    obtain ⟨keyPrefix, admitted, more, joined⟩ := finished perComponent collected
    rw [List.nil_append] at joined
    subst joined
    obtain ⟨tuple, member, tupleAdmitted⟩ := exists_admitted_tuple admitted
    dsimp only
    rw [if_neg (prod_length_ne_zero admitted)]
    split
    · rfl
    · split
      · rename_i single
        rw [single, List.mem_singleton] at member
        rw [admits, ← member]
        exact tupleAdmitted more
      · exact List.any_eq_true.mpr ⟨tuple, member, tupleAdmitted more⟩

theorem admits_extractHierarchicalPk {segments : List (List String)} {key : List CosmosDriver.PartitionKeyValue}
    (components : List.Forall₂ (KeyComponent doc) segments key) (expr : SqlScalarExpression)
    (holds : Holds builtins doc rootAlias params expr) :
    (extractHierarchicalPk expr segments rootAlias params).admits key = true := by
  fun_induction extractHierarchicalPk expr segments rootAlias params with
  | case1 left right induction =>
    exact admits_reduce_union (fun disjunct => extractHierarchicalPk disjunct segments rootAlias params) holds
      fun disjunct member disjunctHolds => induction ⟨disjunct, member⟩ disjunctHolds
  | case2 expr notOr =>
    apply admits_hierarchicalConjunction components
    intro conjunct member
    exact holds_of_mem_chainLeaves_and expr holds conjunct (flatten_eq .and expr ▸ member)

theorem admits_extractPkFromExpression {segments : List (List String)} {key : List CosmosDriver.PartitionKeyValue}
    (components : List.Forall₂ (KeyComponent doc) segments key) (expr : SqlScalarExpression)
    (holds : Holds builtins doc rootAlias params expr) :
    (extractPkFromExpression expr segments rootAlias params).admits key = true := by
  unfold extractPkFromExpression
  split
  · cases components with
    | cons component rest =>
      cases rest
      exact admits_extractSinglePk component expr holds
  · exact admits_extractHierarchicalPk components expr holds

end Document

/-! ## The stored key and the filter step -/

theorem dropWhile_slash {chars : List Char} (single : ¬ ['/', '/'] <+: chars) :
    chars.dropWhile (· = '/') = stripSlash chars := by
  cases chars with
  | nil => rfl
  | cons c rest =>
    by_cases slash : c = '/'
    · subst slash
      cases rest with
      | nil => rfl
      | cons d more =>
        have notSlash : d ≠ '/' := by
          rintro rfl
          exact single (List.prefix_append _ more)
        simp [notSlash, stripSlash]
    · simp [slash, stripSlash]

theorem keyComponents_of_extractPkFromBody {body : Value} {pkPaths : List String}
    {key : List CosmosDriver.PartitionKeyValue} (singleSlash : ∀ path ∈ pkPaths, ¬ ['/', '/'] <+: path.toList)
    (stored : Emulator.extractPkFromBody body pkPaths = .ok key) :
    List.Forall₂ (KeyComponent body) (pkPaths.map pkSegment) key := by
  obtain ⟨⟨entries, rfl⟩, components⟩ := Emulator.extractPkFromBody_eq_ok stored
  rw [List.forall₂_map_left_iff]
  clear stored
  induction components with
  | nil => exact .nil
  | @cons path component paths rest first _ induction =>
    have segments := Emulator.keyComponent_of_extractPkAtPath first
    rw [dropWhile_slash (singleSlash path List.mem_cons_self)] at segments
    exact .cons segments (induction fun other member => singleSlash other (List.mem_cons_of_mem _ member))

theorem evalWhere_of_mem_filterRows {builtins : Builtins} {query : SqlQuery} {parameters : Params}
    {documents rows : List Value} {document : Value} (plainRoot : usesBindingContext query = false)
    (filtered : filterRows builtins query parameters documents = .ok rows) (returned : document ∈ rows) :
    evalWhere builtins document (getRootAlias query) parameters query.whereClause = .ok true := by
  have noBinding : (query.fromClause.filter fun fromClause => !isPlainRootFrom fromClause) = none := by
    cases fromClause : query.fromClause with
    | none => rfl
    | some clause =>
      rw [usesBindingContext, fromClause] at plainRoot
      simpa using plainRoot
  unfold filterRows at filtered
  rw [noBinding] at filtered
  apply Except.foldlM_invariant (fun rows => ∀ document ∈ rows,
    evalWhere builtins document (getRootAlias query) parameters query.whereClause = .ok true) _ (by simp) filtered
    document returned
  intro doc _ acc next accKept stepped document member
  obtain ⟨keep, kept, built⟩ := Except.bind_eq_ok_iff.mp stepped
  rw [Except.mapError_eq_ok_iff] at kept
  rw [Except.pure_eq_ok_iff] at built
  subst built
  split at member
  · rename_i keepTrue
    rcases List.mem_append.mp member with old | new
    · exact accKept document old
    · rw [List.mem_singleton.mp new, kept, keepTrue]
  · exact accKept document member

/-- The partition key filter of a query over the plain root admits the stored key of every
document the query's filter step returns, whatever the arithmetic and built-in functions. -/
theorem query_plan_admits_every_matching_document (builtins : Builtins) (query : SqlQuery) (pkPaths : List String)
    (parameters : Params) {documents rows : List Value} {document : Value}
    {key : List CosmosDriver.PartitionKeyValue} (plainRoot : usesBindingContext query = false)
    (singleSlash : ∀ path ∈ pkPaths, ¬ ['/', '/'] <+: path.toList)
    (filtered : filterRows builtins query parameters documents = .ok rows) (returned : document ∈ rows)
    (stored : Emulator.extractPkFromBody document pkPaths = .ok key) :
    (planPkFilters query pkPaths parameters).admits key = true := by
  have satisfied := evalWhere_of_mem_filterRows plainRoot filtered returned
  unfold planPkFilters
  split
  · rfl
  · cases whereClause : query.whereClause with
    | none => rfl
    | some expression =>
      rw [whereClause] at satisfied
      exact admits_extractPkFromExpression (keyComponents_of_extractPkFromBody singleSlash stored) expression
        (evalWhere_some_eq_ok_true.mp satisfied)

/-- `SELECT * FROM c WHERE c.pk = 'a'` over a container keyed by `/pk`, and a document
with `pk = 'a'`. -/
theorem query_plan_admits_pk_equality_document :
    usesBindingContext ⟨some (.aliased (.path "c" []) none),
        some (.binary .equal (.memberRef (.propertyRef "c") "pk") (.literal (.string "a")))⟩ = false ∧
      (∀ path ∈ ["/pk"], ¬ ['/', '/'] <+: path.toList) ∧
      filterRows ⟨fun x _ => x, fun x _ => x, fun x _ => x, fun x _ => x, fun x _ => x,
          fun name _ => .error (.unknownFunction name)⟩
        ⟨some (.aliased (.path "c" []) none),
          some (.binary .equal (.memberRef (.propertyRef "c") "pk") (.literal (.string "a")))⟩ []
        [.object [("id", .string "1"), ("pk", .string "a")]] = .ok [.object [("id", .string "1"), ("pk", .string "a")]] ∧
      Emulator.extractPkFromBody (.object [("id", .string "1"), ("pk", .string "a")]) ["/pk"] = .ok [.string "a"] ∧
      (planPkFilters ⟨some (.aliased (.path "c" []) none),
          some (.binary .equal (.memberRef (.propertyRef "c") "pk") (.literal (.string "a")))⟩ ["/pk"] []).admits
        [.string "a"] = true :=
  ⟨by decide, by decide, by decide, by decide,
    @query_plan_admits_every_matching_document
      ⟨fun x _ => x, fun x _ => x, fun x _ => x, fun x _ => x, fun x _ => x, fun name _ => .error (.unknownFunction name)⟩
      _ _ _ [.object [("id", .string "1"), ("pk", .string "a")]] [.object [("id", .string "1"), ("pk", .string "a")]]
      (.object [("id", .string "1"), ("pk", .string "a")]) _ (by decide) (by decide) (by decide)
      (List.mem_singleton_self _) (by decide)⟩

end CosmosDriver.Query
