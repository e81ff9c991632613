import Mathlib
import AzureSdk.Lib.Outcome
import AzureSdk.Lib.EState
import AzureSdk.Lib.SortedMap
import AzureSdk.Lib.Text
import AzureSdk.Cosmos.BinaryJson.Value

/-!
# Local evaluation of PATCH operations

`apply_patch_ops` applies the operations of a PATCH request to the document the
Read-Modify-Write handler has read, in place and in order, and stops at the first
failure. Every evaluator parses its JSON Pointer, walks to the parent of the target
through shared lookups and writes once, at the end, through the borrow it walked to;
`move_value` stages its removal and insertion on a clone and commits the clone only
when both succeed.

The document is the state of an `EStateM` whose error is `Halt PatchEvalError`, so a
panic of the code (an array index out of bounds) is an outcome the model can reach,
and a failed operation leaves whatever the code had written before failing. The walk
records the keys and indices it took, and the write puts the new parent back at
them. Floating-point addition and the integer-to-float casts are parameters: no
result here depends on what they compute.
-/

namespace CosmosDriver.PatchEval

open Outcome EState CosmosDriver.BinaryJson

set_option autoImplicit false

/-- `CosmosNumber`, the delta of an increment. -/
inductive CosmosNumber where
  | int (value : Int64)
  | float (value : F64)

inductive PatchOperation where
  | add (path : String) (value : Value)
  | set (path : String) (value : Value)
  | replace (path : String) (value : Value)
  | remove (path : String)
  | increment (path : String) (value : CosmosNumber)
  | move (source path : String)

inductive PatchEvalError where
  | invalidPath (path : String)
  | missingParent (path : String)
  | missingTarget (path : String)
  | invalidArrayIndex (token path : String)
  | arrayIndexOutOfRange (index len : Nat) (path : String)
  | typeMismatch (expected actual path : String)
  | cannotRemoveRoot
  | invalidMove (message : String)
  deriving DecidableEq

/-- `impl Display for PatchEvalError`. -/
def PatchEvalError.message : PatchEvalError → String
  | .invalidPath path => "invalid JSON Pointer: '" ++ path ++ "'"
  | .missingParent path => "missing parent path: '" ++ path ++ "'"
  | .missingTarget path => "missing path: '" ++ path ++ "'"
  | .invalidArrayIndex token path => "invalid array index '" ++ token ++ "' in path '" ++ path ++ "'"
  | .arrayIndexOutOfRange index len path =>
      "array index " ++ String.ofList (Text.showNat index) ++ " out of range (len=" ++
        String.ofList (Text.showNat len) ++ ") in path '" ++ path ++ "'"
  | .typeMismatch expected actual path =>
      "type mismatch at '" ++ path ++ "': expected " ++ expected ++ ", got " ++ actual
  | .cannotRemoveRoot => "cannot remove root document"
  | .invalidMove message => "invalid move: " ++ message

structure F64Arith where
  add : F64 → F64 → F64
  ofI64 : Int64 → F64
  ofU64 : UInt64 → F64

abbrev Eval (α : Type) := EStateM (Halt PatchEvalError) Value α

/-! ## JSON Pointers -/

/-- `unescape_token` on the characters still to read of the token `raw`. -/
def unescapeChars (raw : String) : List Char → Run PatchEvalError (List Char)
  | [] => .ok []
  | c :: rest =>
      if c = '~' then
        match rest with
        | '0' :: after => ('~' :: ·) <$> unescapeChars raw after
        | '1' :: after => ('/' :: ·) <$> unescapeChars raw after
        | _ => fail (.invalidPath raw)
      else (c :: ·) <$> unescapeChars raw rest

def unescapeToken (raw : List Char) : Run PatchEvalError String :=
  String.ofList <$> unescapeChars (String.ofList raw) raw

def parsePointer (path : String) : Run PatchEvalError (List String) :=
  match path.toList with
  | [] => .ok []
  | c :: rest => if c = '/' then (rest.splitOn '/').mapM unescapeToken else fail (.invalidPath path)

def jsonTypeName : Value → String
  | .null => "null"
  | .bool _ => "boolean"
  | .number _ => "number"
  | .string _ => "string"
  | .array _ => "array"
  | .object _ => "object"

/-! ## Walking to the parent -/

inductive Step where
  | key (name : String)
  | index (position : Nat)

def parseArrayIndex (token fullPath : String) (len : Nat) (allowAppend : Bool) : Run PatchEvalError Nat :=
  if token = "-" then
    if allowAppend then .ok len else fail (.invalidArrayIndex token fullPath)
  else
    match Text.parseU64 token.toList with
    | none => fail (.invalidArrayIndex token fullPath)
    | some idx =>
        if !allowAppend && len == 0 then fail (.arrayIndexOutOfRange idx len fullPath)
        else
          let upper := if allowAppend then len else len - 1
          if idx > upper then fail (.arrayIndexOutOfRange idx len fullPath) else .ok idx

def stepInto (node : Value) (token fullPath : String) : Run PatchEvalError (Step × Value) :=
  match node with
  | .object entries =>
      match SortedMap.get entries token with
      | some child => .ok (.key token, child)
      | none => fail (.missingParent fullPath)
  | .array items => do
      let idx ← parseArrayIndex token fullPath items.length false
      match items[idx]? with
      | some child => pure (.index idx, child)
      | none => fail (.missingParent fullPath)
  | _ => fail (.missingParent fullPath)

/-- The loop of `navigate_parent_mut` over the tokens before the last. -/
def walk (fullPath : String) : Value → List String → Run PatchEvalError (List Step × Value)
  | node, [] => .ok ([], node)
  | node, token :: rest => do
      let (step, child) ← stepInto node token fullPath
      let (steps, parent) ← walk fullPath child rest
      pure (step :: steps, parent)

/-- `navigate_parent_mut`: the steps to the parent, the parent, and the last token. -/
def navigateParent (doc : Value) (tokens : List String) (path : String) :
    Run PatchEvalError (List Step × Value × String) :=
  match tokens.getLast? with
  | none => fail (.invalidPath path)
  | some last => do
      let (steps, parent) ← walk path doc tokens.dropLast
      pure (steps, parent, last)

def setAt : Value → List Step → Value → Value
  | _, [], replacement => replacement
  | node, step :: rest, replacement =>
      match node, step with
      | .object entries, .key name =>
          match SortedMap.get entries name with
          | some child => .object (SortedMap.insert entries name (setAt child rest replacement))
          | none => node
      | .array items, .index position =>
          match items[position]? with
          | some child => .array (items.set position (setAt child rest replacement))
          | none => node
      | _, _ => node

/-! ## Array primitives -/

def assignIndex (items : List Value) (idx : Nat) (value : Value) : Run PatchEvalError (List Value) :=
  if idx < items.length then .ok (items.set idx value) else panic

/-- `Vec::insert`, which panics past the length. -/
def insertIndex (items : List Value) (idx : Nat) (value : Value) : Run PatchEvalError (List Value) :=
  if idx ≤ items.length then .ok (items.insertIdx idx value) else panic

/-- `Vec::remove`, which panics past the end. -/
def removeIndex (items : List Value) (idx : Nat) : Run PatchEvalError (Value × List Value) :=
  match items[idx]? with
  | some removed => .ok (removed, items.eraseIdx idx)
  | none => panic

/-! ## The evaluators -/

/-- What `add_or_set`, `replace`, `remove` and `increment` share: parse the pointer, act on the
root when it has no token, else walk to the parent, compute what the write returns and the new
parent, and write the parent back. -/
def atParent {α : Type} (path : String) (atRoot : Eval α)
    (edit : Value → String → Run PatchEvalError (α × Value)) : Eval α := do
  let tokens ← MonadExcept.ofExcept (parsePointer path)
  if tokens.isEmpty then atRoot
  else
    let (steps, parent, last) ← MonadExcept.ofExcept (navigateParent (← get) tokens path)
    let (result, edited) ← MonadExcept.ofExcept (edit parent last)
    modify fun doc => setAt doc steps edited
    pure result

inductive AddOrSet where
  | add
  | set
  deriving DecidableEq

def notContainer (other : Value) (path : String) : PatchEvalError :=
  .typeMismatch "object or array" (jsonTypeName other) path

/-- The parent after `add_or_set` writes to it. -/
def addOrSetParent (parent : Value) (last path : String) (newValue : Value) (mode : AddOrSet) :
    Run PatchEvalError Value :=
  match parent with
  | .object entries => .ok (.object (SortedMap.insert entries last newValue))
  | .array items =>
      if mode = .set ∧ last ≠ "-" then do
        let idx ← parseArrayIndex last path items.length false
        .array <$> assignIndex items idx newValue
      else do
        let idx ← parseArrayIndex last path items.length true
        if idx = items.length then pure (.array (items ++ [newValue]))
        else .array <$> insertIndex items idx newValue
  | other => fail (notContainer other path)

def addOrSet (path : String) (newValue : Value) (mode : AddOrSet) : Eval Unit :=
  atParent path (set newValue) fun parent last => ((), ·) <$> addOrSetParent parent last path newValue mode

def replaceParent (parent : Value) (last path : String) (newValue : Value) : Run PatchEvalError Value :=
  match parent with
  | .object entries =>
      match SortedMap.get entries last with
      | none => fail (.missingTarget path)
      | some _ => .ok (.object (SortedMap.insert entries last newValue))
  | .array items => do
      let idx ← parseArrayIndex last path items.length false
      .array <$> assignIndex items idx newValue
  | other => fail (notContainer other path)

def replace (path : String) (newValue : Value) : Eval Unit :=
  atParent path (set newValue) fun parent last => ((), ·) <$> replaceParent parent last path newValue

def removeParent (parent : Value) (last path : String) : Run PatchEvalError (Value × Value) :=
  match parent with
  | .object entries =>
      match SortedMap.get entries last with
      | none => fail (.missingTarget path)
      | some removed => .ok (removed, .object (SortedMap.erase entries last))
  | .array items => do
      let idx ← parseArrayIndex last path items.length false
      if items.isEmpty then fail (.missingTarget path)
      else
        let (removed, rest) ← removeIndex items idx
        pure (removed, .array rest)
  | other => fail (notContainer other path)

def remove (path : String) : Eval Value :=
  atParent path (throw (.error .cannotRemoveRoot)) fun parent last => removeParent parent last path

/-- `Number::as_f64`, with the casts of `arith`. -/
def asF64 (arith : F64Arith) : Number → Option F64
  | .posInt value => some (arith.ofU64 value)
  | .negInt value _ => some (arith.ofI64 value)
  | .float value _ => some value

def finiteSum (sum : F64) (path : String) : Run PatchEvalError Value :=
  match Number.fromF64 sum with
  | some n => .ok (.number n)
  | none => fail (.typeMismatch "finite number" "non-finite" path)

def incrementLeaf (arith : F64Arith) (leaf : Value) (delta : CosmosNumber) (path : String) :
    Run PatchEvalError Value :=
  match leaf with
  | .number num =>
      match delta, num.asI64, asF64 arith num with
      | .int d, some target, _ =>
          let sum := target.toInt + d.toInt
          if -2 ^ 63 ≤ sum ∧ sum < 2 ^ 63 then .ok (.number (Number.ofI64 (Int64.ofInt sum)))
          else fail (.typeMismatch "i64 (within range)" "i64 (overflow)" path)
      | .int _, none, some _ => fail (.typeMismatch "integer number" "fractional number" path)
      | .float d, some target, _ =>
          if 2 ^ 53 < target.toInt.natAbs then
            fail (.typeMismatch "integer target within ±2^53 for fractional Increment"
              "integer outside ±2^53" path)
          else finiteSum (arith.add (arith.ofI64 target) d) path
      | .float d, none, some target => finiteSum (arith.add target d) path
      | _, _, _ => fail (.typeMismatch "number" "non-numeric" path)
  | other => fail (.typeMismatch "number" (jsonTypeName other) path)

def incrementParent (arith : F64Arith) (parent : Value) (last path : String) (delta : CosmosNumber) :
    Run PatchEvalError Value :=
  match parent with
  | .object entries =>
      match SortedMap.get entries last with
      | none => fail (.missingTarget path)
      | some leaf => do
          let updated ← incrementLeaf arith leaf delta path
          pure (.object (SortedMap.insert entries last updated))
  | .array items => do
      let idx ← parseArrayIndex last path items.length false
      match items[idx]? with
      | none => fail (.missingTarget path)
      | some leaf => do
          let updated ← incrementLeaf arith leaf delta path
          pure (.array (items.set idx updated))
  | other => fail (notContainer other path)

def increment (arith : F64Arith) (path : String) (delta : CosmosNumber) : Eval Unit :=
  atParent path (throw (.error (.missingTarget path))) fun parent last =>
    ((), ·) <$> incrementParent arith parent last path delta

def descendantMove (source target : String) : PatchEvalError :=
  .invalidMove ("destination '" ++ target ++ "' is a descendant of source '" ++ source ++ "'")

def moveValue (source target : String) : Eval Unit :=
  if source = target then pure ()
  else do
    let fromTokens ← MonadExcept.ofExcept (parsePointer source)
    let toTokens ← MonadExcept.ofExcept (parsePointer target)
    if fromTokens.length < toTokens.length ∧ toTokens.take fromTokens.length = fromTokens then
      throw (.error (descendantMove source target))
    else
      staged do
        let value ← remove source
        addOrSet target value .add

def applyOne (arith : F64Arith) : PatchOperation → Eval Unit
  | .add path value => addOrSet path value .add
  | .set path value => addOrSet path value .set
  | .replace path value => replace path value
  | .remove path => do
      let _ ← remove path
      pure ()
  | .increment path value => increment arith path value
  | .move source path => moveValue source path

def applyPatchOps (arith : F64Arith) (ops : List PatchOperation) : Eval Unit :=
  ops.forM (applyOne arith)

/-! ## No panic: every check runs before the write it guards -/

theorem settles_parseArrayIndex (token fullPath : String) (len : Nat) (allowAppend : Bool) :
    Settles (parseArrayIndex token fullPath len allowAppend) := by
  unfold parseArrayIndex
  by_cases dash : token = "-"
  · rw [if_pos dash]
    cases allowAppend <;> trivial
  · rw [if_neg dash]
    cases Text.parseU64 token.toList with
    | none => trivial
    | some idx =>
        dsimp only
        split_ifs <;> trivial

theorem parseArrayIndex_eq_ok {token fullPath : String} {len idx : Nat} {allowAppend : Bool}
    (parsed : parseArrayIndex token fullPath len allowAppend = .ok idx) :
    (allowAppend = true → idx ≤ len) ∧ (allowAppend = false → idx < len) := by
  unfold parseArrayIndex at parsed
  split at parsed
  · cases allowAppend
    · cases parsed
    · cases parsed
      simp
  · cases number : Text.parseU64 token.toList with
    | none =>
        rw [number] at parsed
        cases parsed
    | some found =>
        rw [number] at parsed
        cases allowAppend
        -- an existing element: the length is not zero and the index is at most one below it
        · simp only [Bool.not_false, Bool.true_and, beq_iff_eq, Bool.false_eq_true, if_false] at parsed
          split_ifs at parsed with empty beyond
          · cases parsed
          · cases parsed
          · cases parsed
            simp only [Bool.false_eq_true, false_implies, forall_const, true_and]
            omega
        -- an insertion: the index is at most the length
        · simp only [Bool.not_true, Bool.false_and, Bool.false_eq_true, if_false, if_true] at parsed
          split_ifs at parsed with beyond
          · cases parsed
          · cases parsed
            simp only [forall_const, Bool.true_eq_false, false_implies, and_true]
            omega

theorem parseArrayIndex_lt {token fullPath : String} {len idx : Nat}
    (parsed : parseArrayIndex token fullPath len false = .ok idx) : idx < len :=
  (parseArrayIndex_eq_ok parsed).2 rfl

theorem parseArrayIndex_le {token fullPath : String} {len idx : Nat}
    (parsed : parseArrayIndex token fullPath len true = .ok idx) : idx ≤ len :=
  (parseArrayIndex_eq_ok parsed).1 rfl

theorem settles_unescapeChars (raw : String) (chars : List Char) : Settles (unescapeChars raw chars) := by
  fun_induction unescapeChars raw chars with
  | case1 => trivial
  | case2 after induction => exact settles_map induction
  | case3 after induction => exact settles_map induction
  | case4 => trivial
  | case5 c rest _ induction => exact settles_map induction

theorem settles_parsePointer (path : String) : Settles (parsePointer path) := by
  unfold parsePointer
  split
  · trivial
  · split
    · apply settles_mapM
      intro raw
      exact settles_map (settles_unescapeChars _ raw)
    · trivial

theorem settles_stepInto (node : Value) (token fullPath : String) : Settles (stepInto node token fullPath) := by
  unfold stepInto
  split
  · split <;> trivial
  · apply settles_bind (settles_parseArrayIndex _ _ _ _)
    intro idx _
    split <;> trivial
  · trivial

theorem settles_walk (fullPath : String) (node : Value) (tokens : List String) :
    Settles (walk fullPath node tokens) := by
  induction tokens generalizing node with
  | nil => trivial
  | cons token rest induction =>
      apply settles_bind (settles_stepInto node token fullPath)
      rintro ⟨step, child⟩ _
      apply settles_bind (induction child)
      intro _ _
      trivial

theorem settles_navigateParent (doc : Value) (tokens : List String) (path : String) :
    Settles (navigateParent doc tokens path) := by
  unfold navigateParent
  split
  · trivial
  · apply settles_bind (settles_walk path doc _)
    intro _ _
    trivial

theorem settles_addOrSetParent (parent : Value) (last path : String) (newValue : Value) (mode : AddOrSet) :
    Settles (addOrSetParent parent last path newValue mode) := by
  unfold addOrSetParent
  split
  · trivial
  · rename_i items
    split
    · apply settles_bind (settles_parseArrayIndex _ _ _ _)
      intro idx parsed
      rw [assignIndex, if_pos (parseArrayIndex_lt parsed)]
      trivial
    · apply settles_bind (settles_parseArrayIndex _ _ _ _)
      intro idx parsed
      split
      · trivial
      · rw [insertIndex, if_pos (parseArrayIndex_le parsed)]
        trivial
  · trivial

theorem settles_replaceParent (parent : Value) (last path : String) (newValue : Value) :
    Settles (replaceParent parent last path newValue) := by
  unfold replaceParent
  split
  · split <;> trivial
  · apply settles_bind (settles_parseArrayIndex _ _ _ _)
    intro idx parsed
    rw [assignIndex, if_pos (parseArrayIndex_lt parsed)]
    trivial
  · trivial

theorem settles_removeParent (parent : Value) (last path : String) :
    Settles (removeParent parent last path) := by
  unfold removeParent
  split
  · split <;> trivial
  · rename_i items
    apply settles_bind (settles_parseArrayIndex _ _ _ _)
    intro idx parsed
    split
    · trivial
    · have bound := parseArrayIndex_lt parsed
      have found : items[idx]? = some items[idx] := List.getElem?_eq_getElem bound
      simp only [removeIndex, found]
      trivial
  · trivial

theorem settles_finiteSum (sum : F64) (path : String) : Settles (finiteSum sum path) := by
  unfold finiteSum
  split <;> trivial

theorem settles_incrementLeaf (arith : F64Arith) (leaf : Value) (delta : CosmosNumber) (path : String) :
    Settles (incrementLeaf arith leaf delta path) := by
  unfold incrementLeaf
  split
  · split
    · dsimp only
      split_ifs <;> trivial
    · trivial
    · split_ifs
      · trivial
      · exact settles_finiteSum _ path
    · exact settles_finiteSum _ path
    · trivial
  · trivial

theorem settles_incrementParent (arith : F64Arith) (parent : Value) (last path : String) (delta : CosmosNumber) :
    Settles (incrementParent arith parent last path delta) := by
  unfold incrementParent
  split
  · split
    · trivial
    · apply settles_bind (settles_incrementLeaf _ _ _ _)
      intro _ _
      trivial
  · apply settles_bind (settles_parseArrayIndex _ _ _ _)
    intro idx _
    split
    · trivial
    · apply settles_bind (settles_incrementLeaf _ _ _ _)
      intro _ _
      trivial
  · trivial

/-! ## A failed operation leaves the document as it was -/

def Reported (halt : Halt PatchEvalError) : Prop := ∃ e, halt = .error e

theorem reported_of_settles {α : Type} {run : Run PatchEvalError α} (settles : Settles run) :
    ∀ halt, run = .error halt → Reported halt := by
  intro halt failed
  subst failed
  cases halt with
  | error e => exact ⟨e, rfl⟩
  | panic => exact absurd settles id
  | outOfFuel => exact absurd settles id

section AtParent

variable {α : Type} (path : String) (atRoot : Eval α) (edit : Value → String → Run PatchEvalError (α × Value))

theorem atomic_atParent (root : Atomic atRoot) : Atomic (atParent path atRoot edit) := by
  unfold atParent
  apply atomic_bind_of_readOnly (readOnly_ofExcept _) (atomic_ofExcept _)
  intro tokens
  split
  · exact root
  · apply atomic_bind_of_readOnly readOnly_get atomic_get
    intro doc
    apply atomic_bind_of_readOnly (readOnly_ofExcept _) (atomic_ofExcept _)
    rintro ⟨steps, parent, last⟩
    apply atomic_bind_of_readOnly (readOnly_ofExcept _) (atomic_ofExcept _)
    rintro ⟨result, edited⟩
    apply atomic_bind_of_raisesNothing (atomic_modify _)
    intro _
    exact raisesOnly_pure _ result

theorem raisesOnly_atParent (root : RaisesOnly Reported atRoot) (edits : ∀ parent last, Settles (edit parent last)) :
    RaisesOnly Reported (atParent path atRoot edit) := by
  unfold atParent
  apply raisesOnly_bind (raisesOnly_ofExcept (reported_of_settles (settles_parsePointer path)))
  intro tokens
  split
  · exact root
  · apply raisesOnly_bind (raisesOnly_get Reported)
    intro doc
    apply raisesOnly_bind (raisesOnly_ofExcept (reported_of_settles (settles_navigateParent doc tokens path)))
    rintro ⟨steps, parent, last⟩
    apply raisesOnly_bind (raisesOnly_ofExcept (reported_of_settles (edits parent last)))
    rintro ⟨result, edited⟩
    apply raisesOnly_bind (raisesOnly_modify Reported _)
    intro _
    exact raisesOnly_pure Reported result

end AtParent

theorem atomic_addOrSet (path : String) (newValue : Value) (mode : AddOrSet) :
    Atomic (addOrSet path newValue mode) :=
  atomic_atParent path _ _ (atomic_set newValue)

theorem raisesOnly_addOrSet (path : String) (newValue : Value) (mode : AddOrSet) :
    RaisesOnly Reported (addOrSet path newValue mode) := by
  apply raisesOnly_atParent path _ _ (raisesOnly_set Reported newValue)
  intro parent last
  exact settles_map (settles_addOrSetParent parent last path newValue mode)

theorem atomic_replace (path : String) (newValue : Value) : Atomic (replace path newValue) :=
  atomic_atParent path _ _ (atomic_set newValue)

theorem raisesOnly_replace (path : String) (newValue : Value) : RaisesOnly Reported (replace path newValue) := by
  apply raisesOnly_atParent path _ _ (raisesOnly_set Reported newValue)
  intro parent last
  exact settles_map (settles_replaceParent parent last path newValue)

theorem atomic_remove (path : String) : Atomic (remove path) :=
  atomic_atParent path _ _ (atomic_throw _)

theorem raisesOnly_remove (path : String) : RaisesOnly Reported (remove path) := by
  apply raisesOnly_atParent path _ _ (raisesOnly_throw ⟨_, rfl⟩)
  intro parent last
  exact settles_removeParent parent last path

theorem atomic_increment (arith : F64Arith) (path : String) (delta : CosmosNumber) :
    Atomic (increment arith path delta) :=
  atomic_atParent path _ _ (atomic_throw _)

theorem raisesOnly_increment (arith : F64Arith) (path : String) (delta : CosmosNumber) :
    RaisesOnly Reported (increment arith path delta) := by
  apply raisesOnly_atParent path _ _ (raisesOnly_throw ⟨_, rfl⟩)
  intro parent last
  exact settles_map (settles_incrementParent arith parent last path delta)

theorem atomic_moveValue (source target : String) : Atomic (moveValue source target) := by
  unfold moveValue
  split
  · exact atomic_pure ()
  · apply atomic_bind_of_readOnly (readOnly_ofExcept _) (atomic_ofExcept _)
    intro fromTokens
    apply atomic_bind_of_readOnly (readOnly_ofExcept _) (atomic_ofExcept _)
    intro toTokens
    split
    · exact atomic_throw _
    · exact atomic_staged _

theorem raisesOnly_moveValue (source target : String) : RaisesOnly Reported (moveValue source target) := by
  unfold moveValue
  split
  · exact raisesOnly_pure Reported ()
  · apply raisesOnly_bind (raisesOnly_ofExcept (reported_of_settles (settles_parsePointer source)))
    intro fromTokens
    apply raisesOnly_bind (raisesOnly_ofExcept (reported_of_settles (settles_parsePointer target)))
    intro toTokens
    split
    · exact raisesOnly_throw ⟨_, rfl⟩
    · apply raisesOnly_staged
      apply raisesOnly_bind (raisesOnly_remove source)
      intro value
      exact raisesOnly_addOrSet target value .add

theorem atomic_applyOne (arith : F64Arith) (op : PatchOperation) : Atomic (applyOne arith op) := by
  cases op with
  | add path value => exact atomic_addOrSet path value .add
  | set path value => exact atomic_addOrSet path value .set
  | replace path value => exact atomic_replace path value
  | remove path =>
      apply atomic_bind_of_raisesNothing (atomic_remove path)
      intro _
      exact raisesOnly_pure _ ()
  | increment path value => exact atomic_increment arith path value
  | move source path => exact atomic_moveValue source path

theorem raisesOnly_applyOne (arith : F64Arith) (op : PatchOperation) :
    RaisesOnly Reported (applyOne arith op) := by
  cases op with
  | add path value => exact raisesOnly_addOrSet path value .add
  | set path value => exact raisesOnly_addOrSet path value .set
  | replace path value => exact raisesOnly_replace path value
  | remove path =>
      apply raisesOnly_bind (raisesOnly_remove path)
      intro _
      exact raisesOnly_pure Reported ()
  | increment path value => exact raisesOnly_increment arith path value
  | move source path => exact raisesOnly_moveValue source path

/-! ## The operations in order -/

def applyInOrder (arith : F64Arith) : Value → List PatchOperation → Option Value
  | doc, [] => some doc
  | doc, op :: rest =>
      match applyOne arith op doc with
      | .ok () mid => applyInOrder arith mid rest
      | .error _ _ => none

@[simp] theorem applyPatchOps_nil (arith : F64Arith) (doc : Value) :
    applyPatchOps arith [] doc = .ok () doc := rfl

theorem applyPatchOps_cons (arith : F64Arith) (op : PatchOperation) (rest : List PatchOperation) :
    applyPatchOps arith (op :: rest) = (applyOne arith op >>= fun _ => applyPatchOps arith rest) := rfl

theorem raisesOnly_applyPatchOps (arith : F64Arith) (ops : List PatchOperation) :
    RaisesOnly Reported (applyPatchOps arith ops) := by
  induction ops with
  | nil => exact raisesOnly_pure Reported ()
  | cons op rest induction =>
      rw [applyPatchOps_cons]
      exact raisesOnly_bind (raisesOnly_applyOne arith op) fun _ => induction

theorem applyPatchOps_eq_ok {arith : F64Arith} {ops : List PatchOperation} {doc after : Value}
    (ran : applyPatchOps arith ops doc = .ok () after) : applyInOrder arith doc ops = some after := by
  induction ops generalizing doc with
  | nil =>
      cases ran
      rfl
  | cons op rest induction =>
      rw [applyPatchOps_cons, bind_apply] at ran
      cases stepped : applyOne arith op doc with
      | ok _ mid =>
          rw [stepped] at ran
          simp only [applyInOrder, stepped]
          exact induction ran
      | error _ _ =>
          rw [stepped] at ran
          cases ran

theorem applyPatchOps_eq_error {arith : F64Arith} {ops : List PatchOperation} {doc after : Value}
    {halt : Halt PatchEvalError} (ran : applyPatchOps arith ops doc = .error halt after) :
    ∃ k, ∃ failing : k < ops.length, applyInOrder arith doc (ops.take k) = some after ∧
      applyOne arith ops[k] after = .error halt after := by
  induction ops generalizing doc with
  | nil => cases ran
  | cons op rest induction =>
      rw [applyPatchOps_cons, bind_apply] at ran
      cases stepped : applyOne arith op doc with
      | ok _ mid =>
          rw [stepped] at ran
          obtain ⟨k, failing, before, failed⟩ := induction ran
          refine ⟨k + 1, Nat.succ_lt_succ failing, ?_, failed⟩
          simp only [List.take_succ_cons, applyInOrder, stepped]
          exact before
      | error halt' mid =>
          rw [stepped] at ran
          cases ran
          -- the failing operation is the first one, and it left the document it was given
          have unchanged : after = doc := atomic_applyOne arith op doc halt after stepped
          subst unchanged
          exact ⟨0, Nat.zero_lt_succ _, rfl, stepped⟩

theorem applyPatchOps_atomic_per_operation (arith : F64Arith) (doc : Value) (ops : List PatchOperation) :
    (∀ halt after, applyPatchOps arith ops doc = .error halt after → ∃ e, halt = .error e) ∧
    (∀ after, applyPatchOps arith ops doc = .ok () after → applyInOrder arith doc ops = some after) ∧
    (∀ halt after, applyPatchOps arith ops doc = .error halt after →
      ∃ k, ∃ failing : k < ops.length, applyInOrder arith doc (ops.take k) = some after ∧
        applyOne arith ops[k] after = .error halt after) := by
  refine ⟨?_, ?_, ?_⟩
  · intro halt after ran
    exact raisesOnly_applyPatchOps arith ops doc halt after ran
  · intro after ran
    exact applyPatchOps_eq_ok ran
  · intro halt after ran
    exact applyPatchOps_eq_error ran

/-- The failing inputs: an index token with a leading zero is taken as an array index, a move
whose source and destination are one missing path succeeds, and a fractional increment of an
integer above `i64::MAX` goes through without the `±2^53` check an `i64` target gets. -/
theorem patch_ops_accept_what_rfc6901_refuses (arith : F64Arith) :
    applyOne arith (.add "/a/01" .null) (.object [("a", .array [.bool true])]) =
      .ok () (.object [("a", .array [.bool true, .null])]) ∧
    applyOne arith (.move "/missing" "/missing") (.object []) = .ok () (.object []) ∧
    (∀ d sum, Number.fromF64 (arith.add (arith.ofU64 0xFFFFFFFFFFFFFFFF) d) = some sum →
      applyOne arith (.increment "/n" (.float d)) (.object [("n", .number (.posInt 0xFFFFFFFFFFFFFFFF))]) =
        .ok () (.object [("n", .number sum)])) ∧
    ∀ d, ∃ e, applyOne arith (.increment "/n" (.float d)) (.object [("n", .number (.posInt 9007199254740993))]) =
      .error e (.object [("n", .number (.posInt 9007199254740993))]) := by
  refine ⟨rfl, rfl, fun d sum finite => ?_, fun d => ⟨_, rfl⟩⟩
  -- the document is concrete but the sum is not: evaluate up to the leaf, then use the sum
  have tokens : parsePointer "/n" = .ok ["n"] := rfl
  have walked : navigateParent (.object [("n", .number (.posInt 0xFFFFFFFFFFFFFFFF))]) ["n"] "/n" =
      .ok ([], .object [("n", .number (.posInt 0xFFFFFFFFFFFFFFFF))], "n") := rfl
  have found : SortedMap.get [("n", Value.number (.posInt 0xFFFFFFFFFFFFFFFF))] "n" =
      some (.number (.posInt 0xFFFFFFFFFFFFFFFF)) := rfl
  have leaf : incrementLeaf arith (.number (.posInt 0xFFFFFFFFFFFFFFFF)) (.float d) "/n" = .ok (.number sum) := by
    show finiteSum (arith.add (arith.ofU64 0xFFFFFFFFFFFFFFFF) d) "/n" = _
    simp [finiteSum, finite]
  simp only [applyOne, increment, atParent, bind_apply, tokens, ofExcept_ok, List.isEmpty_cons, Bool.false_eq_true,
    if_false, get_apply, walked, incrementParent, found, leaf, ok_bind]
  rfl

end CosmosDriver.PatchEval
