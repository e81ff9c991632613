import AzureSdk.Cosmos.Diagnostics.Context

/-!
# Global OFFSET and LIMIT over a cross-partition child

`SkipTake` pulls its child's pages, splits each into its documents, drops what the
outstanding offset still asks for and keeps what the limit still allows. A page that
keeps nothing and is not the child's last is not returned: its request charge and
diagnostics wait in the node until the next page it returns, or until a final empty
page when the child drains. Once the limit is met the node answers `Drained` without
calling its child again.

A document is a value of a type `α`, compared by equality as the zero-copy slices are;
a request charge is a value of `ρ`. A child is the list of what its successive calls of
`next_page` answer, `Drained` once the list runs out.
-/

namespace CosmosDriver.Dataflow

open Diagnostics
open DiagnosticsContext (requestCount)

set_option autoImplicit false

variable {α ρ : Type}

/-- A `CosmosError` as its sub-status and message. -/
structure CosmosError where
  subStatus : Nat
  message : String
  deriving DecidableEq

/-- `ResponseBody`. The bytes of a backend page are its feed envelope, read here as the
documents it holds, or `none` when they are not a valid envelope. -/
inductive ResponseBody (α : Type) where
  | items (items : List α)
  | bytes (documents : Option (List α))
  | noPayload

/-- The documents of a body, as the loop reads them: `split_feed_envelope` for bytes. -/
def ResponseBody.documents : ResponseBody α → Except CosmosError (List α)
  | .items documents => .ok documents
  | .bytes (some documents) => .ok documents
  | .bytes none => .error ⟨20020, "failed to parse cross-partition query page envelope"⟩
  | .noPayload => .ok []

/-- The part of a `CosmosResponse` the node reads and writes; `itemCount` is the
`x-ms-item-count` header. -/
structure Response (α ρ : Type) where
  body : ResponseBody α
  itemCount : Option Nat
  requestCharge : Option ρ
  diagnostics : DiagnosticsContext

inductive PageResult (α ρ : Type) where
  | page (response : Response α ρ) (isTerminal : Bool)
  | drained
  | splitRequired

def Response.withAggregatedPriorDiagnostics (response : Response α ρ) (prior : List DiagnosticsContext) :
    Response α ρ :=
  if prior.isEmpty then response
  else
    match aggregateSubOperations (prior ++ [response.diagnostics]) with
    | some aggregated => { response with diagnostics := aggregated }
    | none => response

theorem Response.withAggregatedPriorDiagnostics_eq (response : Response α ρ) (prior : List DiagnosticsContext) :
    response.withAggregatedPriorDiagnostics prior =
      { response with
        diagnostics :=
          if prior.isEmpty then response.diagnostics
          else (aggregateSubOperations (prior ++ [response.diagnostics])).getD response.diagnostics } := by
  unfold withAggregatedPriorDiagnostics
  split
  · simp_all
  · split <;> simp_all

theorem Response.requestCount_withAggregatedPriorDiagnostics (response : Response α ρ)
    (prior : List DiagnosticsContext) :
    (response.withAggregatedPriorDiagnostics prior).diagnostics.requestCount =
      (prior.map requestCount).sum + response.diagnostics.requestCount := by
  rw [withAggregatedPriorDiagnostics_eq]
  cases prior with
  | nil => simp
  | cons first others =>
      obtain ⟨aggregated, joined⟩ :=
        @aggregateSubOperations_of_ne_nil (first :: others ++ [response.diagnostics]) (by simp)
      simp only [List.isEmpty_cons, Bool.false_eq_true, if_false, joined, Option.getD_some,
        requestCount_aggregateSubOperations joined, List.map_append, List.sum_append, List.map_singleton,
        List.sum_singleton]

structure SkipTakeOutcome (α : Type) where
  dropped : Nat
  emitted : Nat
  items : List α

def skipTakeItems (items : List α) (skip : Nat) (take : Option Nat) : SkipTakeOutcome α :=
  let available := items.length
  let dropped := min skip available
  let remaining := available - dropped
  let emitted := match take with
    | some t => min t remaining
    | none => remaining
  ⟨dropped, emitted, (items.drop dropped).take emitted⟩

def window (documents : List α) (skip : Nat) : Option Nat → List α
  | some take => (documents.drop skip).take take
  | none => documents.drop skip

theorem length_skipTakeItems (items : List α) (skip : Nat) (take : Option Nat) :
    (skipTakeItems items skip take).items.length = (skipTakeItems items skip take).emitted ∧
      (skipTakeItems items skip take).emitted ≤ items.length := by
  cases take <;> simp [skipTakeItems]

theorem window_nil (skip : Nat) (take : Option Nat) : window ([] : List α) skip take = [] := by
  cases take <;> simp [window]

theorem window_append (documents rest : List α) (skip : Nat) (take : Option Nat) :
    window (documents ++ rest) skip take =
      (skipTakeItems documents skip take).items ++
        window rest (skip - (skipTakeItems documents skip take).dropped)
          (take.map (· - (skipTakeItems documents skip take).emitted)) := by
  have skipped : skip - min skip documents.length = skip - documents.length := by omega
  have dropped : (documents.drop skip) = documents.drop (min skip documents.length) := by
    rcases le_total skip documents.length with below | above
    · rw [min_eq_left below]
    · rw [min_eq_right above, List.drop_of_length_le above, List.drop_length]
  cases take with
  | none =>
      simp only [window, skipTakeItems, Option.map_none, List.drop_append, skipped, dropped]
      rw [List.take_of_length_le (by simp)]
  | some take =>
      simp only [window, skipTakeItems, Option.map_some, List.drop_append, skipped, dropped,
        List.take_append, List.length_drop]
      rcases le_total take (documents.length - min skip documents.length) with within | beyond
      · rw [min_eq_left within, Nat.sub_self, Nat.sub_eq_zero_of_le within]
      · have whole : ∀ n, documents.length - min skip documents.length ≤ n →
            (documents.drop (min skip documents.length)).take n = documents.drop (min skip documents.length) :=
          fun n enough => List.take_of_length_le (by simpa using enough)
        rw [min_eq_right beyond, whole take beyond, whole _ le_rfl]

theorem skipTakeItems_consumed (documents : List α) (skip take : Nat)
    (unmet : take - (skipTakeItems documents skip (some take)).emitted ≠ 0) :
    (skipTakeItems documents skip (some take)).dropped + (skipTakeItems documents skip (some take)).emitted =
        documents.length ∧
      (skipTakeItems documents skip (some take)).dropped ≤ skip := by
  simp only [skipTakeItems] at unmet ⊢
  omega

structure SkipTake (α ρ : Type) where
  child : List (Except CosmosError (PageResult α ρ))
  remainingSkip : Nat
  remainingTake : Option Nat
  exhausted : Bool
  suppressedCharge : ρ
  suppressedDiagnostics : List DiagnosticsContext
  pendingFlush : Option (Response α ρ)

/-- A child whose calls answer these pages in turn, and then `Drained`. -/
def ofPages (pages : List (Response α ρ × Bool)) : List (Except CosmosError (PageResult α ρ)) :=
  pages.map fun page => .ok (.page page.1 page.2)

theorem ofPages_cons (page : Response α ρ × Bool) (rest : List (Response α ρ × Bool)) :
    ofPages (page :: rest) = .ok (.page page.1 page.2) :: ofPages rest := rfl

theorem parsed_nil {docs : List (List α)}
    (parsed : ([] : List (Response α ρ × Bool)).map (fun page => page.1.body.documents) = docs.map .ok) :
    docs = [] := by
  simpa [eq_comm] using parsed

theorem parsed_cons {page : Response α ρ × Bool} {rest : List (Response α ρ × Bool)} {docs : List (List α)}
    (parsed : (page :: rest).map (fun page => page.1.body.documents) = docs.map .ok) :
    ∃ documents others, docs = documents :: others ∧ page.1.body.documents = .ok documents ∧
      rest.map (fun page => page.1.body.documents) = others.map .ok := by
  cases docs with
  | nil => simp at parsed
  | cons documents others =>
      simp only [List.map_cons, List.cons.injEq] at parsed
      exact ⟨documents, others, rfl, parsed.1, parsed.2⟩

def splitRequiredError : CosmosError :=
  ⟨20208, "SkipTake received a SplitRequired from its child; splits must be absorbed below the skip/take node"⟩

/-- The error `Pipeline::next_page` raises when its root asks for a split. -/
def rootSplitError : CosmosError :=
  ⟨20208, "root node cannot request a split; splits must be handled by a parent node"⟩

/-- `PipelineNodeState` as a `SkipTake` leaves it; the child's own state is the child's. -/
inductive Snapshot where
  | drained
  | skipTake (remainingSkip : Nat) (remainingTake : Option Nat)
  deriving DecidableEq

namespace SkipTake

section Node

variable [Add ρ] [Zero ρ] [DecidableEq ρ]

def new (child : List (Except CosmosError (PageResult α ρ))) (skip : Nat) (take : Option Nat) :
    SkipTake α ρ :=
  ⟨child, skip, take, false, 0, [], none⟩

def clearSuppressed (st : SkipTake α ρ) : SkipTake α ρ :=
  { st with suppressedCharge := 0, suppressedDiagnostics := [], pendingFlush := none }

def suppress (st : SkipTake α ρ) (response : Response α ρ) : SkipTake α ρ :=
  { st with
    suppressedCharge := st.suppressedCharge + response.requestCharge.getD 0
    suppressedDiagnostics := st.suppressedDiagnostics ++ [response.diagnostics]
    pendingFlush := some response }

def rebuild (st : SkipTake α ρ) (response : Response α ρ) (items : List α) (emitted : Nat) :
    Response α ρ × SkipTake α ρ :=
  let requestCharge :=
    if st.suppressedCharge ≠ 0 then some (response.requestCharge.getD 0 + st.suppressedCharge)
    else response.requestCharge
  let rebuilt : Response α ρ :=
    ⟨.items items, some (emitted % 2 ^ 32), requestCharge, response.diagnostics⟩
  (rebuilt.withAggregatedPriorDiagnostics st.suppressedDiagnostics, st.clearSuppressed)

def flushSuppressed (st : SkipTake α ρ) : Option (PageResult α ρ) × SkipTake α ρ :=
  match st.pendingFlush with
  | none => (none, st)
  | some template =>
      let diagnostics := (aggregateSubOperations st.suppressedDiagnostics).getD template.diagnostics
      (some (.page ⟨.items [], some 0, some st.suppressedCharge, diagnostics⟩ true), st.clearSuppressed)

/-- The window counters after a page: `remaining_skip -= dropped`, `take -= emitted`. -/
def advance (st : SkipTake α ρ) (outcome : SkipTakeOutcome α) : SkipTake α ρ :=
  { st with
    remainingSkip := st.remainingSkip - outcome.dropped
    remainingTake := st.remainingTake.map (· - outcome.emitted) }

def takeExhausted (st : SkipTake α ρ) : Bool :=
  st.remainingTake == some 0

/-- The `Drained` arm of the loop. -/
def onDrained (st : SkipTake α ρ) (rest : List (Except CosmosError (PageResult α ρ))) :
    PageResult α ρ × SkipTake α ρ :=
  match ({ st with child := rest, exhausted := true } : SkipTake α ρ).flushSuppressed with
  | (some flushed, st) => (flushed, st)
  | (none, st) => (.drained, st)

/-- The `Page` arm of the loop; `none` is its `continue`, after the page is suppressed. -/
def onPage (st : SkipTake α ρ) (response : Response α ρ) (isTerminal : Bool) :
    Except CosmosError (Option (Response α ρ × Bool) × SkipTake α ρ) :=
  match response.body.documents with
  | .error e => .error e
  | .ok items =>
      let outcome := skipTakeItems items st.remainingSkip st.remainingTake
      let st := st.advance outcome
      let terminal := isTerminal || st.takeExhausted
      if outcome.emitted = 0 ∧ terminal = false then .ok (none, st.suppress response)
      else
        let st := if st.takeExhausted then { st with exhausted := true } else st
        let (rebuilt, st) := st.rebuild response outcome.items outcome.emitted
        .ok (some (rebuilt, terminal), st)

/-- The loop of `next_page`, one answer of the child a round. -/
def loop (st : SkipTake α ρ) :
    List (Except CosmosError (PageResult α ρ)) → Except CosmosError (PageResult α ρ × SkipTake α ρ)
  | [] => .ok (st.onDrained [])
  | .error e :: _ => .error e
  | .ok .drained :: rest => .ok (st.onDrained rest)
  | .ok .splitRequired :: _ => .error splitRequiredError
  | .ok (.page response isTerminal) :: rest =>
      match ({ st with child := rest } : SkipTake α ρ).onPage response isTerminal with
      | .error e => .error e
      | .ok (none, st) => st.loop rest
      | .ok (some (page, terminal), st) => .ok (.page page terminal, st)

def nextPage (st : SkipTake α ρ) : Except CosmosError (PageResult α ρ × SkipTake α ρ) :=
  if st.exhausted then .ok (.drained, st) else st.loop st.child

def snapshotState (st : SkipTake α ρ) : Snapshot :=
  if st.exhausted then .drained else .skipTake st.remainingSkip st.remainingTake

def weight (st : SkipTake α ρ) : Nat :=
  st.child.length + if st.exhausted then 0 else 1

/-! ## What each arm of the loop does -/

omit [Add ρ] [DecidableEq ρ] in
theorem onDrained_cases (st : SkipTake α ρ) (rest : List (Except CosmosError (PageResult α ρ))) :
    (st.pendingFlush = none ∧
        st.onDrained rest = (.drained, { st with child := rest, exhausted := true })) ∨
      ∃ template, st.pendingFlush = some template ∧
        st.onDrained rest =
          (.page ⟨.items [], some 0, some st.suppressedCharge,
              (aggregateSubOperations st.suppressedDiagnostics).getD template.diagnostics⟩ true,
            ({ st with child := rest, exhausted := true } : SkipTake α ρ).clearSuppressed) := by
  unfold onDrained flushSuppressed
  cases pending : st.pendingFlush with
  | none => exact .inl ⟨rfl, rfl⟩
  | some template => exact .inr ⟨template, rfl, rfl⟩

theorem onPage_parsed {st st' : SkipTake α ρ} {response : Response α ρ} {isTerminal : Bool}
    {result : Option (Response α ρ × Bool)} (answered : st.onPage response isTerminal = .ok (result, st')) :
    ∃ items, response.body.documents = .ok items := by
  unfold onPage at answered
  cases parsed : response.body.documents with
  | error e => simp [parsed] at answered
  | ok items => exact ⟨items, rfl⟩

theorem onPage_cases {st st' : SkipTake α ρ} {response : Response α ρ} {isTerminal : Bool}
    {result : Option (Response α ρ × Bool)} {items : List α} {outcome : SkipTakeOutcome α}
    (parsed : response.body.documents = .ok items)
    (counted : skipTakeItems items st.remainingSkip st.remainingTake = outcome)
    (answered : st.onPage response isTerminal = .ok (result, st')) :
    (result = none ∧ outcome.emitted = 0 ∧ isTerminal = false ∧ (st.advance outcome).takeExhausted = false ∧
        st' = (st.advance outcome).suppress response) ∨
      (result = some (((st.advance outcome).rebuild response outcome.items outcome.emitted).1,
          isTerminal || (st.advance outcome).takeExhausted) ∧
        (outcome.emitted = 0 → isTerminal = true ∨ (st.advance outcome).takeExhausted = true) ∧
        st' = { (st.advance outcome).clearSuppressed with
          exhausted := st.exhausted || (st.advance outcome).takeExhausted }) := by
  subst counted
  unfold onPage at answered
  rw [parsed] at answered
  dsimp only at answered
  by_cases suppressed : (skipTakeItems items st.remainingSkip st.remainingTake).emitted = 0 ∧
      (isTerminal || (st.advance (skipTakeItems items st.remainingSkip st.remainingTake)).takeExhausted) = false
  · rw [if_pos suppressed] at answered
    simp only [Except.ok.injEq, Prod.mk.injEq] at answered
    simp only [Bool.or_eq_false_iff] at suppressed
    exact .inl ⟨answered.1.symm, suppressed.1, suppressed.2.1, suppressed.2.2, answered.2.symm⟩
  · rw [if_neg suppressed] at answered
    have shown : (skipTakeItems items st.remainingSkip st.remainingTake).emitted = 0 →
        isTerminal = true ∨ (st.advance (skipTakeItems items st.remainingSkip st.remainingTake)).takeExhausted = true := by
      intro emptied
      cases isTerminal
      · exact .inr (by simpa [emptied] using suppressed)
      · exact .inl rfl
    cases exhaustedNow : (st.advance (skipTakeItems items st.remainingSkip st.remainingTake)).takeExhausted
    · simp only [exhaustedNow, Bool.false_eq_true, if_false, Except.ok.injEq, Prod.mk.injEq] at answered
      refine .inr ⟨answered.1.symm, fun emptied => by simpa [exhaustedNow] using shown emptied, ?_⟩
      simp [← answered.2, rebuild, clearSuppressed, advance]
    · simp only [exhaustedNow, if_true, Except.ok.injEq, Prod.mk.injEq] at answered
      refine .inr ⟨answered.1.symm, fun _ => .inr rfl, ?_⟩
      simp [← answered.2, rebuild, clearSuppressed, advance]

theorem onPage_child {st st' : SkipTake α ρ} {response : Response α ρ} {isTerminal : Bool}
    {result : Option (Response α ρ × Bool)} (answered : st.onPage response isTerminal = .ok (result, st')) :
    st'.child = st.child ∧ (result = none → st'.exhausted = st.exhausted) := by
  obtain ⟨items, parsed⟩ := onPage_parsed answered
  rcases onPage_cases parsed rfl answered with ⟨rfl, -, -, -, rfl⟩ | ⟨rfl, -, rfl⟩
  · exact ⟨rfl, fun _ => rfl⟩
  · exact ⟨rfl, fun returned => by cases returned⟩

theorem loop_weight {st st' : SkipTake α ρ} {response : Response α ρ} {isTerminal : Bool} :
    ∀ answers : List (Except CosmosError (PageResult α ρ)),
      st.loop answers = .ok (.page response isTerminal, st') → st'.weight < answers.length + 1 := by
  intro answers
  induction answers generalizing st with
  | nil =>
      intro answered
      rcases onDrained_cases st [] with ⟨-, drained⟩ | ⟨template, -, flushed⟩
      · simp [loop, drained] at answered
      · simp only [loop, flushed, Except.ok.injEq, Prod.mk.injEq] at answered
        simp [← answered.2, weight, clearSuppressed]
  | cons answer rest induction =>
      intro answered
      cases answer with
      | error e => simp [loop] at answered
      | ok result =>
          cases result with
          | drained =>
              rcases onDrained_cases st rest with ⟨-, drained⟩ | ⟨template, -, flushed⟩
              · simp [loop, drained] at answered
              · simp only [loop, flushed, Except.ok.injEq, Prod.mk.injEq] at answered
                simp [← answered.2, weight, clearSuppressed]
          | splitRequired => simp [loop] at answered
          | page page terminal =>
              simp only [loop] at answered
              cases handled : ({ st with child := rest } : SkipTake α ρ).onPage page terminal with
              | error e => simp [handled] at answered
              | ok outcome =>
                  rcases outcome with ⟨_ | ⟨shown, shownTerminal⟩, next⟩
                  · simp only [handled] at answered
                    have := induction answered
                    simp only [List.length_cons]
                    omega
                  · simp only [handled, Except.ok.injEq, Prod.mk.injEq] at answered
                    have kept := (onPage_child handled).1
                    rw [← answered.2]
                    simp only [weight, kept, List.length_cons]
                    split <;> omega

theorem nextPage_weight {st st' : SkipTake α ρ} {response : Response α ρ} {isTerminal : Bool}
    (answered : st.nextPage = .ok (.page response isTerminal, st')) : st'.weight < st.weight := by
  unfold nextPage at answered
  split_ifs at answered with exhausted
  · simp at answered
  · have lower := loop_weight st.child answered
    have full : st.weight = st.child.length + 1 := by simp [weight, exhausted]
    omega

end Node

/-- The caller's loop over `Pipeline::next_page` with the node as the root: the pages it
hands out until the node answers `Drained`, and the node then. -/
def drain [Add ρ] [Zero ρ] [DecidableEq ρ] (st : SkipTake α ρ) :
    Except CosmosError (List (Response α ρ) × SkipTake α ρ) :=
  match answered : st.nextPage with
  | .error e => .error e
  | .ok (.drained, st') => .ok ([], st')
  | .ok (.splitRequired, _) => .error rootSplitError
  | .ok (.page response _, st') =>
      have := nextPage_weight answered
      match drain st' with
      | .error e => .error e
      | .ok (rest, final) => .ok (response :: rest, final)
termination_by st.weight

section Drain

variable [Add ρ] [Zero ρ] [DecidableEq ρ]

theorem drain_eq (st : SkipTake α ρ) :
    st.drain =
      match st.nextPage with
      | .error e => .error e
      | .ok (.drained, st') => .ok ([], st')
      | .ok (.splitRequired, _) => .error rootSplitError
      | .ok (.page response _, st') =>
          match st'.drain with
          | .error e => .error e
          | .ok (rest, final) => .ok (response :: rest, final) := by
  rw [drain]
  split <;> rename_i answered <;> simp only [answered]

theorem drain_congr {st st' : SkipTake α ρ} (same : st.nextPage = st'.nextPage) : st.drain = st'.drain := by
  rw [drain_eq st, drain_eq st', same]

theorem drain_of_exhausted {st : SkipTake α ρ} (exhausted : st.exhausted = true) : st.drain = .ok ([], st) := by
  rw [drain_eq]
  simp [nextPage, exhausted]

/-! ## The node as a fold over its child's pages -/

/-- What the node hands out when its child's remaining answers are `pages`: each page goes
through `onPage` in turn, and the flush follows once they run out. Besides the pages and
the node at the end, it counts the child pages pulled. -/
def stream (st : SkipTake α ρ) : List (Response α ρ × Bool) →
    Except CosmosError (List (Response α ρ) × Nat × SkipTake α ρ)
  | [] =>
      if st.exhausted then .ok ([], 0, st)
      else
        match st.onDrained [] with
        | (.page response _, st') => .ok ([response], 0, st')
        | (_, st') => .ok ([], 0, st')
  | (response, isTerminal) :: rest =>
      if st.exhausted then .ok ([], 0, st)
      else
        match ({ st with child := ofPages rest } : SkipTake α ρ).onPage response isTerminal with
        | .error e => .error e
        | .ok (shown, st') =>
            match st'.stream rest with
            | .error e => .error e
            | .ok (out, pulled, final) => .ok ((shown.map Prod.fst).toList ++ out, pulled + 1, final)

theorem stream_of_exhausted {st : SkipTake α ρ} (exhausted : st.exhausted = true)
    (pages : List (Response α ρ × Bool)) : st.stream pages = .ok ([], 0, st) := by
  cases pages with
  | nil => simp [stream, exhausted]
  | cons page rest => simp [stream, exhausted]

theorem stream_nil_cases {st final : SkipTake α ρ} {out : List (Response α ρ)} {pulled : Nat}
    (live : st.exhausted = false) (streamed : st.stream [] = .ok (out, pulled, final)) :
    pulled = 0 ∧
      ((st.pendingFlush = none ∧ out = [] ∧ final = { st with child := [], exhausted := true }) ∨
        ∃ template, st.pendingFlush = some template ∧
          out = [⟨.items [], some 0, some st.suppressedCharge,
            (aggregateSubOperations st.suppressedDiagnostics).getD template.diagnostics⟩] ∧
          final = ({ st with child := [], exhausted := true } : SkipTake α ρ).clearSuppressed) := by
  rw [stream, if_neg (by simp [live])] at streamed
  rcases onDrained_cases st [] with ⟨pending, drained⟩ | ⟨template, pending, flushed⟩
  · simp only [drained, Except.ok.injEq, Prod.mk.injEq] at streamed
    exact ⟨streamed.2.1.symm, .inl ⟨pending, streamed.1.symm, streamed.2.2.symm⟩⟩
  · simp only [flushed, Except.ok.injEq, Prod.mk.injEq] at streamed
    exact ⟨streamed.2.1.symm, .inr ⟨template, pending, streamed.1.symm, streamed.2.2.symm⟩⟩

theorem stream_cons_cases {st final : SkipTake α ρ} {response : Response α ρ} {isTerminal : Bool}
    {rest : List (Response α ρ × Bool)} {out : List (Response α ρ)} {pulled : Nat}
    (live : st.exhausted = false) (streamed : st.stream ((response, isTerminal) :: rest) = .ok (out, pulled, final)) :
    ∃ shown st' out' pulled',
      ({ st with child := ofPages rest } : SkipTake α ρ).onPage response isTerminal = .ok (shown, st') ∧
        st'.stream rest = .ok (out', pulled', final) ∧
        out = (shown.map Prod.fst).toList ++ out' ∧ pulled = pulled' + 1 := by
  rw [stream, if_neg (by simp [live])] at streamed
  cases handled : ({ st with child := ofPages rest } : SkipTake α ρ).onPage response isTerminal with
  | error e => simp [handled] at streamed
  | ok step =>
      rcases step with ⟨shown, st'⟩
      simp only [handled] at streamed
      cases continued : st'.stream rest with
      | error e => simp [continued] at streamed
      | ok later =>
          rcases later with ⟨out', pulled', final'⟩
          simp only [continued, Except.ok.injEq, Prod.mk.injEq] at streamed
          obtain ⟨shownOut, shownPulled, shownFinal⟩ := streamed
          subst shownFinal
          exact ⟨shown, st', out', pulled', rfl, continued, shownOut.symm, shownPulled.symm⟩

theorem drain_of_stream (pages : List (Response α ρ × Bool)) :
    ∀ {st final : SkipTake α ρ} {out : List (Response α ρ)} {pulled : Nat},
      st.child = ofPages pages → st.stream pages = .ok (out, pulled, final) → st.drain = .ok (out, final) := by
  induction pages with
  | nil =>
      intro st final out pulled children streamed
      cases live : st.exhausted
      · have answered : st.nextPage = .ok (st.onDrained []) := by
          simp [nextPage, live, children, ofPages, loop]
        obtain ⟨-, ⟨pending, rfl, rfl⟩ | ⟨template, pending, rfl, rfl⟩⟩ := stream_nil_cases live streamed
        · rcases onDrained_cases st [] with ⟨-, drained⟩ | ⟨template', flushing, -⟩
          · rw [drain_eq, answered, drained]
          · simp [pending] at flushing
        · rcases onDrained_cases st [] with ⟨missing, -⟩ | ⟨template', flushing, flushed⟩
          · simp [pending] at missing
          · have same : template' = template := by simpa [pending] using flushing.symm
            subst same
            rw [drain_eq, answered, flushed]
            simp [drain_of_exhausted, clearSuppressed]
      · rw [stream_of_exhausted live] at streamed
        simp only [Except.ok.injEq, Prod.mk.injEq] at streamed
        obtain ⟨rfl, -, rfl⟩ := streamed
        exact drain_of_exhausted live
  | cons page rest induction =>
      intro st final out pulled children streamed
      rcases page with ⟨response, isTerminal⟩
      cases live : st.exhausted
      · obtain ⟨shown, st', out', pulled', handled, continued, rfl, -⟩ := stream_cons_cases live streamed
        have kept := onPage_child handled
        have looped : st.nextPage =
            match ({ st with child := ofPages rest } : SkipTake α ρ).onPage response isTerminal with
            | .error e => .error e
            | .ok (none, st') => st'.loop (ofPages rest)
            | .ok (some (page, terminal), st') => .ok (.page page terminal, st') := by
          rw [nextPage, if_neg (by simp [live]), children, ofPages_cons]
          rfl
        rw [handled] at looped
        cases shown with
        | none =>
            have stillLive : st'.exhausted = false := by simpa [live] using kept.2 rfl
            have same : st.nextPage = st'.nextPage := by
              rw [looped, nextPage, if_neg (by simp [stillLive]), kept.1]
            rw [drain_congr same]
            exact induction kept.1 continued
        | some shownPage =>
            rcases shownPage with ⟨page, terminal⟩
            rw [drain_eq, looped]
            simp only [induction kept.1 continued]
            rfl
      · rw [stream_of_exhausted live] at streamed
        simp only [Except.ok.injEq, Prod.mk.injEq] at streamed
        obtain ⟨rfl, -, rfl⟩ := streamed
        exact drain_of_exhausted live

theorem stream_exhausted_cases {st final : SkipTake α ρ} {pages : List (Response α ρ × Bool)}
    {out : List (Response α ρ)} {pulled : Nat} (exhausted : st.exhausted = true)
    (streamed : st.stream pages = .ok (out, pulled, final)) : out = [] ∧ pulled = 0 ∧ final = st := by
  rw [stream_of_exhausted exhausted] at streamed
  simp only [Except.ok.injEq, Prod.mk.injEq] at streamed
  exact ⟨streamed.1.symm, streamed.2.1.symm, streamed.2.2.symm⟩

theorem stream_nil_of_cleared {st final : SkipTake α ρ} {out : List (Response α ρ)} {pulled : Nat}
    (cleared : st.pendingFlush = none) (streamed : st.stream [] = .ok (out, pulled, final)) : out = [] := by
  cases live : st.exhausted
  · obtain ⟨-, ⟨-, rfl, -⟩ | ⟨template, pending, -, -⟩⟩ := stream_nil_cases live streamed
    · rfl
    · simp [cleared] at pending
  · exact (stream_exhausted_cases live streamed).1

theorem onPage_ok (st : SkipTake α ρ) {response : Response α ρ} (isTerminal : Bool) {items : List α}
    (parsed : response.body.documents = .ok items) :
    ∃ shown st', st.onPage response isTerminal = .ok (shown, st') := by
  unfold onPage
  rw [parsed]
  dsimp only
  split_ifs <;> exact ⟨_, _, rfl⟩

theorem onPage_counters {st st' : SkipTake α ρ} {response : Response α ρ} {isTerminal : Bool}
    {result : Option (Response α ρ × Bool)} {items : List α} (parsed : response.body.documents = .ok items)
    (answered : st.onPage response isTerminal = .ok (result, st')) :
    st'.remainingSkip = st.remainingSkip - (skipTakeItems items st.remainingSkip st.remainingTake).dropped ∧
      st'.remainingTake = st.remainingTake.map (· - (skipTakeItems items st.remainingSkip st.remainingTake).emitted) ∧
      st'.exhausted =
        (st.exhausted || (st.advance (skipTakeItems items st.remainingSkip st.remainingTake)).takeExhausted) := by
  rcases onPage_cases parsed rfl answered with ⟨rfl, -, -, unmet, rfl⟩ | ⟨rfl, -, rfl⟩
  · refine ⟨rfl, rfl, ?_⟩
    rw [unmet, Bool.or_false]
    rfl
  · exact ⟨rfl, rfl, rfl⟩

theorem stream_ok (pages : List (Response α ρ × Bool)) :
    ∀ {docs : List (List α)}, pages.map (fun page => page.1.body.documents) = docs.map .ok →
      ∀ st : SkipTake α ρ, ∃ out pulled final, st.stream pages = .ok (out, pulled, final) := by
  induction pages with
  | nil =>
      intro docs _ st
      unfold stream
      split_ifs
      · exact ⟨_, _, _, rfl⟩
      · split <;> exact ⟨_, _, _, rfl⟩
  | cons page rest induction =>
      intro docs parsed st
      rcases page with ⟨response, isTerminal⟩
      obtain ⟨documents, others, -, pageParsed, restParsed⟩ := parsed_cons parsed
      cases live : st.exhausted
      · obtain ⟨shown, st', handled⟩ := onPage_ok { st with child := ofPages rest } isTerminal pageParsed
        obtain ⟨out, pulled, final, continued⟩ := induction restParsed st'
        rw [stream, if_neg (by simp [live]), handled]
        simp only [continued]
        exact ⟨_, _, _, rfl⟩
      · exact ⟨_, _, _, stream_of_exhausted live _⟩

theorem stream_child (pages : List (Response α ρ × Bool)) :
    ∀ {st final : SkipTake α ρ} {out : List (Response α ρ)} {pulled : Nat},
      st.child = ofPages pages → st.stream pages = .ok (out, pulled, final) →
      pulled ≤ pages.length ∧ final.child = ofPages (pages.drop pulled) := by
  induction pages with
  | nil =>
      intro st final out pulled children streamed
      cases live : st.exhausted
      · obtain ⟨rfl, ⟨-, -, rfl⟩ | ⟨template, -, -, rfl⟩⟩ := stream_nil_cases live streamed
        · exact ⟨le_rfl, rfl⟩
        · exact ⟨le_rfl, rfl⟩
      · obtain ⟨-, rfl, rfl⟩ := stream_exhausted_cases live streamed
        exact ⟨le_rfl, children⟩
  | cons page rest induction =>
      intro st final out pulled children streamed
      rcases page with ⟨response, isTerminal⟩
      cases live : st.exhausted
      · obtain ⟨shown, st', out', pulled', handled, continued, -, rfl⟩ := stream_cons_cases live streamed
        obtain ⟨bounded, left⟩ := induction (onPage_child handled).1 continued
        exact ⟨by simpa using bounded, by simpa using left⟩
      · obtain ⟨-, rfl, rfl⟩ := stream_exhausted_cases live streamed
        exact ⟨Nat.zero_le _, children⟩

theorem stream_window (pages : List (Response α ρ × Bool)) :
    ∀ {docs : List (List α)} {st final : SkipTake α ρ} {out : List (Response α ρ)} {pulled : Nat},
      pages.map (fun page => page.1.body.documents) = docs.map .ok →
      (∀ documents ∈ docs, documents.length < 2 ^ 32) →
      (st.exhausted = true → st.remainingTake = some 0) →
      st.stream pages = .ok (out, pulled, final) →
      ∃ chunks : List (List α), out.map (·.body) = chunks.map .items ∧
        chunks.flatten = window docs.flatten st.remainingSkip st.remainingTake ∧
        out.map (·.itemCount) = chunks.map fun chunk => some chunk.length := by
  induction pages with
  | nil =>
      intro docs st final out pulled parsed _ _ streamed
      rw [parsed_nil parsed]
      cases live : st.exhausted
      · obtain ⟨-, ⟨-, rfl, -⟩ | ⟨template, -, rfl, -⟩⟩ := stream_nil_cases live streamed
        · exact ⟨[], rfl, by simp [window_nil], rfl⟩
        · exact ⟨[[]], rfl, by simp [window_nil], rfl⟩
      · obtain ⟨rfl, -, -⟩ := stream_exhausted_cases live streamed
        exact ⟨[], rfl, by simp [window_nil], rfl⟩
  | cons page rest induction =>
      intro docs st final out pulled parsed fits settled streamed
      rcases page with ⟨response, isTerminal⟩
      obtain ⟨documents, others, rfl, pageParsed, restParsed⟩ := parsed_cons parsed
      cases live : st.exhausted
      · obtain ⟨shown, st', out', pulled', handled, continued, rfl, -⟩ := stream_cons_cases live streamed
        have counted : skipTakeItems documents ({ st with child := ofPages rest } : SkipTake α ρ).remainingSkip
            ({ st with child := ofPages rest } : SkipTake α ρ).remainingTake =
            skipTakeItems documents st.remainingSkip st.remainingTake := rfl
        obtain ⟨kept, fitsPage⟩ := length_skipTakeItems documents st.remainingSkip st.remainingTake
        obtain ⟨skipped, taken, exhaustedNow⟩ := onPage_counters pageParsed handled
        dsimp only at skipped taken exhaustedNow
        have settledNext : st'.exhausted = true → st'.remainingTake = some 0 := by
          intro now
          simpa [exhaustedNow, live, advance, takeExhausted, ← taken] using now
        obtain ⟨chunks, bodies, flat, counts⟩ :=
          induction restParsed (fun d member => fits d (List.mem_cons_of_mem _ member)) settledNext continued
        have step := window_append documents others.flatten st.remainingSkip st.remainingTake
        rw [← skipped, ← taken, ← flat] at step
        rcases onPage_cases pageParsed counted handled with ⟨rfl, emptied, -, -, -⟩ | ⟨rfl, -, -⟩
        · have nothing : (skipTakeItems documents st.remainingSkip st.remainingTake).items = [] :=
            List.eq_nil_of_length_eq_zero (kept.trans emptied)
          refine ⟨chunks, bodies, ?_, counts⟩
          rw [List.flatten_cons, step, nothing, List.nil_append]
        · have small : (skipTakeItems documents st.remainingSkip st.remainingTake).emitted < 2 ^ 32 :=
            lt_of_le_of_lt fitsPage (fits documents (by simp))
          refine ⟨(skipTakeItems documents st.remainingSkip st.remainingTake).items :: chunks, ?_, ?_, ?_⟩
          · simp [bodies, rebuild, Response.withAggregatedPriorDiagnostics_eq, advance]
          · rw [List.flatten_cons, List.flatten_cons, step]
          · simp [counts, rebuild, Response.withAggregatedPriorDiagnostics_eq, advance, kept]
            simpa using small
      · obtain ⟨rfl, -, -⟩ := stream_exhausted_cases live streamed
        exact ⟨[], rfl, by simp [settled live, window], rfl⟩

theorem stream_nonempty (pages : List (Response α ρ × Bool)) :
    ∀ {st final : SkipTake α ρ} {out : List (Response α ρ)} {pulled : Nat},
      (∀ page ∈ pages.dropLast, page.2 = false) → st.stream pages = .ok (out, pulled, final) →
      ∀ response ∈ out.dropLast, response.body ≠ .items [] := by
  induction pages with
  | nil =>
      intro st final out pulled _ streamed
      cases live : st.exhausted
      · obtain ⟨-, ⟨-, rfl, -⟩ | ⟨template, -, rfl, -⟩⟩ := stream_nil_cases live streamed <;> simp
      · obtain ⟨rfl, -, -⟩ := stream_exhausted_cases live streamed
        simp
  | cons page rest induction =>
      intro st final out pulled terminalLast streamed
      rcases page with ⟨response, isTerminal⟩
      cases live : st.exhausted
      · obtain ⟨shown, st', out', pulled', handled, continued, rfl, -⟩ := stream_cons_cases live streamed
        have restLast : ∀ page ∈ rest.dropLast, page.2 = false := by
          intro page member
          have more : rest ≠ [] := by
            rintro rfl
            simp at member
          exact terminalLast page (by rw [List.dropLast_cons_of_ne_nil more]; exact List.mem_cons_of_mem _ member)
        have later := induction restLast continued
        obtain ⟨items, pageParsed⟩ := onPage_parsed handled
        have counted : skipTakeItems items ({ st with child := ofPages rest } : SkipTake α ρ).remainingSkip
            ({ st with child := ofPages rest } : SkipTake α ρ).remainingTake =
            skipTakeItems items st.remainingSkip st.remainingTake := rfl
        rcases onPage_cases pageParsed counted handled with ⟨rfl, -, -, -, -⟩ | ⟨rfl, shownEmpty, rfl⟩
        · simpa using later
        · -- an empty page is returned only as the child's last one or when the limit is met,
          -- and in both cases nothing follows it
          have alone : out' ≠ [] → (skipTakeItems items st.remainingSkip st.remainingTake).items ≠ [] := by
            intro more nothing
            have emptied := (length_skipTakeItems items st.remainingSkip st.remainingTake).1
            rw [nothing] at emptied
            rcases shownEmpty emptied.symm with terminal | limitMet
            · have last : rest = [] := by
                by_contra more'
                have := terminalLast (response, isTerminal) (by simp [List.dropLast_cons_of_ne_nil more'])
                simp [terminal] at this
              subst last
              exact more (stream_nil_of_cleared (by simp [clearSuppressed]) continued)
            · exact more (stream_exhausted_cases (by simp [limitMet]) continued).1
          intro shown member
          cases out' with
          | nil => simp at member
          | cons next others =>
              simp only [Option.map_some, Option.toList_some, List.singleton_append,
                List.dropLast_cons_cons, List.mem_cons] at member
              rcases member with rfl | member
              · simpa [rebuild, Response.withAggregatedPriorDiagnostics_eq] using alone (List.cons_ne_nil _ _)
              · exact later shown member
      · obtain ⟨rfl, -, -⟩ := stream_exhausted_cases live streamed
        simp

theorem stream_pulled_le (pages : List (Response α ρ × Bool)) :
    ∀ {docs : List (List α)} {st final : SkipTake α ρ} {out : List (Response α ρ)} {pulled take j : Nat},
      pages.map (fun page => page.1.body.documents) = docs.map .ok →
      st.remainingTake = some take → st.stream pages = .ok (out, pulled, final) →
      0 < j → st.remainingSkip + take ≤ (docs.take j).flatten.length → pulled ≤ j := by
  induction pages with
  | nil =>
      intro docs st final out pulled take j _ _ streamed positive _
      cases live : st.exhausted
      · obtain ⟨rfl, -⟩ := stream_nil_cases live streamed
        exact Nat.zero_le _
      · obtain ⟨-, rfl, -⟩ := stream_exhausted_cases live streamed
        exact Nat.zero_le _
  | cons page rest induction =>
      intro docs st final out pulled take j parsed limited streamed positive enough
      rcases page with ⟨response, isTerminal⟩
      obtain ⟨documents, others, rfl, pageParsed, restParsed⟩ := parsed_cons parsed
      cases live : st.exhausted
      · obtain ⟨shown, st', out', pulled', handled, continued, -, rfl⟩ := stream_cons_cases live streamed
        obtain ⟨skipped, taken, exhaustedNow⟩ := onPage_counters pageParsed handled
        dsimp only at skipped taken exhaustedNow
        rw [limited] at skipped taken exhaustedNow
        by_cases met : take - (skipTakeItems documents st.remainingSkip (some take)).emitted = 0
        · -- the limit is met on this page: the node is exhausted and pulls nothing more
          have done : st'.exhausted = true := by
            simp [exhaustedNow, advance, takeExhausted, met]
          obtain ⟨-, rfl, -⟩ := stream_exhausted_cases done continued
          omega
        · obtain ⟨consumed, within⟩ := skipTakeItems_consumed documents st.remainingSkip take met
          obtain ⟨j', rfl⟩ : ∃ j', j = j' + 1 := ⟨j - 1, by omega⟩
          simp only [List.take_succ_cons, List.flatten_cons, List.length_append] at enough
          have more : 0 < j' := by
            rcases Nat.eq_zero_or_pos j' with none | some
            · subst none
              simp only [List.take_zero, List.flatten_nil, List.length_nil] at enough
              omega
            · exact some
          have takenNext : st'.remainingTake = some (take - (skipTakeItems documents st.remainingSkip (some take)).emitted) := by
            simpa using taken
          have rest := induction restParsed takenNext continued more (by rw [skipped]; omega)
          omega
      · obtain ⟨-, rfl, -⟩ := stream_exhausted_cases live streamed
        exact Nat.zero_le _

/-! ## The suppressed ledger -/

/-- What holds of the suppressed ledger between pages: it is empty unless a page waits to
be flushed, and an exhausted node has nothing waiting. -/
structure Ledger (st : SkipTake α ρ) : Prop where
  charge : st.pendingFlush = none → st.suppressedCharge = 0
  diagnostics : st.pendingFlush = none ↔ st.suppressedDiagnostics = []
  settled : st.exhausted = true → st.pendingFlush = none

omit [Add ρ] [DecidableEq ρ] in
theorem ledger_clearSuppressed (st : SkipTake α ρ) (exhausted : Bool) :
    Ledger { st.clearSuppressed with exhausted := exhausted } :=
  ⟨fun _ => rfl, Iff.intro (fun _ => rfl) (fun _ => rfl), fun _ => rfl⟩

omit [DecidableEq ρ] in
theorem ledger_suppress (st : SkipTake α ρ) (live : st.exhausted = false) (response : Response α ρ) :
    Ledger (st.suppress response) :=
  ⟨fun waiting => by simp [suppress] at waiting, by simp [suppress],
    fun exhausted => by simp [suppress, live] at exhausted⟩

theorem ledger_onPage {st st' : SkipTake α ρ} {response : Response α ρ} {isTerminal : Bool}
    {result : Option (Response α ρ × Bool)} (live : st.exhausted = false)
    (answered : st.onPage response isTerminal = .ok (result, st')) : Ledger st' := by
  obtain ⟨items, parsed⟩ := onPage_parsed answered
  rcases onPage_cases parsed rfl answered with ⟨-, -, -, -, rfl⟩ | ⟨-, -, rfl⟩
  · exact ledger_suppress (st.advance _) live response
  · exact ledger_clearSuppressed _ _

theorem stream_requestCount (pages : List (Response α ρ × Bool)) :
    ∀ {st final : SkipTake α ρ} {out : List (Response α ρ)} {pulled : Nat},
      Ledger st → st.stream pages = .ok (out, pulled, final) →
      (out.map (·.diagnostics.requestCount)).sum =
        (st.suppressedDiagnostics.map requestCount).sum +
          ((pages.take pulled).map (·.1.diagnostics.requestCount)).sum := by
  induction pages with
  | nil =>
      intro st final out pulled ledger streamed
      cases live : st.exhausted
      · obtain ⟨rfl, ⟨pending, rfl, -⟩ | ⟨template, pending, rfl, -⟩⟩ := stream_nil_cases live streamed
        · simp [ledger.diagnostics.mp pending]
        · -- the flush page aggregates what is held, and something is held
          have held : st.suppressedDiagnostics ≠ [] := fun empty => by
            simp [ledger.diagnostics.mpr empty] at pending
          obtain ⟨aggregated, joined⟩ := aggregateSubOperations_of_ne_nil held
          simp [joined, requestCount_aggregateSubOperations joined]
      · obtain ⟨rfl, rfl, -⟩ := stream_exhausted_cases live streamed
        simp [ledger.diagnostics.mp (ledger.settled live)]
  | cons page rest induction =>
      intro st final out pulled ledger streamed
      rcases page with ⟨response, isTerminal⟩
      cases live : st.exhausted
      · obtain ⟨shown, st', out', pulled', handled, continued, rfl, rfl⟩ := stream_cons_cases live streamed
        have later := induction (ledger_onPage (by simp [live]) handled) continued
        obtain ⟨items, parsed⟩ := onPage_parsed handled
        rcases onPage_cases parsed rfl handled with ⟨rfl, -, -, -, rfl⟩ | ⟨rfl, -, rfl⟩
        · simp only [suppress, advance, List.map_append, List.sum_append, List.map_singleton,
            List.sum_singleton] at later
          simp only [Option.map_none, Option.toList_none, List.nil_append, later, List.take_succ_cons,
            List.map_cons, List.sum_cons]
          omega
        · simp only [clearSuppressed, List.map_nil, List.sum_nil, Nat.zero_add] at later
          simp only [Option.map_some, Option.toList_some, List.singleton_append, List.map_cons, List.sum_cons,
            later, List.take_succ_cons, rebuild, advance, Response.requestCount_withAggregatedPriorDiagnostics]
          omega
      · obtain ⟨rfl, rfl, -⟩ := stream_exhausted_cases live streamed
        simp [ledger.diagnostics.mp (ledger.settled live)]

end Drain

section Charges

variable [Add ρ] [Zero ρ] [DecidableEq ρ]

def heldCharge (charges : List (Option ρ)) : ρ :=
  charges.foldl (fun held charge => held + charge.getD 0) 0

/-- The charge `rebuild` gives a page returned after suppressed pages: its own, plus what
theirs add up to when that is not zero. -/
def foldedCharge (suppressed : List (Option ρ)) (own : Option ρ) : Option ρ :=
  if heldCharge suppressed ≠ 0 then some (own.getD 0 + heldCharge suppressed) else own

/-- How the charge of a returned page comes from the run of pulled pages it answers for:
the pages suppressed before it and its own, or, for the page `flush_suppressed` makes, the
suppressed pages alone. -/
inductive Accounts : List (Option ρ) → Option ρ → Prop
  | returned (suppressed : List (Option ρ)) (own : Option ρ) :
      Accounts (suppressed ++ [own]) (foldedCharge suppressed own)
  | flushed (suppressed : List (Option ρ)) (nonempty : suppressed ≠ []) :
      Accounts suppressed (some (heldCharge suppressed))

structure Waiting (st : SkipTake α ρ) (waiting : List (Option ρ)) : Prop where
  charge : st.suppressedCharge = heldCharge waiting
  pending : st.pendingFlush = none ↔ waiting = []
  settled : st.exhausted = true → waiting = []

omit [DecidableEq ρ] in
theorem waiting_clearSuppressed (st : SkipTake α ρ) (exhausted : Bool) :
    Waiting { st.clearSuppressed with exhausted := exhausted } [] :=
  ⟨rfl, Iff.intro (fun _ => rfl) (fun _ => rfl), fun _ => rfl⟩

omit [DecidableEq ρ] in
theorem waiting_suppress {st : SkipTake α ρ} {waiting : List (Option ρ)} (kept : Waiting st waiting)
    (live : st.exhausted = false) (child : List (Except CosmosError (PageResult α ρ))) (outcome : SkipTakeOutcome α)
    (response : Response α ρ) :
    Waiting (({ st with child := child } : SkipTake α ρ).advance outcome |>.suppress response)
      (waiting ++ [response.requestCharge]) :=
  ⟨by simp [suppress, advance, kept.charge, heldCharge, List.foldl_append], by simp [suppress],
    fun exhausted => by simp [suppress, advance, live] at exhausted⟩

theorem rebuild_requestCharge (st : SkipTake α ρ) (response : Response α ρ) (items : List α) (emitted : Nat) :
    (st.rebuild response items emitted).1.requestCharge =
      if st.suppressedCharge ≠ 0 then some (response.requestCharge.getD 0 + st.suppressedCharge)
      else response.requestCharge := by
  simp [rebuild, Response.withAggregatedPriorDiagnostics_eq]

theorem stream_accounts (pages : List (Response α ρ × Bool)) :
    ∀ {st final : SkipTake α ρ} {out : List (Response α ρ)} {pulled : Nat} {waiting : List (Option ρ)},
      Waiting st waiting → st.stream pages = .ok (out, pulled, final) →
      ∃ runs : List (List (Option ρ)), runs.flatten = waiting ++ (pages.take pulled).map (·.1.requestCharge) ∧
        List.Forall₂ Accounts runs (out.map (·.requestCharge)) := by
  induction pages with
  | nil =>
      intro st final out pulled waiting kept streamed
      cases live : st.exhausted
      · obtain ⟨rfl, ⟨pending, rfl, -⟩ | ⟨template, pending, rfl, -⟩⟩ := stream_nil_cases live streamed
        · exact ⟨[], by simp [kept.pending.mp pending], .nil⟩
        · -- the flush page carries what the waiting pages add up to
          have held : waiting ≠ [] := fun empty => by simp [kept.pending.mpr empty] at pending
          refine ⟨[waiting], by simp, ?_⟩
          simpa [kept.charge] using List.Forall₂.cons (Accounts.flushed waiting held) List.Forall₂.nil
      · obtain ⟨rfl, rfl, -⟩ := stream_exhausted_cases live streamed
        exact ⟨[], by simp [kept.settled live], .nil⟩
  | cons page rest induction =>
      intro st final out pulled waiting kept streamed
      rcases page with ⟨response, isTerminal⟩
      cases live : st.exhausted
      · obtain ⟨shown, st', out', pulled', handled, continued, rfl, rfl⟩ := stream_cons_cases live streamed
        obtain ⟨items, parsed⟩ := onPage_parsed handled
        rcases onPage_cases parsed rfl handled with ⟨rfl, -, -, -, rfl⟩ | ⟨rfl, -, rfl⟩
        · -- a suppressed page joins the run of the next page handed out
          obtain ⟨runs, flat, accounted⟩ := induction (waiting_suppress kept live _ _ response) continued
          exact ⟨runs, by simpa using flat, by simpa using accounted⟩
        · -- a returned page closes the run of the pages waiting before it
          obtain ⟨runs, flat, accounted⟩ := induction (waiting_clearSuppressed _ _) continued
          refine ⟨(waiting ++ [response.requestCharge]) :: runs, by simp [flat], ?_⟩
          simpa [rebuild_requestCharge, advance, kept.charge, foldedCharge] using
            List.Forall₂.cons (Accounts.returned waiting response.requestCharge) accounted
      · obtain ⟨rfl, rfl, -⟩ := stream_exhausted_cases live streamed
        exact ⟨[], by simp [kept.settled live], .nil⟩

end Charges

/-! ## Between calls -/

section Resume

variable [Add ρ] [Zero ρ] [DecidableEq ρ]

/-- One successful call of `next_page`. -/
def Calls (st st' : SkipTake α ρ) : Prop :=
  ∃ result, st.nextPage = .ok (result, st')

structure Quiet (st : SkipTake α ρ) : Prop where
  charge : st.suppressedCharge = 0
  diagnostics : st.suppressedDiagnostics = []
  pending : st.pendingFlush = none

omit [Add ρ] [DecidableEq ρ] in
theorem Quiet.ledger {st : SkipTake α ρ} (quiet : Quiet st) : Ledger st :=
  ⟨fun _ => quiet.charge, Iff.intro (fun _ => quiet.diagnostics) (fun _ => quiet.pending),
    fun _ => quiet.pending⟩

omit [Add ρ] [DecidableEq ρ] in
theorem quiet_onDrained {st : SkipTake α ρ} (ledger : Ledger st) (rest : List (Except CosmosError (PageResult α ρ))) :
    Quiet (st.onDrained rest).2 := by
  rcases onDrained_cases st rest with ⟨pending, drained⟩ | ⟨template, -, flushed⟩
  · rw [drained]
    exact ⟨ledger.charge pending, ledger.diagnostics.mp pending, pending⟩
  · rw [flushed]
    exact ⟨rfl, rfl, rfl⟩

theorem loop_quiet {st' : SkipTake α ρ} {result : PageResult α ρ} :
    ∀ (answers : List (Except CosmosError (PageResult α ρ))) {st : SkipTake α ρ},
      Ledger st → st.exhausted = false → st.loop answers = .ok (result, st') → Quiet st' := by
  intro answers
  induction answers with
  | nil =>
      intro st ledger _ answered
      simp only [loop, Except.ok.injEq] at answered
      simpa [answered] using quiet_onDrained ledger []
  | cons answer rest induction =>
      intro st ledger live answered
      cases answer with
      | error e => simp [loop] at answered
      | ok reply =>
          cases reply with
          | drained =>
              simp only [loop, Except.ok.injEq] at answered
              simpa [answered] using quiet_onDrained ledger rest
          | splitRequired => simp [loop] at answered
          | page page terminal =>
              simp only [loop] at answered
              cases handled : ({ st with child := rest } : SkipTake α ρ).onPage page terminal with
              | error e => simp [handled] at answered
              | ok step =>
                  rcases step with ⟨_ | ⟨shown, shownTerminal⟩, next⟩
                  · simp only [handled] at answered
                    have stillLive : next.exhausted = false := by simpa [live] using (onPage_child handled).2 rfl
                    exact induction (ledger_onPage (by simp [live]) handled) stillLive answered
                  · simp only [handled, Except.ok.injEq, Prod.mk.injEq] at answered
                    obtain ⟨items, parsed⟩ := onPage_parsed handled
                    rcases onPage_cases parsed rfl handled with ⟨shownNone, -⟩ | ⟨-, -, rfl⟩
                    · cases shownNone
                    · rw [← answered.2]
                      exact ⟨rfl, rfl, rfl⟩

theorem nextPage_quiet {st st' : SkipTake α ρ} {result : PageResult α ρ} (quiet : Quiet st)
    (answered : st.nextPage = .ok (result, st')) : Quiet st' := by
  unfold nextPage at answered
  split_ifs at answered with exhausted
  · simp only [Except.ok.injEq, Prod.mk.injEq] at answered
    rw [← answered.2]
    exact quiet
  · exact loop_quiet st.child quiet.ledger (by simpa using exhausted) answered

theorem quiet_of_reaches {child : List (Except CosmosError (PageResult α ρ))} {skip : Nat} {take : Option Nat}
    {st : SkipTake α ρ} (reached : Relation.ReflTransGen Calls (new child skip take) st) : Quiet st := by
  induction reached with
  | refl => exact ⟨rfl, rfl, rfl⟩
  | tail _ called quiet =>
      obtain ⟨result, answered⟩ := called
      exact nextPage_quiet quiet answered

theorem resumes_of_quiet {st : SkipTake α ρ} (quiet : Quiet st) :
    (st.snapshotState = .drained ∧ st.nextPage = .ok (.drained, st)) ∨
      ∃ remainingSkip remainingTake, st.snapshotState = .skipTake remainingSkip remainingTake ∧
        new st.child remainingSkip remainingTake = st := by
  cases exhausted : st.exhausted
  · refine .inr ⟨st.remainingSkip, st.remainingTake, by simp [snapshotState, exhausted], ?_⟩
    rcases st with ⟨child, skip, take, _, charge, diagnostics, pending⟩
    rcases quiet with ⟨charged, noted, waiting⟩
    simp only at exhausted charged noted waiting
    simp [new, exhausted, charged, noted, waiting]
  · exact .inl ⟨by simp [snapshotState, exhausted], by simp [nextPage, exhausted]⟩

end Resume

end SkipTake

section Window

open SkipTake

/-- For a child whose pages parse into `docs`, are terminal only at the end and hold fewer
than `2 ^ 32` documents each, the pages `SkipTake` returns until `Drained` hold exactly the
window, each non-empty but the last and counting its items; once the first `j` pages hold
the window no later page is pulled; the pulled pages fall into runs, one for each page
returned, whose request charges make up that page's charge as the node adds them in `f64`;
and at every point between calls the node is what its snapshot rebuilds, or only drains. -/
theorem skip_take_window_is_exact (pages : List (Response α RequestCharge × Bool)) (docs : List (List α))
    (parsed : pages.map (fun page => page.1.body.documents) = docs.map .ok)
    (terminalLast : ∀ page ∈ pages.dropLast, page.2 = false)
    (fits : ∀ documents ∈ docs, documents.length < 2 ^ 32) (skip : Nat) (take : Option Nat) :
    ∃ returned final pulled, (SkipTake.new (ofPages pages) skip take).drain = .ok (returned, final) ∧
      pulled ≤ pages.length ∧ final.child = ofPages (pages.drop pulled) ∧
      (∃ chunks : List (List α), returned.map (·.body) = chunks.map .items ∧
        chunks.flatten = window docs.flatten skip take ∧ (∀ chunk ∈ chunks.dropLast, chunk ≠ []) ∧
        returned.map (·.itemCount) = chunks.map fun chunk => some chunk.length) ∧
      (∀ limit, take = some limit → ∀ j, 0 < j → skip + limit ≤ (docs.take j).flatten.length → pulled ≤ j) ∧
      (∃ runs : List (List (Option RequestCharge)), runs.flatten = (pages.take pulled).map (·.1.requestCharge) ∧
        List.Forall₂ Accounts runs (returned.map (·.requestCharge))) ∧
      ∀ st, Relation.ReflTransGen Calls (SkipTake.new (ofPages pages) skip take) st →
        (st.snapshotState = .drained ∧ st.nextPage = .ok (.drained, st)) ∨
          ∃ remainingSkip remainingTake, st.snapshotState = .skipTake remainingSkip remainingTake ∧
            SkipTake.new st.child remainingSkip remainingTake = st := by
  obtain ⟨out, pulled, final, streamed⟩ := stream_ok pages parsed (SkipTake.new (ofPages pages) skip take)
  have fresh : Waiting (SkipTake.new (ofPages pages) skip take : SkipTake α RequestCharge) [] :=
    ⟨rfl, Iff.intro (fun _ => rfl) (fun _ => rfl), fun _ => rfl⟩
  obtain ⟨bounded, left⟩ := stream_child pages rfl streamed
  obtain ⟨chunks, bodies, flat, counts⟩ :=
    stream_window pages parsed fits (fun started => by cases started) streamed
  have nonempty := stream_nonempty pages terminalLast streamed
  obtain ⟨runs, grouped, accounted⟩ := stream_accounts pages fresh streamed
  refine ⟨out, final, pulled, drain_of_stream pages rfl streamed, bounded, left,
    ⟨chunks, bodies, flat, ?_, counts⟩, ?_, ⟨runs, by simpa using grouped, accounted⟩, ?_⟩
  · intro chunk member empty
    have shownBody : ResponseBody.items chunk ∈ out.dropLast.map (·.body) := by
      rw [List.map_dropLast, bodies, ← List.map_dropLast]
      exact List.mem_map_of_mem member
    obtain ⟨response, shown, sameBody⟩ := List.mem_map.mp shownBody
    exact nonempty response shown (by rw [sameBody, empty])
  · intro limit limited j positive enough
    exact stream_pulled_le pages parsed limited streamed positive enough
  · intro st reached
    exact resumes_of_quiet (quiet_of_reaches reached)

/-- For a child whose pages all parse, the pages `SkipTake` returns until `Drained` count
every attempt of the child pages it pulled: a suppressed page is counted by the next page
returned, or by the final flush page. -/
theorem skip_take_reports_every_request [Add ρ] [Zero ρ] [DecidableEq ρ] (pages : List (Response α ρ × Bool))
    (docs : List (List α)) (parsed : pages.map (fun page => page.1.body.documents) = docs.map .ok)
    (skip : Nat) (take : Option Nat) :
    ∃ returned final pulled, (SkipTake.new (ofPages pages) skip take).drain = .ok (returned, final) ∧
      final.child = ofPages (pages.drop pulled) ∧
      (returned.map (·.diagnostics.requestCount)).sum =
        ((pages.take pulled).map (·.1.diagnostics.requestCount)).sum := by
  obtain ⟨out, pulled, final, streamed⟩ := stream_ok pages parsed (SkipTake.new (ofPages pages) skip take)
  have fresh : Ledger (SkipTake.new (ofPages pages) skip take : SkipTake α ρ) :=
    ⟨fun _ => rfl, Iff.intro (fun _ => rfl) (fun _ => rfl), fun _ => rfl⟩
  refine ⟨out, final, pulled, drain_of_stream pages rfl streamed, (stream_child pages rfl streamed).2, ?_⟩
  simpa [new] using stream_requestCount pages fresh streamed

def oneAttempt : DiagnosticsContext :=
  DiagnosticsContextBuilder.complete
    ⟨"page", [⟨.initial, none, "gateway", ⟨200, none⟩, 0, 0, none⟩], some ⟨200, none⟩, ⟨512, by decide⟩,
      none, none, false⟩ 0

def twoPages : List (Response Unit RequestCharge × Bool) :=
  [(⟨.items [(), ()], none, some (.new ⟨0x4000000000000000⟩), oneAttempt⟩, false),
    (⟨.items [()], none, some (.new ⟨0x3FF0000000000000⟩), oneAttempt⟩, true)]

theorem skip_take_reports_requests_of_two_pages :
    twoPages.map (fun page => page.1.body.documents) = [[(), ()], [()]].map .ok ∧
      ∃ returned final pulled, (SkipTake.new (ofPages twoPages) 1 (some 1)).drain = .ok (returned, final) ∧
        final.child = ofPages (twoPages.drop pulled) ∧
        (returned.map (·.diagnostics.requestCount)).sum =
          ((twoPages.take pulled).map (·.1.diagnostics.requestCount)).sum :=
  ⟨rfl, skip_take_reports_every_request twoPages [[(), ()], [()]] rfl 1 (some 1)⟩

theorem skip_take_window_of_two_pages :
    twoPages.map (fun page => page.1.body.documents) = [[(), ()], [()]].map .ok ∧
      (∀ page ∈ twoPages.dropLast, page.2 = false) ∧
      (∀ documents ∈ [[(), ()], [()]], documents.length < 2 ^ 32) ∧
      ∃ returned final pulled, (SkipTake.new (ofPages twoPages) 1 (some 1)).drain = .ok (returned, final) ∧
        pulled ≤ twoPages.length ∧ final.child = ofPages (twoPages.drop pulled) ∧
        (∃ chunks : List (List Unit), returned.map (·.body) = chunks.map .items ∧
          chunks.flatten = window [[(), ()], [()]].flatten 1 (some 1) ∧ (∀ chunk ∈ chunks.dropLast, chunk ≠ []) ∧
          returned.map (·.itemCount) = chunks.map fun chunk => some chunk.length) ∧
        (∀ limit, some 1 = some limit → ∀ j, 0 < j → 1 + limit ≤ ([[(), ()], [()]].take j).flatten.length →
          pulled ≤ j) ∧
        (∃ runs : List (List (Option RequestCharge)), runs.flatten = (twoPages.take pulled).map (·.1.requestCharge) ∧
          List.Forall₂ Accounts runs (returned.map (·.requestCharge))) ∧
        ∀ st, Relation.ReflTransGen Calls (SkipTake.new (ofPages twoPages) 1 (some 1)) st →
          (st.snapshotState = .drained ∧ st.nextPage = .ok (.drained, st)) ∨
            ∃ remainingSkip remainingTake, st.snapshotState = .skipTake remainingSkip remainingTake ∧
              SkipTake.new st.child remainingSkip remainingTake = st :=
  ⟨rfl, by decide, by decide,
    skip_take_window_is_exact twoPages [[(), ()], [()]] rfl (by decide) (by decide) 1 (some 1)⟩

/-- Charges of `0.1`, `0.2` and `0.3` RU on a page of one document, an empty page and a last
page of one document. -/
def chargedPages : List (Response Unit RequestCharge × Bool) :=
  [(⟨.items [()], none, some (.new ⟨0x3FB999999999999A⟩), oneAttempt⟩, false),
    (⟨.items [], none, some (.new ⟨0x3FC999999999999A⟩), oneAttempt⟩, false),
    (⟨.items [()], none, some (.new ⟨0x3FD3333333333333⟩), oneAttempt⟩, true)]

/-- Read with no offset and no limit, the empty page is suppressed and its `0.2` added to the
last page's `0.3`. The charges returned, `0.1` and `0.5`, add up to `0.6`, while the three
pulled add up to `0.6000000000000001`. -/
theorem skip_take_charges_regroup :
    ∃ returned final, (SkipTake.new (ofPages chargedPages) 0 none).drain = .ok (returned, final) ∧
      final.child = [] ∧
      (RequestCharge.sum (returned.map (·.requestCharge.getD 0))).value = ⟨0x3FE3333333333333⟩ ∧
      (RequestCharge.sum (chargedPages.map (·.1.requestCharge.getD 0))).value = ⟨0x3FE3333333333334⟩ := by
  have held : (0 + RequestCharge.new ⟨0x3FC999999999999A⟩ : RequestCharge) ≠ 0 := by decide +kernel
  have streamed : (SkipTake.new (ofPages chargedPages) 0 none).stream chargedPages =
      .ok ([⟨.items [()], some 1, some (.new ⟨0x3FB999999999999A⟩), oneAttempt⟩,
        ⟨.items [()], some 1, some (.new ⟨0x3FD3333333333333⟩ + (0 + .new ⟨0x3FC999999999999A⟩)),
          (aggregateSubOperations [oneAttempt, oneAttempt]).getD oneAttempt⟩], 3,
        ⟨[], 0, none, true, 0, [], none⟩) := by
    simp [chargedPages, stream, new, onPage, ResponseBody.documents, skipTakeItems, advance, takeExhausted,
      rebuild, suppress, Response.withAggregatedPriorDiagnostics_eq, clearSuppressed, onDrained, flushSuppressed,
      ofPages, held]
  refine ⟨_, _, drain_of_stream chargedPages rfl streamed, rfl, ?_, ?_⟩ <;> decide +kernel

end Window

end CosmosDriver.Dataflow
