import Mathlib
import AzureSdk.Core.PagerChain

/-!
# An item iterator over a chain of pages

Over a chain of pages, an `ItemIterator` is either fetching a page, its inner iterator in
one of the page phases and its continuation that of the page asked for, or draining the
items of page `j`, its continuation that of page `j` while the inner iterator has moved on.
One poll of the code may go round its loop several times, through pages without items; with
fuel for one round per page, and every `into_items` future ready when first polled, it yields
the next item, returns `Pending`, or returns `None` when no item is left.
-/

namespace AzureCore

open Outcome

set_option autoImplicit false

namespace PageIterator

section Phases

variable {P C ε : Type} {pages : List P} {token : Nat → C} {start : Nat} {log : List (PagerState C)}

def Phase.delivered {n : Nat} : Phase n → Nat
  | .ahead j => j
  | .waiting j _ => j
  | .finished => n

theorem Phase.delivered_next {n : Nat} (j : Fin n) : (Phase.next j).delivered = j + 1 := by
  unfold Phase.next
  split_ifs with next
  · rfl
  · simp only [Phase.delivered]
    omega

theorem Phase.continuation_iterator (phase : Phase pages.length) (active : phase ≠ .finished) :
    (phase.iterator (ε := ε) pages token start log).continuation = chainToken token phase.delivered := by
  cases phase with
  | ahead j => rfl
  | waiting j k => rfl
  | finished => exact (active rfl).elim

theorem Phase.delivered_lt {n : Nat} (phase : Phase n) (active : phase ≠ .finished) : phase.delivered < n := by
  cases phase with
  | ahead j => exact j.isLt
  | waiting j _ => exact j.isLt
  | finished => exact (active rfl).elim

theorem Phase.start_le_delivered (phase : Phase pages.length) (valid : Phase.Valid pages start phase)
    (active : phase ≠ .finished) : start ≤ phase.delivered := by
  cases phase with
  | ahead j => exact valid
  | waiting j _ => exact valid
  | finished => exact (active rfl).elim

theorem Phase.remaining_of_active (phase : Phase pages.length) (active : phase ≠ .finished) :
    phase.remaining (ε := ε) pages = (pages.drop phase.delivered).map fun page => some (.ok page) := by
  cases phase with
  | ahead j => rfl
  | waiting j _ => rfl
  | finished => exact (active rfl).elim

variable (delay : Nat → Nat) in
theorem Phase.poll_cases (phase : Phase pages.length) (active : phase ≠ .finished) :
    ∃ j : Fin pages.length, phase.delivered = j ∧
      ((∃ k, phase.poll (ε := ε) pages delay = (.waiting j k, .pending)) ∨
        phase.poll (ε := ε) pages delay = (Phase.next j, .ready (some (.ok (pages.get j))))) := by
  cases phase with
  | ahead j =>
      refine ⟨j, rfl, ?_⟩
      cases delayed : delay j with
      | zero => simp [Phase.poll, delayed]
      | succ k => simp [Phase.poll, delayed]
  | waiting j k =>
      refine ⟨j, rfl, ?_⟩
      cases k with
      | zero => simp [Phase.poll]
      | succ k => simp [Phase.poll]
  | finished => exact (active rfl).elim

end Phases

end PageIterator

namespace ItemIterator

open PageIterator

section Chain

variable {P C ε α : Type} (pages : List P) (token : Nat → C) (start : Nat) (log : List (PagerState C))

/-- Where an item iterator over the chain is: fetching a page, or draining page `page` with
`rest` of its items to go. -/
inductive ItemPhase (α : Type) (n : Nat) where
  | fetching (phase : Phase n)
  | draining (page : Fin n) (rest : List α)

def ItemPhase.inner {n : Nat} : ItemPhase α n → Phase n
  | .fetching phase => phase
  | .draining j _ => Phase.next j

def ItemPhase.iterator : ItemPhase α pages.length → ItemIterator P C ε α
  | .fetching phase =>
      ⟨phase.iterator pages token start log, (phase.iterator (ε := ε) pages token start log).continuation, none,
        phase.delivered - start⟩
  | .draining j rest => ⟨(Phase.next j).iterator pages token start log, chainToken token j, some rest, j + 1 - start⟩

def yielded (items : List α) : List (Option (Except ε α)) := items.map fun item => some (.ok item)

def itemsFrom (contents : P → List α) (j : Nat) : List (Option (Except ε α)) :=
  yielded ((pages.drop j).flatMap contents)

def ItemPhase.remaining (contents : P → List α) : ItemPhase α pages.length → List (Option (Except ε α))
  | .fetching phase => itemsFrom pages contents phase.delivered
  | .draining j rest => yielded rest ++ itemsFrom pages contents (j + 1)

/-- The polls a phase takes until the item iterator is done: one per item and those of the
inner iterator. -/
def ItemPhase.cost (contents : P → List α) (delay : Nat → Nat) (phase : ItemPhase α pages.length) : Nat :=
  (phase.remaining (ε := ε) pages contents).length + phase.inner.cost pages delay

/-- The phases of an item iterator started at page `start`: what is left of a page is the end
of its items. -/
def ItemPhase.Valid (contents : P → List α) : ItemPhase α pages.length → Prop
  | .fetching phase => Phase.Valid pages start phase
  | .draining j rest => start ≤ j ∧ rest <:+ contents (pages.get j)

def ItemPhase.pagesLeft {n : Nat} (phase : ItemPhase α n) : Nat := n - phase.inner.delivered

/-- What one poll does to the phases: at the end it returns `None` and is finished; before, it
yields the next item or nothing, and lowers the cost. -/
def ItemPhase.Advances (contents : P → List α) (delay : Nat → Nat) (phase next : ItemPhase α pages.length)
    (out : Poll (Option (Except ε α))) : Prop :=
  (out = .ready none ∧ next = .fetching .finished ∧ phase.remaining (ε := ε) pages contents = []) ∨
    (out ≠ .ready none ∧ next ≠ .fetching .finished ∧
      phase.remaining pages contents = out.emitted ++ next.remaining pages contents ∧
      next.cost (ε := ε) pages contents delay < phase.cost (ε := ε) pages contents delay)

end Chain

section Simulation

variable {P C ε α : Type} {pages : List P} {token : Nat → C} {start : Nat} {log : List (PagerState C)}
  {makeRequest : PagerFn P C ε} {intoItems : IntoItems P α ε}

theorem pollNext_draining_cons (fuel : Nat) (j : Fin pages.length) (item : α) (rest : List α) :
    pollNext makeRequest intoItems (fuel + 1) ((ItemPhase.draining j (item :: rest)).iterator pages token start log) =
      .ok ((ItemPhase.draining j rest).iterator pages token start log, .ready (some (.ok item))) := rfl

theorem pollNext_draining_nil (fuel : Nat) (j : Fin pages.length) :
    pollNext makeRequest intoItems (fuel + 1) ((ItemPhase.draining j []).iterator pages token start log) =
      pollNext makeRequest intoItems (fuel + 1) ((ItemPhase.fetching (Phase.next j)).iterator pages token start log) := by
  simp only [pollNext, ItemPhase.iterator, Phase.delivered_next]
  rfl

theorem pollNext_fetching_finished (fuel : Nat) :
    pollNext makeRequest intoItems (fuel + 1) ((ItemPhase.fetching .finished).iterator pages token start log) =
      .ok ((ItemPhase.fetching .finished).iterator pages token start log, .ready none) := rfl

theorem pollNext_fetching_pending (serves : Serves pages token makeRequest) (fuel : Nat) (phase : Phase pages.length)
    (valid : Phase.Valid pages start phase) (active : phase ≠ .finished) {j : Fin pages.length} {k : Nat}
    (atPage : phase.delivered = j)
    (polled : phase.poll (ε := ε) pages (chainDelay makeRequest token start log) = (.waiting j k, .pending)) :
    pollNext makeRequest intoItems (fuel + 1) ((ItemPhase.fetching phase).iterator pages token start log) =
      .ok ((ItemPhase.fetching (.waiting j k)).iterator pages token start log, .pending) := by
  have inner := @pollNext_iterator P C ε pages token makeRequest start log serves phase valid
  rw [polled] at inner
  simp only [pollNext, ItemPhase.iterator, inner]
  rw [Phase.continuation_iterator phase active, atPage]
  rfl

theorem pollNext_fetching_page {contents : P → List α} (serves : Serves pages token makeRequest)
    (converts : ∀ page ∈ pages, intoItems.items page = .ok (contents page)) (ready : ∀ n page, intoItems.delay n page = 0)
    (fuel : Nat) (phase : Phase pages.length) (valid : Phase.Valid pages start phase) (active : phase ≠ .finished)
    {j : Fin pages.length} (atPage : phase.delivered = j)
    (polled : phase.poll (ε := ε) pages (chainDelay makeRequest token start log) =
      (Phase.next j, .ready (some (.ok (pages.get j))))) :
    pollNext makeRequest intoItems (fuel + 1) ((ItemPhase.fetching phase).iterator pages token start log) =
      pollNext makeRequest intoItems fuel ((ItemPhase.draining j (contents (pages.get j))).iterator pages token start log) := by
  have inner := @pollNext_iterator P C ε pages token makeRequest start log serves phase valid
  rw [polled] at inner
  have within : start ≤ j := atPage ▸ phase.start_le_delivered valid active
  simp only [pollNext, ItemPhase.iterator, inner, ready, converts _ (List.get_mem pages j), if_true]
  rw [Phase.continuation_iterator phase active, atPage]
  congr 3
  omega

end Simulation

section Progress

variable {P C ε α : Type} {pages : List P} {contents : P → List α} {delay : Nat → Nat}

theorem remaining_fetching_finished :
    (ItemPhase.fetching (α := α) Phase.finished).remaining (ε := ε) pages contents = [] := by
  simp [ItemPhase.remaining, Phase.delivered, itemsFrom, yielded]

theorem itemsFrom_get (j : Fin pages.length) :
    itemsFrom (ε := ε) pages contents j = yielded (contents (pages.get j)) ++ itemsFrom pages contents (j + 1) := by
  simp only [itemsFrom, yielded, List.drop_eq_getElem_cons j.isLt, List.flatMap_cons, List.map_append, List.get_eq_getElem]

theorem ItemPhase.Advances.of_same {phase phase' next : ItemPhase α pages.length} {out : Poll (Option (Except ε α))}
    (same : phase.remaining (ε := ε) pages contents = phase'.remaining pages contents)
    (cheaper : phase'.cost (ε := ε) pages contents delay ≤ phase.cost (ε := ε) pages contents delay)
    (advances : phase'.Advances pages contents delay next out) : phase.Advances pages contents delay next out := by
  rcases advances with ⟨ends, finished, empty⟩ | ⟨active, unfinished, emits, lower⟩
  · exact .inl ⟨ends, finished, same.trans empty⟩
  · exact .inr ⟨active, unfinished, same.trans emits, lt_of_lt_of_le lower cheaper⟩

end Progress

section Spec

variable {P C ε α : Type} {pages : List P} {token : Nat → C} {start : Nat} {log : List (PagerState C)}
  {makeRequest : PagerFn P C ε} {intoItems : IntoItems P α ε} {contents : P → List α}

theorem pollNext_advances (serves : Serves pages token makeRequest)
    (converts : ∀ page ∈ pages, intoItems.items page = .ok (contents page)) (ready : ∀ n page, intoItems.delay n page = 0)
    (fuel : Nat) :
    ∀ phase : ItemPhase α pages.length, phase.Valid pages start contents → phase.pagesLeft < fuel →
      ∃ next out, pollNext makeRequest intoItems fuel (phase.iterator pages token start log) =
          .ok (next.iterator pages token start log, out) ∧
        next.Valid pages start contents ∧ phase.Advances pages contents (chainDelay makeRequest token start log) next out := by
  induction fuel with
  | zero =>
      intro phase _ left
      omega
  | succ fuel induction =>
      -- a drained page goes on as fetching the next, so the fetching phases come first
      have fetching : ∀ inner : Phase pages.length, Phase.Valid pages start inner →
          (ItemPhase.fetching (α := α) inner).pagesLeft < fuel + 1 →
          ∃ next out, pollNext makeRequest intoItems (fuel + 1) ((ItemPhase.fetching inner).iterator pages token start log) =
              .ok (next.iterator pages token start log, out) ∧
            next.Valid pages start contents ∧
            (ItemPhase.fetching inner).Advances pages contents (chainDelay makeRequest token start log) next out := by
        intro inner valid left
        by_cases finished : inner = .finished
        · subst finished
          exact ⟨.fetching .finished, .ready none, pollNext_fetching_finished fuel, trivial,
            .inl ⟨rfl, rfl, remaining_fetching_finished⟩⟩
        have progress := Phase.poll_progress (ε := ε) (chainDelay makeRequest token start log) inner finished
        have validPoll := Phase.valid_poll (ε := ε) (chainDelay makeRequest token start log) inner valid
        obtain ⟨j, atPage, waits | yields⟩ := Phase.poll_cases (ε := ε) (chainDelay makeRequest token start log) inner finished
        · obtain ⟨k, polled⟩ := waits
          rw [polled] at progress validPoll
          dsimp only at progress validPoll
          have same : (ItemPhase.fetching (α := α) inner).remaining (ε := ε) pages contents =
              (ItemPhase.fetching (.waiting j k)).remaining pages contents := by
            show itemsFrom pages contents inner.delivered = itemsFrom pages contents (j : Nat)
            rw [atPage]
          refine ⟨.fetching (.waiting j k), .pending, pollNext_fetching_pending serves fuel inner valid finished atPage polled,
            validPoll, .inr ⟨by simp, by simp, ?_, ?_⟩⟩
          · rw [same]
            rfl
          · simp only [ItemPhase.cost, ItemPhase.inner, same]
            omega
        · rw [yields] at progress validPoll
          dsimp only at progress validPoll
          have within : start ≤ j := atPage ▸ inner.start_le_delivered valid finished
          have fewer : (ItemPhase.draining (α := α) j (contents (pages.get j))).pagesLeft < fuel := by
            simp only [ItemPhase.pagesLeft, ItemPhase.inner, Phase.delivered_next]
            simp only [ItemPhase.pagesLeft, ItemPhase.inner, atPage] at left
            omega
          obtain ⟨next, out, ran, validNext, advances⟩ :=
            induction (.draining j (contents (pages.get j))) ⟨within, List.suffix_refl _⟩ fewer
          have same : (ItemPhase.fetching (α := α) inner).remaining (ε := ε) pages contents =
              (ItemPhase.draining j (contents (pages.get j))).remaining pages contents := by
            simp only [ItemPhase.remaining, atPage]
            exact itemsFrom_get j
          refine ⟨next, out, ?_, validNext, advances.of_same same ?_⟩
          · rw [pollNext_fetching_page serves converts ready fuel inner valid finished atPage yields, ran]
          · simp only [ItemPhase.cost, ItemPhase.inner, same]
            omega
      intro phase valid left
      cases phase with
      | fetching inner => exact fetching inner valid left
      | draining j rest =>
          cases rest with
          | cons item rest =>
              have validRest : (ItemPhase.draining j rest).Valid pages start contents :=
                ⟨valid.1, (List.suffix_cons item rest).trans valid.2⟩
              refine ⟨.draining j rest, .ready (some (.ok item)), pollNext_draining_cons fuel j item rest, validRest,
                .inr ⟨by simp, by simp, ?_, ?_⟩⟩
              · simp [ItemPhase.remaining, yielded, Poll.emitted]
              · simp [ItemPhase.cost, ItemPhase.remaining, ItemPhase.inner, yielded]
          | nil =>
              obtain ⟨next, out, ran, validNext, advances⟩ := fetching (Phase.next j) (Phase.valid_next valid.1) left
              have same : (ItemPhase.draining (α := α) j []).remaining (ε := ε) pages contents =
                  (ItemPhase.fetching (Phase.next j)).remaining pages contents := by
                simp [ItemPhase.remaining, Phase.delivered_next, yielded]
              refine ⟨next, out, ?_, validNext, advances.of_same same ?_⟩
              · rw [pollNext_draining_nil, ran]
              · simp only [ItemPhase.cost, ItemPhase.inner, same, le_refl]

end Spec

section Runs

variable {P C ε α : Type} {pages : List P} {token : Nat → C} {start : Nat} {log : List (PagerState C)}
  {makeRequest : PagerFn P C ε} {intoItems : IntoItems P α ε} {contents : P → List α}

theorem pollMany_succ {fuel : Nat} {it next : ItemIterator P C ε α} {polled : Poll (Option (Except ε α))} (k : Nat)
    (ran : it.pollNext makeRequest intoItems fuel = .ok (next, polled)) :
    it.pollMany makeRequest intoItems fuel (k + 1) =
      (fun (last, items) => (last, polled.emitted ++ items)) <$> next.pollMany makeRequest intoItems fuel k := by
  cases polled with
  | ready item => simp [pollMany, ran, Poll.emitted]
  | pending =>
      simp only [pollMany, ran, Poll.emitted, List.nil_append]
      cases next.pollMany makeRequest intoItems fuel k <;> rfl

theorem pollMany_fetching_finished (fuel m : Nat) :
    ((ItemPhase.fetching (α := α) .finished).iterator pages token start log).pollMany makeRequest intoItems (fuel + 1) m =
      .ok ((ItemPhase.fetching .finished).iterator pages token start log, List.replicate m none) := by
  induction m with
  | zero => rfl
  | succ m induction =>
      rw [pollMany_succ m (pollNext_fetching_finished fuel), induction]
      rfl

theorem none_not_mem_emitted {β : Type} {out : Poll (Option β)} (proceeds : out ≠ .ready none) : none ∉ out.emitted := by
  cases out with
  | ready value =>
      simp only [Poll.emitted, List.mem_singleton]
      exact fun is => proceeds (is ▸ rfl)
  | pending => simp [Poll.emitted]

theorem pollMany_itemPhase (serves : Serves pages token makeRequest)
    (converts : ∀ page ∈ pages, intoItems.items page = .ok (contents page)) (ready : ∀ n page, intoItems.delay n page = 0)
    {fuel : Nat} (enough : pages.length < fuel) (phase : ItemPhase α pages.length)
    (valid : phase.Valid pages start contents) (active : phase ≠ .fetching .finished) :
    ∃ polls, ∀ k, ∃ last : ItemPhase α pages.length, ∃ outs, last.Valid pages start contents ∧
      (phase.iterator pages token start log).pollMany makeRequest intoItems fuel k =
        .ok (last.iterator pages token start log, outs) ∧
      (k ≤ polls → last ≠ ItemPhase.fetching .finished ∧ none ∉ outs ∧
        outs ++ last.remaining pages contents = phase.remaining pages contents) ∧
      (polls ≤ k → outs = phase.remaining pages contents ++ List.replicate (k - polls) none) := by
  -- on the cost, which every poll before the end lowers
  induction spent : phase.cost (ε := ε) pages contents (chainDelay makeRequest token start log)
    using Nat.strong_induction_on generalizing phase with
  | _ cost induction =>
  have left : phase.pagesLeft < fuel := lt_of_le_of_lt (Nat.sub_le _ _) enough
  obtain ⟨next, out, ran, validNext, advances⟩ :=
    @pollNext_advances P C ε α pages token start log makeRequest intoItems contents serves converts ready fuel phase valid left
  rcases advances with ⟨ends, finished, empty⟩ | ⟨proceeds, unfinished, emits, lower⟩
  · -- this poll returns `None`, and so does every later one
    subst ends finished
    obtain ⟨fuel, rfl⟩ : ∃ f, fuel = f + 1 := ⟨fuel - 1, by omega⟩
    refine ⟨0, fun k => ?_⟩
    cases k with
    | zero => exact ⟨phase, [], valid, rfl, fun _ => ⟨active, List.not_mem_nil, by simp [empty]⟩, fun _ => by simp [empty]⟩
    | succ k =>
        refine ⟨ItemPhase.fetching .finished, none :: List.replicate k none, trivial, ?_, fun le => absurd le (by omega), ?_⟩
        · rw [pollMany_succ k ran, pollMany_fetching_finished]
          rfl
        · simp [empty, List.replicate_succ]
  · obtain ⟨polls, runs⟩ := induction _ (spent ▸ lower) next validNext unfinished rfl
    refine ⟨polls + 1, fun k => ?_⟩
    cases k with
    | zero => exact ⟨phase, [], valid, rfl, fun _ => ⟨active, List.not_mem_nil, rfl⟩, fun le => absurd le (by omega)⟩
    | succ k =>
        obtain ⟨last, outs, validLast, ranRest, before, after⟩ := runs k
        refine ⟨last, out.emitted ++ outs, validLast, ?_, ?_, ?_⟩
        · rw [pollMany_succ k ran, ranRest]
          rfl
        · intro le
          obtain ⟨unfinishedLast, fresh, yieldedLast⟩ := before (by omega)
          refine ⟨unfinishedLast, ?_, ?_⟩
          · rw [List.mem_append, not_or]
            exact ⟨none_not_mem_emitted proceeds, fresh⟩
          · rw [List.append_assoc, yieldedLast, emits]
        · intro le
          rw [after (by omega), emits, List.append_assoc, Nat.add_sub_add_right]

end Runs

section Yields

variable {P C ε α : Type}

/-- The item iterator yields `items` and then `None` at every later poll: what it has yielded
is always a beginning of that, and after enough polls all of it. -/
def Yields (makeRequest : PagerFn P C ε) (intoItems : IntoItems P α ε) (fuel : Nat) (it : ItemIterator P C ε α)
    (items : List (Option (Except ε α))) : Prop :=
  ∃ polls, ∀ k, ∃ last outs, it.pollMany makeRequest intoItems fuel k = .ok (last, outs) ∧
    outs <+: items ++ List.replicate k none ∧ (polls ≤ k → outs = items ++ List.replicate (k - polls) none)

variable {pages : List P} {token : Nat → C} {start : Nat} {log : List (PagerState C)}
  {makeRequest : PagerFn P C ε} {intoItems : IntoItems P α ε} {contents : P → List α}

theorem ItemPhase.yields (serves : Serves pages token makeRequest)
    (converts : ∀ page ∈ pages, intoItems.items page = .ok (contents page)) (ready : ∀ n page, intoItems.delay n page = 0)
    {fuel : Nat} (enough : pages.length < fuel) (phase : ItemPhase α pages.length)
    (valid : phase.Valid pages start contents) (active : phase ≠ .fetching .finished) :
    Yields makeRequest intoItems fuel (phase.iterator pages token start log) (phase.remaining pages contents) := by
  obtain ⟨polls, runs⟩ :=
    @pollMany_itemPhase P C ε α pages token start log makeRequest intoItems contents serves converts ready _ enough phase
      valid active
  refine ⟨polls, fun k => ?_⟩
  obtain ⟨last, outs, _, ran, before, after⟩ := runs k
  refine ⟨_, outs, ran, ?_, after⟩
  by_cases early : k ≤ polls
  · obtain ⟨_, _, yieldedLast⟩ := before early
    exact ⟨last.remaining pages contents ++ List.replicate k none, by rw [← List.append_assoc, yieldedLast]⟩
  · refine ⟨List.replicate polls none, ?_⟩
    rw [after (by omega), List.append_assoc, ← List.replicate_add, Nat.sub_add_cancel (by omega)]

theorem new_chainToken_items (within : start < pages.length) :
    new (chainToken token start) =
      (ItemPhase.fetching (.ahead ⟨start, within⟩)).iterator (ε := ε) (α := α) pages token start [] := by
  simp only [ItemIterator.new, ItemPhase.iterator, ← PageIterator.new_chainToken within]
  simp [Phase.delivered, PageIterator.new]

theorem yields_new (serves : Serves pages token makeRequest)
    (converts : ∀ page ∈ pages, intoItems.items page = .ok (contents page)) (ready : ∀ n page, intoItems.delay n page = 0)
    {fuel : Nat} (enough : pages.length < fuel) (j : Fin pages.length) :
    Yields makeRequest intoItems fuel (new (chainToken token j)) (itemsFrom pages contents j) := by
  rw [new_chainToken_items j.isLt]
  exact ItemPhase.yields serves converts ready enough (.fetching (.ahead ⟨j, j.isLt⟩)) (le_refl _) (by simp)

end Yields

end ItemIterator

namespace PageIterator

section Yields

variable {P C ε : Type} {pages : List P} {token : Nat → C} {makeRequest : PagerFn P C ε}

/-- The page iterator yields `pages` and then `None` at every later poll. -/
def Yields (makeRequest : PagerFn P C ε) (it : PageIterator P C ε) (pages : List (Option (Except ε P))) : Prop :=
  ∃ polls, ∀ k, ∃ last outs, it.pollMany makeRequest k = .ok (last, outs) ∧
    outs <+: pages ++ List.replicate k none ∧ (polls ≤ k → outs = pages ++ List.replicate (k - polls) none)

theorem Phase.yields_ahead (serves : Serves pages token makeRequest) (j : Fin pages.length) (log : List (PagerState C)) :
    Yields makeRequest ((Phase.ahead j).iterator pages token j log) ((pages.drop j).map fun page => some (.ok page)) := by
  obtain ⟨polls, runs⟩ := @Phase.yields_chain P C ε pages token makeRequest j log serves j.isLt
  refine ⟨polls, fun k => ?_⟩
  obtain ⟨it, outs, ran, _, prefixed, after⟩ := runs k
  exact ⟨it, outs, ran, prefixed, fun le => (after le).2⟩

theorem Phase.resumes (serves : Serves pages token makeRequest) {start : Nat} {log : List (PagerState C)}
    (phase : Phase pages.length) (valid : Phase.Valid pages start phase) (outs : List (Option (Except ε P)))
    (yieldedBefore : outs ++ phase.remaining pages = (pages.drop start).map fun page => some (.ok page))
    (short : outs.length < pages.length - start) :
    Yields makeRequest (new (phase.iterator (ε := ε) pages token start log).continuation)
      ((pages.drop (start + outs.length)).map fun page => some (.ok page)) := by
  have active : phase ≠ .finished := by
    rintro rfl
    have lengths := congrArg List.length yieldedBefore
    simp only [Phase.remaining, List.append_nil, List.length_map, List.length_drop] at lengths
    omega
  have resumed : start + outs.length = phase.delivered := by
    have lengths := congrArg List.length yieldedBefore
    rw [Phase.remaining_of_active phase active] at lengths
    simp only [List.length_append, List.length_map, List.length_drop] at lengths
    have := phase.delivered_lt active
    have := phase.start_le_delivered valid active
    omega
  rw [Phase.continuation_iterator phase active, resumed,
    new_chainToken (phase.delivered_lt active)]
  exact Phase.yields_ahead serves ⟨phase.delivered, phase.delivered_lt active⟩ []

end Yields

end PageIterator

namespace ItemIterator

open PageIterator

section Resume

variable {P C ε α : Type} {pages : List P} {token : Nat → C} {start : Nat} {log : List (PagerState C)}
  {makeRequest : PagerFn P C ε} {intoItems : IntoItems P α ε} {contents : P → List α}

theorem itemsFrom_append {i j : Nat} (le : i ≤ j) :
    ∃ before, itemsFrom (ε := ε) pages contents i = before ++ itemsFrom pages contents j := by
  refine ⟨yielded (((pages.drop i).take (j - i)).flatMap contents), ?_⟩
  have split : pages.drop i = (pages.drop i).take (j - i) ++ pages.drop j := by
    conv_lhs => rw [← List.take_append_drop (j - i) (pages.drop i)]
    rw [List.drop_drop, Nat.add_sub_cancel' le]
  simp only [itemsFrom, yielded]
  conv_lhs => rw [split]
  rw [List.flatMap_append, List.map_append]

theorem intoPages_of_continuation (it : ItemIterator P C ε α) (j : Fin pages.length)
    (resumed : it.continuation = chainToken token j) :
    it.intoPages = (Phase.ahead j).iterator pages token j it.iter.requests := by
  by_cases first : (j : Nat) = 0
  · simp [intoPages, Phase.iterator, resumed, chainToken, chainRequests, first]
  · simp [intoPages, Phase.iterator, resumed, chainToken, chainRequests, first]

theorem ItemPhase.resumes (serves : Serves pages token makeRequest)
    (converts : ∀ page ∈ pages, intoItems.items page = .ok (contents page)) (ready : ∀ n page, intoItems.delay n page = 0)
    {fuel : Nat} (enough : pages.length < fuel) (phase : ItemPhase α pages.length)
    (valid : phase.Valid pages start contents) (active : phase ≠ .fetching .finished) (outs : List (Option (Except ε α)))
    (yieldedBefore : outs ++ phase.remaining pages contents = itemsFrom pages contents start) :
    ∃ j : Fin pages.length, (phase.iterator (ε := ε) pages token start log).continuation = chainToken token j ∧
      (∃ done, done <+: yielded (contents (pages.get j)) ∧ done <:+ outs ∧
        Yields makeRequest intoItems fuel (new (chainToken token j)) (done ++ phase.remaining pages contents)) ∧
      PageIterator.Yields makeRequest (phase.iterator pages token start log).intoPages
        ((pages.drop j).map fun page => some (.ok page)) := by
  cases phase with
  | fetching inner =>
      -- the page asked for is the current one, and none of its items has been yielded
      have unfinished : inner ≠ .finished := fun finished => active (finished ▸ rfl)
      let j : Fin pages.length := ⟨inner.delivered, inner.delivered_lt unfinished⟩
      have resumed : ((ItemPhase.fetching (α := α) inner).iterator (ε := ε) pages token start log).continuation =
          chainToken token j :=
        Phase.continuation_iterator inner unfinished
      refine ⟨j, resumed, ⟨[], List.nil_prefix, List.nil_suffix, ?_⟩, ?_⟩
      · exact yields_new serves converts ready enough j
      · rw [intoPages_of_continuation _ j resumed]
        exact Phase.yields_ahead serves j _
  | draining j rest =>
      obtain ⟨pre, split⟩ := valid.2
      obtain ⟨before, earlier⟩ : ∃ before, itemsFrom (ε := ε) pages contents start = before ++ itemsFrom pages contents j :=
        itemsFrom_append valid.1
      have whole : yielded pre ++ ItemPhase.remaining pages contents (.draining j rest) =
          itemsFrom (ε := ε) pages contents j := by
        rw [itemsFrom_get j, ← split]
        simp [ItemPhase.remaining, yielded]
      have drained : outs = before ++ yielded pre := by
        have both : outs ++ ItemPhase.remaining pages contents (.draining j rest) =
            (before ++ yielded pre) ++ ItemPhase.remaining pages contents (.draining j rest) := by
          rw [yieldedBefore, earlier, ← whole, List.append_assoc]
        exact List.append_cancel_right both
      refine ⟨j, rfl, ⟨yielded pre, ⟨yielded rest, by rw [← split]; simp [yielded]⟩, ⟨before, drained.symm⟩, ?_⟩, ?_⟩
      · rw [whole]
        exact yields_new serves converts ready enough j
      · rw [intoPages_of_continuation _ j rfl]
        exact Phase.yields_ahead serves j _

end Resume

/-- With every `into_items` future ready when first polled, an item iterator started at page
`start` yields the items of the pages from `start` on, in order, and then `None`. -/
theorem itemIterator_yields_items {P C ε α : Type} (makeRequest : PagerFn P C ε) (intoItems : IntoItems P α ε)
    (pages : List P) (token : Nat → C) (contents : P → List α) (serves : Serves pages token makeRequest)
    (converts : ∀ page ∈ pages, intoItems.items page = .ok (contents page)) (ready : ∀ n page, intoItems.delay n page = 0)
    (start : Nat) (within : start < pages.length) (fuel : Nat) (enough : pages.length < fuel) :
    Yields makeRequest intoItems fuel (new (chainToken token start)) (yielded ((pages.drop start).flatMap contents)) :=
  yields_new serves converts ready enough ⟨start, within⟩

/-- Two pages whose callback futures are pending once each. -/
theorem itemIterator_yields_two_pages :
    let makeRequest : PagerFn (List Nat) Nat Unit :=
      ⟨fun | .initial => .ok (.more [1, 2] 1) | .more _ => .ok (.done [3]), fun _ _ => 1⟩
    let intoItems : IntoItems (List Nat) Nat Unit := ⟨.ok, fun _ _ => 0⟩
    Serves [[1, 2], [3]] id makeRequest ∧ (∀ page ∈ [[1, 2], [3]], intoItems.items page = .ok (id page)) ∧
      (∀ n page, intoItems.delay n page = 0) ∧ 0 < [[1, 2], [3]].length ∧ [[1, 2], [3]].length < 3 ∧
      Yields makeRequest intoItems 3 (new (chainToken id 0)) (yielded (([[1, 2], [3]].drop 0).flatMap id)) := by
  intro makeRequest intoItems
  have serves : Serves [[1, 2], [3]] id makeRequest := by
    intro j within
    have bound : j < 2 := within
    interval_cases j <;> rfl
  have converts : ∀ page ∈ [[1, 2], [3]], intoItems.items page = .ok (id page) := fun _ _ => rfl
  have ready : ∀ n page, intoItems.delay n page = 0 := fun _ _ => rfl
  exact ⟨serves, converts, ready, by decide, by decide,
    itemIterator_yields_items makeRequest intoItems [[1, 2], [3]] id id serves converts ready 0 (by decide) 3 (by decide)⟩

theorem itemIterator_resumes_from_continuation {P C ε α : Type} (makeRequest : PagerFn P C ε)
    (intoItems : IntoItems P α ε) (pages : List P) (token : Nat → C) (contents : P → List α)
    (serves : Serves pages token makeRequest) (converts : ∀ page ∈ pages, intoItems.items page = .ok (contents page))
    (ready : ∀ n page, intoItems.delay n page = 0) (start : Nat) (within : start < pages.length) (fuel : Nat)
    (enough : pages.length < fuel) :
    (∀ k, ∃ it outs, (new (chainToken token start)).pollMany makeRequest intoItems fuel k = .ok (it, outs) ∧
      (none ∉ outs → ∃ j : Fin pages.length, it.continuation = chainToken token j ∧
        (∃ done rest, done <+: yielded (contents (pages.get j)) ∧ done <:+ outs ∧
          outs ++ rest = itemsFrom pages contents start ∧
          Yields makeRequest intoItems fuel (new it.continuation) (done ++ rest)) ∧
        PageIterator.Yields makeRequest it.intoPages ((pages.drop j).map fun page => some (.ok page)))) ∧
    (∀ k, ∃ it outs, (PageIterator.new (chainToken token start)).pollMany makeRequest k = .ok (it, outs) ∧
      (outs.length < pages.length - start →
        PageIterator.Yields makeRequest (PageIterator.new it.continuation)
          ((pages.drop (start + outs.length)).map fun page => some (.ok page)))) := by
  let first : ItemPhase α pages.length := .fetching (.ahead ⟨start, within⟩)
  have valid : first.Valid pages start contents := le_refl start
  refine ⟨fun k => ?_, fun k => ?_⟩
  · -- the item iterator: before its `None`, it is at a phase before the end
    obtain ⟨polls, runs⟩ :=
      @pollMany_itemPhase P C ε α pages token start [] makeRequest intoItems contents serves converts ready _ enough first
        valid (by simp [first])
    obtain ⟨last, outs, validLast, ran, before, after⟩ := runs k
    rw [new_chainToken_items within]
    refine ⟨_, outs, ran, fun fresh => ?_⟩
    have early : k ≤ polls := by
      by_contra late
      apply fresh
      rw [after (by omega)]
      exact List.mem_append_right _ (List.mem_replicate.mpr ⟨by omega, rfl⟩)
    obtain ⟨unfinished, _, yieldedBefore⟩ := before early
    obtain ⟨j, resumed, ⟨done, current, again, yieldsFresh⟩, pagesFrom⟩ :=
      ItemPhase.resumes serves converts ready enough last validLast unfinished outs yieldedBefore
    refine ⟨j, resumed, ⟨done, last.remaining pages contents, current, again, yieldedBefore, ?_⟩, pagesFrom⟩
    rw [resumed]
    exact yieldsFresh
  · -- the page iterator: before its last page, it is at a phase before the end
    let ahead : Phase pages.length := .ahead ⟨start, within⟩
    have validAhead : Phase.Valid pages start ahead := le_refl start
    rw [PageIterator.new_chainToken within]
    by_cases early : k ≤ ahead.cost pages (chainDelay makeRequest token start [])
    · obtain ⟨last, outs, validLast, ran, yieldedBefore, _⟩ := PageIterator.pollMany_iterator serves k ahead validAhead early
      exact ⟨_, outs, ran, PageIterator.Phase.resumes serves last validLast outs yieldedBefore⟩
    · refine ⟨_, _, PageIterator.Phase.pollMany_past_cost serves ahead validAhead (by omega), fun short => ?_⟩
      simp only [ahead, PageIterator.Phase.remaining, List.length_append, List.length_replicate, List.length_map,
        List.length_drop] at short
      omega

/-- The chain of two pages, polled four times and resumed. -/
theorem itemIterator_resumes_two_pages :
    let makeRequest : PagerFn (List Nat) Nat Unit :=
      ⟨fun | .initial => .ok (.more [1, 2] 1) | .more _ => .ok (.done [3]), fun _ _ => 1⟩
    let intoItems : IntoItems (List Nat) Nat Unit := ⟨.ok, fun _ _ => 0⟩
    Serves [[1, 2], [3]] id makeRequest ∧ (∀ page ∈ [[1, 2], [3]], intoItems.items page = .ok (id page)) ∧
      (∀ n page, intoItems.delay n page = 0) ∧ 0 < [[1, 2], [3]].length ∧ [[1, 2], [3]].length < 3 ∧
      (∀ k, ∃ it outs, (new (chainToken id 0)).pollMany makeRequest intoItems 3 k = .ok (it, outs) ∧
        (none ∉ outs → ∃ j : Fin [[1, 2], [3]].length, it.continuation = chainToken id j ∧
          (∃ done rest, done <+: yielded (id ([[1, 2], [3]].get j)) ∧ done <:+ outs ∧
            outs ++ rest = itemsFrom [[1, 2], [3]] id 0 ∧
            Yields makeRequest intoItems 3 (new it.continuation) (done ++ rest)) ∧
          PageIterator.Yields makeRequest it.intoPages (([[1, 2], [3]].drop j).map fun page => some (.ok page)))) ∧
      (∀ k, ∃ it outs, (PageIterator.new (chainToken id 0)).pollMany makeRequest k = .ok (it, outs) ∧
        (outs.length < [[1, 2], [3]].length - 0 →
          PageIterator.Yields makeRequest (PageIterator.new it.continuation)
            (([[1, 2], [3]].drop (0 + outs.length)).map fun page => some (.ok page)))) := by
  intro makeRequest intoItems
  have serves : Serves [[1, 2], [3]] id makeRequest := by
    intro j within
    have bound : j < 2 := within
    interval_cases j <;> rfl
  have converts : ∀ page ∈ [[1, 2], [3]], intoItems.items page = .ok (id page) := fun _ _ => rfl
  have ready : ∀ n page, intoItems.delay n page = 0 := fun _ _ => rfl
  exact ⟨serves, converts, ready, by decide, by decide,
    itemIterator_resumes_from_continuation makeRequest intoItems [[1, 2], [3]] id id serves converts ready 0 (by decide) 3
      (by decide)⟩

/-- Once the item iterator has returned `None` its continuation is `None`, and `into_pages`,
like a fresh iterator, starts again at the first page. -/
theorem intoPages_restarts_after_none :
    let makeRequest : PagerFn (List Nat) Nat Unit := ⟨fun _ => .ok (.done [7]), fun _ _ => 0⟩
    let intoItems : IntoItems (List Nat) Nat Unit := ⟨.ok, fun _ _ => 0⟩
    ∃ it, (new (chainToken id 0)).pollMany makeRequest intoItems 2 2 = .ok (it, [some (.ok 7), none]) ∧
      it.continuation = none ∧
      (∃ pagesIt, it.intoPages.pollMany makeRequest 1 = .ok (pagesIt, [some (.ok [7])])) ∧
      ∃ fresh, (new it.continuation).pollMany makeRequest intoItems 2 1 = .ok (fresh, [some (.ok 7)]) :=
  ⟨_, rfl, rfl, ⟨_, rfl⟩, ⟨_, rfl⟩⟩

/-- The failing input: the first page's `into_items` future is pending once; its item is
never yielded, however many polls follow. -/
theorem itemIterator_drops_page_on_pending_items :
    let makeRequest : PagerFn (List Nat) Nat Unit :=
      ⟨fun | .initial => .ok (.more [0] 1) | .more _ => .ok (.done [1]), fun _ _ => 0⟩
    let intoItems : IntoItems (List Nat) Nat Unit := ⟨.ok, fun n _ => if n = 0 then 1 else 0⟩
    Serves [[0], [1]] id makeRequest ∧
      ∀ m, ∃ it, (new (chainToken id 0)).pollMany makeRequest intoItems 3 (m + 3) =
        .ok (it, some (.ok 1) :: List.replicate (m + 1) none) := by
  intro makeRequest intoItems
  have serves : Serves [[0], [1]] id makeRequest := by
    intro j within
    have bound : j < 2 := within
    interval_cases j <;> rfl
  refine ⟨serves, fun m => ?_⟩
  -- the three polls: `Pending` with the first page dropped, the second page's item, `None`
  have first : (new (chainToken id 0)).pollNext makeRequest intoItems 3 =
      .ok (⟨⟨some 1, .more, [.initial]⟩, none, none, 1⟩, .pending) := rfl
  have second : (⟨⟨some 1, .more, [.initial]⟩, none, none, 1⟩ : ItemIterator (List Nat) Nat Unit Nat).pollNext
      makeRequest intoItems 3 = .ok (⟨⟨none, .done, [.initial, .more 1]⟩, some 1, some [], 2⟩, .ready (some (.ok 1))) := rfl
  have third : (⟨⟨none, .done, [.initial, .more 1]⟩, some 1, some [], 2⟩ : ItemIterator (List Nat) Nat Unit Nat).pollNext
      makeRequest intoItems 3 = .ok ((ItemPhase.fetching .finished).iterator [[0], [1]] id 0 [], .ready none) := rfl
  refine ⟨(ItemPhase.fetching .finished).iterator [[0], [1]] id 0 [], ?_⟩
  rw [pollMany_succ _ first, pollMany_succ _ second, pollMany_succ _ third, pollMany_fetching_finished 2 m]
  rfl

end ItemIterator

end AzureCore
