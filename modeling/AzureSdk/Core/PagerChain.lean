import Mathlib
import AzureSdk.Core.Pager

/-!
# A page iterator over a chain of pages

The service is a chain of pages: the callback answers the first request with the first page
and the continuation of the second, the request with the continuation of page `j` with page
`j` and the continuation of the next, and the last page with `Done`. Over such a service the
iterator is in one of three phases: about to ask for page `j`, waiting for it, or done; each
poll of the code is a step of the phases, whatever the futures' delays.
-/

namespace AzureCore

open Outcome

set_option autoImplicit false


namespace PageIterator

section Chain

variable {P C ε : Type} (pages : List P) (token : Nat → C)

/-- The continuation page `j` of the chain is asked for with; the first page is asked for
without one. -/
def chainToken (j : Nat) : Option C := if j = 0 then none else some (token j)

def chainRequest (j : Nat) : PagerState C := if j = 0 then .initial else .more (token j)

def chainResult (j : Nat) (page : P) : PagerResult P C :=
  if j + 1 < pages.length then .more page (token (j + 1)) else .done page

def Serves (makeRequest : PagerFn P C ε) : Prop :=
  ∀ j (within : j < pages.length), makeRequest.respond (chainRequest token j) = .ok (chainResult pages token j pages[j])

def chainRequests (start stop : Nat) : List (PagerState C) := (List.range' start (stop - start)).map (chainRequest token)

inductive Phase (n : Nat) where
  | ahead (page : Fin n)
  | waiting (page : Fin n) (remaining : Nat)
  | finished

variable (start : Nat) (log : List (PagerState C))

def Phase.iterator : Phase pages.length → PageIterator P C ε
  | .ahead j => ⟨chainToken token j, if (j : Nat) = 0 then .init else .more, log ++ chainRequests token start j⟩
  | .waiting j k =>
      ⟨chainToken token j, .pending ⟨k, .ok (chainResult pages token j pages[(j : Nat)])⟩,
        log ++ chainRequests token start (j + 1)⟩
  | .finished => ⟨none, .done, log ++ chainRequests token start pages.length⟩

def Phase.next {n : Nat} (j : Fin n) : Phase n :=
  if next : (j : Nat) + 1 < n then .ahead ⟨j + 1, next⟩ else .finished

/-- A poll of the iterator in each phase, when the future for page `j` is pending `delay j`
times. -/
def Phase.poll (delay : Nat → Nat) : Phase pages.length → Phase pages.length × Poll (Option (Except ε P))
  | .ahead j =>
      match delay j with
      | 0 => (Phase.next j, .ready (some (.ok pages[(j : Nat)])))
      | k + 1 => (.waiting j k, .pending)
  | .waiting j 0 => (Phase.next j, .ready (some (.ok pages[(j : Nat)])))
  | .waiting j (k + 1) => (.waiting j k, .pending)
  | .finished => (.finished, .ready none)

def Phase.Valid : Phase pages.length → Prop
  | .ahead j => start ≤ j
  | .waiting j _ => start ≤ j
  | .finished => True

end Chain

end PageIterator

namespace PageIterator

section Simulation

variable {P C ε : Type} {pages : List P} {token : Nat → C} {makeRequest : PagerFn P C ε} {start : Nat}
  {log : List (PagerState C)}

/-- How many times the callback's future for page `j` is pending, in an iterator started at
page `start` after the calls `log`: page `j` is the callback's call after those and `j - start`
more. -/
def chainDelay (makeRequest : PagerFn P C ε) (token : Nat → C) (start : Nat) (log : List (PagerState C)) (j : Nat) :
    Nat :=
  makeRequest.delay (log.length + (j - start)) (chainRequest token j)

theorem length_chainRequests (stop : Nat) : (chainRequests token start stop).length = stop - start := by
  simp [chainRequests]

theorem chainRequests_succ {j : Nat} (le : start ≤ j) :
    chainRequests token start (j + 1) = chainRequests token start j ++ [chainRequest token j] := by
  unfold chainRequests
  rw [show j + 1 - start = j - start + 1 by omega, List.range'_concat, List.map_append]
  congr
  simp only [List.map_cons, List.map_nil, Nat.one_mul]
  congr
  omega

theorem settle_chainResult (it : PageIterator P C ε) (j : Fin pages.length)
    (requested : it.requests = log ++ chainRequests token start (j + 1)) :
    it.settle (.ok (chainResult pages token j pages[(j : Nat)])) =
      ((Phase.next j).iterator pages token start log, some (.ok pages[(j : Nat)])) := by
  unfold chainResult Phase.next
  split_ifs with next
  · simp [settle, Phase.iterator, chainToken, requested]
  · have last : (j : Nat) + 1 = pages.length := by omega
    simp [settle, Phase.iterator, requested, last]

theorem pollNext_ahead (j : Fin pages.length) :
    ((Phase.ahead j).iterator pages token start log).pollNext makeRequest =
      .ok (((Phase.ahead j).iterator pages token start log).request makeRequest (chainRequest token j)) := by
  by_cases first : (j : Nat) = 0
  · simp [pollNext, Phase.iterator, chainRequest, first]
  · simp [pollNext, Phase.iterator, chainRequest, chainToken, first]

theorem pollNext_iterator (serves : Serves pages token makeRequest) (phase : Phase pages.length)
    (valid : Phase.Valid pages start phase) :
    (phase.iterator pages token start log).pollNext makeRequest =
      .ok ((Phase.poll (ε := ε) pages (chainDelay makeRequest token start log) phase).1.iterator pages token start log,
        (Phase.poll pages (chainDelay makeRequest token start log) phase).2) := by
  cases phase with
  | ahead j =>
      have within : start ≤ j := valid
      rw [pollNext_ahead]
      simp only [request, Phase.iterator, List.length_append, length_chainRequests, serves j j.isLt]
      rw [List.append_assoc, ← chainRequests_succ within]
      cases delayed : chainDelay makeRequest token start log j with
      | zero =>
          simp only [chainDelay] at delayed
          simp only [pollFuture, Phase.poll, chainDelay, delayed]
          rw [settle_chainResult _ j rfl]
          rfl
      | succ k =>
          simp only [chainDelay] at delayed
          simp only [pollFuture, Phase.poll, chainDelay, delayed]
  | waiting j k =>
      cases k with
      | zero =>
          simp only [pollNext, Phase.iterator, pollFuture, Phase.poll]
          rw [settle_chainResult _ j rfl]
          rfl
      | succ k => simp [pollNext, Phase.iterator, pollFuture, Phase.poll]
  | finished => simp [pollNext, Phase.iterator, Phase.poll]

end Simulation

end PageIterator

namespace PageIterator

section Progress

variable {P C ε : Type} (pages : List P) (delay : Nat → Nat)

def Phase.remaining : Phase pages.length → List (Option (Except ε P))
  | .ahead j => (pages.drop j).map fun page => some (.ok page)
  | .waiting j _ => (pages.drop j).map fun page => some (.ok page)
  | .finished => []

def costFrom (j : Nat) : Nat := ((List.range' j (pages.length - j)).map (delay · + 1)).sum

def Phase.cost : Phase pages.length → Nat
  | .ahead j => costFrom pages delay j
  | .waiting j k => k + 1 + costFrom pages delay (j + 1)
  | .finished => 0

variable {pages delay}

theorem costFrom_of_lt {j : Nat} (within : j < pages.length) :
    costFrom pages delay j = delay j + 1 + costFrom pages delay (j + 1) := by
  unfold costFrom
  rw [show pages.length - j = pages.length - (j + 1) + 1 by omega, List.range'_succ]
  simp

theorem costFrom_length : costFrom pages delay pages.length = 0 := by
  simp [costFrom]

theorem remaining_next (j : Fin pages.length) :
    (Phase.next j).remaining (ε := ε) pages = (pages.drop (j + 1)).map fun page => some (.ok page) := by
  unfold Phase.next
  split_ifs with next
  · rfl
  · have last : (j : Nat) + 1 = pages.length := by omega
    simp [Phase.remaining, last]

theorem cost_next (j : Fin pages.length) : (Phase.next j).cost pages delay = costFrom pages delay (j + 1) := by
  unfold Phase.next
  split_ifs with next
  · rfl
  · have last : (j : Nat) + 1 = pages.length := by omega
    simp [Phase.cost, last, costFrom_length]

theorem remaining_of_page (j : Fin pages.length) :
    ((pages.drop j).map fun page => (some (.ok page) : Option (Except ε P))) =
      some (.ok pages[(j : Nat)]) :: (pages.drop (j + 1)).map fun page => some (.ok page) := by
  rw [List.drop_eq_getElem_cons j.isLt, List.map_cons]

variable (delay) in
theorem Phase.poll_progress (phase : Phase pages.length) (active : phase ≠ .finished) :
    phase.remaining (ε := ε) pages =
        (phase.poll (ε := ε) pages delay).2.emitted ++ (phase.poll (ε := ε) pages delay).1.remaining pages ∧
      (phase.poll (ε := ε) pages delay).1.cost pages delay + 1 = phase.cost pages delay := by
  cases phase with
  | ahead j =>
      have split := @costFrom_of_lt P pages delay j j.isLt
      cases delayed : delay j with
      | zero =>
          simp only [Phase.poll, delayed]
          rw [remaining_next, cost_next]
          simp only [Poll.emitted, Phase.remaining, Phase.cost]
          exact ⟨remaining_of_page j, by omega⟩
      | succ k =>
          simp only [Phase.poll, delayed]
          refine ⟨rfl, ?_⟩
          simp only [Phase.cost]
          omega
  | waiting j k =>
      cases k with
      | zero =>
          simp only [Phase.poll]
          rw [remaining_next, cost_next]
          simp only [Poll.emitted, Phase.remaining, Phase.cost]
          exact ⟨remaining_of_page j, by omega⟩
      | succ k =>
          simp only [Phase.poll]
          refine ⟨rfl, ?_⟩
          simp only [Phase.cost]
          omega
  | finished => exact (active rfl).elim

theorem Phase.cost_pos (phase : Phase pages.length) (active : phase ≠ .finished) : 0 < phase.cost pages delay := by
  cases phase with
  | ahead j =>
      simp only [Phase.cost]
      rw [costFrom_of_lt j.isLt]
      omega
  | waiting j k =>
      simp only [Phase.cost]
      omega
  | finished => exact (active rfl).elim

theorem Phase.valid_next {start : Nat} {j : Fin pages.length} (within : start ≤ j) :
    Phase.Valid pages start (Phase.next j) := by
  unfold Phase.next
  split_ifs
  · exact Nat.le_succ_of_le within
  · trivial

variable (delay) in
theorem Phase.valid_poll {start : Nat} (phase : Phase pages.length) (valid : Phase.Valid pages start phase) :
    Phase.Valid pages start (phase.poll (ε := ε) pages delay).1 := by
  cases phase with
  | ahead j =>
      simp only [Phase.poll]
      split
      · exact Phase.valid_next valid
      · exact valid
  | waiting j k =>
      cases k with
      | zero => exact Phase.valid_next valid
      | succ k => exact valid
  | finished => trivial

end Progress

section Runs

variable {P C ε : Type} {pages : List P} {token : Nat → C} {makeRequest : PagerFn P C ε} {start : Nat}
  {log : List (PagerState C)}

theorem pollMany_succ {it next : PageIterator P C ε} {polled : Poll (Option (Except ε P))} (k : Nat)
    (ran : it.pollNext makeRequest = .ok (next, polled)) :
    it.pollMany makeRequest (k + 1) = (fun (last, pages) => (last, polled.emitted ++ pages)) <$> next.pollMany makeRequest k := by
  cases polled with
  | ready page => simp [pollMany, ran, Poll.emitted]
  | pending =>
      simp only [pollMany, ran, Poll.emitted, List.nil_append]
      cases next.pollMany makeRequest k <;> rfl

theorem pollMany_finished (serves : Serves pages token makeRequest) (m : Nat) :
    ((Phase.finished : Phase pages.length).iterator pages token start log).pollMany makeRequest m =
      .ok ((Phase.finished : Phase pages.length).iterator pages token start log, List.replicate m none) := by
  induction m with
  | zero => rfl
  | succ m induction =>
      rw [pollMany_succ m (pollNext_iterator serves .finished trivial)]
      simp only [Phase.poll, induction]
      rfl

theorem pollMany_iterator (serves : Serves pages token makeRequest) (k : Nat) :
    ∀ phase : Phase pages.length, Phase.Valid pages start phase → k ≤ phase.cost pages (chainDelay makeRequest token start log) →
      ∃ last : Phase pages.length, ∃ outs, Phase.Valid pages start last ∧
        (phase.iterator pages token start log).pollMany makeRequest k = .ok (last.iterator pages token start log, outs) ∧
        outs ++ last.remaining pages = phase.remaining pages ∧
        last.cost pages (chainDelay makeRequest token start log) + k = phase.cost pages (chainDelay makeRequest token start log) := by
  induction k with
  | zero =>
      intro phase valid _
      exact ⟨phase, [], valid, rfl, rfl, rfl⟩
  | succ k induction =>
      intro phase valid affordable
      have active : phase ≠ .finished := by
        rintro rfl
        simp [Phase.cost] at affordable
      obtain ⟨emits, costs⟩ := Phase.poll_progress (ε := ε) (chainDelay makeRequest token start log) phase active
      obtain ⟨last, outs, validLast, ran, yielded, spent⟩ :=
        induction _ (Phase.valid_poll (ε := ε) (chainDelay makeRequest token start log) phase valid) (by omega)
      refine ⟨last, (Phase.poll (ε := ε) pages (chainDelay makeRequest token start log) phase).2.emitted ++ outs,
        validLast, ?_, ?_, by omega⟩
      · rw [pollMany_succ k (pollNext_iterator serves phase valid), ran]
        rfl
      · rw [List.append_assoc, yielded, emits]

end Runs

end PageIterator

namespace PageIterator

section Runs

variable {P C ε : Type} {pages : List P} {token : Nat → C} {makeRequest : PagerFn P C ε} {start : Nat}
  {log : List (PagerState C)}

theorem pollMany_add {it mid : PageIterator P C ε} {outs : List (Option (Except ε P))} {a : Nat}
    (first : it.pollMany makeRequest a = .ok (mid, outs)) (b : Nat) :
    it.pollMany makeRequest (a + b) = (fun (last, rest) => (last, outs ++ rest)) <$> mid.pollMany makeRequest b := by
  induction a generalizing it outs with
  | zero =>
      cases first
      simp only [Nat.zero_add, List.nil_append]
      cases mid.pollMany makeRequest b <;> rfl
  | succ a induction =>
      cases polled : it.pollNext makeRequest with
      | error halt => simp [pollMany, polled] at first
      | ok result =>
          obtain ⟨next, out⟩ := result
          rw [pollMany_succ a polled] at first
          cases rest : next.pollMany makeRequest a with
          | error halt => simp [rest] at first
          | ok result' =>
              obtain ⟨last, outs'⟩ := result'
              simp only [rest] at first
              cases first
              dsimp only at induction ⊢
              rw [show a + 1 + b = a + b + 1 by omega, pollMany_succ (a + b) polled, induction rest]
              cases last.pollMany makeRequest b <;> simp

theorem chainRequests_isPrefix {stop stop' : Nat} (le : stop ≤ stop') :
    chainRequests token start stop <+: chainRequests token start stop' := by
  unfold chainRequests
  rw [show stop' - start = (stop - start) + (stop' - stop - (start - stop)) by omega, ← List.range'_append,
    List.map_append]
  exact ⟨_, rfl⟩

theorem Phase.requests_isPrefix (phase : Phase pages.length) :
    (phase.iterator (ε := ε) pages token start log).requests <+: log ++ chainRequests token start pages.length := by
  have within : ∀ stop, stop ≤ pages.length →
      log ++ chainRequests token start stop <+: log ++ chainRequests token start pages.length := by
    intro stop le
    obtain ⟨rest, extended⟩ : chainRequests token start stop <+: chainRequests token start pages.length :=
      chainRequests_isPrefix le
    exact ⟨rest, by rw [List.append_assoc, extended]⟩
  cases phase with
  | ahead j => exact within j (Nat.le_of_lt j.isLt)
  | waiting j k => exact within (j + 1) j.isLt
  | finished => exact within pages.length (le_refl _)

theorem new_chainToken (within : start < pages.length) :
    new (chainToken token start) = (Phase.ahead ⟨start, within⟩).iterator (ε := ε) pages token start [] := by
  by_cases first : start = 0
  · simp [new, Phase.iterator, chainToken, chainRequests, first]
  · simp [new, Phase.iterator, chainToken, chainRequests, first]

theorem Phase.eq_finished_of_cost (phase : Phase pages.length) (delay : Nat → Nat)
    (spent : phase.cost pages delay = 0) : phase = .finished := by
  by_contra active
  have := @Phase.cost_pos P pages delay phase active
  omega

theorem Phase.pollMany_past_cost (serves : Serves pages token makeRequest) (phase : Phase pages.length)
    (valid : Phase.Valid pages start phase) {k : Nat} (past : phase.cost pages (chainDelay makeRequest token start log) ≤ k) :
    (phase.iterator pages token start log).pollMany makeRequest k =
      .ok ((Phase.finished : Phase pages.length).iterator pages token start log,
        phase.remaining pages ++ List.replicate (k - phase.cost pages (chainDelay makeRequest token start log)) none) := by
  obtain ⟨last, outs, _, ran, yielded, spent⟩ :=
    @pollMany_iterator P C ε pages token makeRequest start log serves _ phase valid (le_refl _)
  have finished : last = .finished := last.eq_finished_of_cost (chainDelay makeRequest token start log) (by omega)
  subst finished
  rw [show Phase.remaining (ε := ε) pages Phase.finished = [] from rfl, List.append_nil] at yielded
  obtain ⟨m, rfl⟩ : ∃ m, k = phase.cost pages (chainDelay makeRequest token start log) + m := ⟨_, (Nat.add_sub_cancel' past).symm⟩
  rw [pollMany_add ran, pollMany_finished serves, Nat.add_sub_cancel_left, yielded]
  rfl

theorem Phase.yields_chain (serves : Serves pages token makeRequest) (within : start < pages.length) :
    ∃ polls, ∀ k, ∃ it outs,
      ((Phase.ahead ⟨start, within⟩).iterator pages token start log).pollMany makeRequest k = .ok (it, outs) ∧
      it.requests <+: log ++ chainRequests token start pages.length ∧
      outs <+: (pages.drop start).map (fun page => some (.ok page)) ++ List.replicate k none ∧
      (polls ≤ k → it.requests = log ++ chainRequests token start pages.length ∧
        outs = (pages.drop start).map (fun page => some (.ok page)) ++ List.replicate (k - polls) none) := by
  let first : Phase pages.length := .ahead ⟨start, within⟩
  let polls := first.cost pages (chainDelay makeRequest token start log)
  have valid : Phase.Valid pages start first := le_refl start
  refine ⟨polls, fun k => ?_⟩
  by_cases before : k ≤ polls
  · obtain ⟨last, outs, _, ran, yielded, spent⟩ := pollMany_iterator serves k first valid before
    refine ⟨_, outs, ran, last.requests_isPrefix, ?_, ?_⟩
    · -- what was yielded begins the pages still to come
      refine ⟨last.remaining pages ++ List.replicate k none, ?_⟩
      rw [← List.append_assoc, yielded]
      rfl
    · intro after
      have finished : last = .finished := last.eq_finished_of_cost (chainDelay makeRequest token start log) (by omega)
      subst finished
      simp only [Phase.remaining, List.append_nil] at yielded
      refine ⟨rfl, ?_⟩
      rw [yielded, show k - polls = 0 by omega]
      simp [first]
  · -- the run to the end, then polls of the finished iterator
    rw [Phase.pollMany_past_cost serves first valid (by omega)]
    refine ⟨_, _, rfl, ⟨[], List.append_nil _⟩, ?_, fun _ => ⟨rfl, rfl⟩⟩
    refine ⟨List.replicate polls none, ?_⟩
    rw [List.append_assoc, ← List.replicate_add, Nat.sub_add_cancel (by omega)]
    rfl

end Runs

theorem pageIterator_yields_chain {P C ε : Type} (makeRequest : PagerFn P C ε) (pages : List P) (token : Nat → C)
    (serves : Serves pages token makeRequest) (start : Nat) (within : start < pages.length) :
    ∃ polls, ∀ k, ∃ it outs, (new (chainToken token start)).pollMany makeRequest k = .ok (it, outs) ∧
      it.requests <+: chainRequests token start pages.length ∧
      outs <+: (pages.drop start).map (fun page => some (.ok page)) ++ List.replicate k none ∧
      (polls ≤ k → it.requests = chainRequests token start pages.length ∧
        outs = (pages.drop start).map (fun page => some (.ok page)) ++ List.replicate (k - polls) none) := by
  rw [new_chainToken within]
  exact @Phase.yields_chain P C ε pages token makeRequest start [] serves within

/-- Two pages, each of whose futures is pending once. -/
theorem pageIterator_yields_two_pages :
    let makeRequest : PagerFn Nat Nat Unit :=
      ⟨fun | .initial => .ok (.more 10 1) | .more _ => .ok (.done 20), fun _ _ => 1⟩
    Serves [10, 20] id makeRequest ∧ 0 < [10, 20].length ∧
      ∃ polls, ∀ k, ∃ it outs, (new (chainToken id 0)).pollMany makeRequest k = .ok (it, outs) ∧
        it.requests <+: chainRequests id 0 [10, 20].length ∧
        outs <+: ([10, 20].drop 0).map (fun page => some (.ok page)) ++ List.replicate k none ∧
        (polls ≤ k → it.requests = chainRequests id 0 [10, 20].length ∧
          outs = ([10, 20].drop 0).map (fun page => some (.ok page)) ++ List.replicate (k - polls) none) := by
  intro makeRequest
  have serves : Serves [10, 20] id makeRequest := by
    intro j within
    have bound : j < 2 := within
    interval_cases j <;> rfl
  exact ⟨serves, by decide, pageIterator_yields_chain makeRequest [10, 20] id serves 0 (by decide)⟩

end PageIterator

end AzureCore
