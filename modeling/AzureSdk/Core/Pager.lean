import Mathlib
import AzureSdk.Lib.Outcome

/-!
# Pagers in `azure_core`

A `PageIterator` calls its callback for a page, keeps the callback's future while it is
pending, and moves on by the continuation of the page it got; an `ItemIterator` drains
the items of one page before it polls its `PageIterator` for the next, and keeps for
`continuation()` the continuation of the page it drains.

A future is modelled by how many polls it still answers `Pending` and what it then
gives: the callback's future for its `n`-th request is pending `delay n` times, and so is
the `n`-th `into_items` future. The model keeps, for the statements, the list of the
requests the callback was called with. Spans and the pager's other options are left out.
-/

namespace AzureCore

open Outcome

set_option autoImplicit false

inductive PagerState (C : Type) where
  | initial
  | more (continuation : C)

inductive PagerResult (P C : Type) where
  | more (response : P) (continuation : C)
  | done (response : P)

inductive Poll (α : Type) where
  | ready (value : α)
  | pending

def Poll.emitted {α : Type} : Poll α → List α
  | .ready value => [value]
  | .pending => []

/-- A future, by how many more polls it answers `Pending` and what it then gives. -/
structure Future (α : Type) where
  remaining : Nat
  output : α

/-- The callback of a pager: what it answers a request, and how many times the future of its
`n`-th call, on a request, is pending. -/
structure PagerFn (P C ε : Type) where
  respond : PagerState C → Except ε (PagerResult P C)
  delay : Nat → PagerState C → Nat

/-- `Page::into_items` of the pages: what it gives, and how many times its `n`-th future is
pending. -/
structure IntoItems (P α ε : Type) where
  items : P → Except ε (List α)
  delay : Nat → P → Nat

namespace PageIterator

inductive State (P C ε : Type) where
  | init
  | pending (future : Future (Except ε (PagerResult P C)))
  | more
  | done

end PageIterator

structure PageIterator (P C ε : Type) where
  /-- `options.continuation`. -/
  continuation : Option C
  state : PageIterator.State P C ε
  /-- The requests the callback was called with, in order. -/
  requests : List (PagerState C)

namespace PageIterator

variable {P C ε : Type} (makeRequest : PagerFn P C ε)

def new (continuation : Option C) : PageIterator P C ε where
  continuation := continuation
  state := match continuation with
    | none => .init
    | some _ => .more
  requests := []

/-- What the iterator does with the callback's result: the page it yields, and the
continuation and state it keeps. -/
def settle (it : PageIterator P C ε) : Except ε (PagerResult P C) → PageIterator P C ε × Option (Except ε P)
  | .error e => ({ it with state := .done }, some (.error e))
  | .ok (.more response continuation) =>
      ({ it with continuation := some continuation, state := .more }, some (.ok response))
  | .ok (.done response) => ({ it with continuation := none, state := .done }, some (.ok response))

def pollFuture (it : PageIterator P C ε) (future : Future (Except ε (PagerResult P C))) :
    PageIterator P C ε × Poll (Option (Except ε P)) :=
  match future.remaining with
  | 0 =>
      match it.settle future.output with
      | (settled, page) => (settled, .ready page)
  | k + 1 => ({ it with state := .pending ⟨k, future.output⟩ }, .pending)

def request (it : PageIterator P C ε) (request : PagerState C) : PageIterator P C ε × Poll (Option (Except ε P)) :=
  pollFuture { it with requests := it.requests ++ [request] }
    ⟨makeRequest.delay it.requests.length request, makeRequest.respond request⟩

def pollNext (it : PageIterator P C ε) : Run Empty (PageIterator P C ε × Poll (Option (Except ε P))) :=
  match it.state with
  | .init => .ok (it.request makeRequest .initial)
  | .pending future => .ok (it.pollFuture future)
  | .more =>
      match it.continuation with
      | some continuation => .ok (it.request makeRequest (.more continuation))
      -- "expected continuation_token"
      | none => panic
  | .done => .ok ({ it with continuation := none }, .ready none)

def pollMany (it : PageIterator P C ε) : Nat → Run Empty (PageIterator P C ε × List (Option (Except ε P)))
  | 0 => .ok (it, [])
  | k + 1 =>
      match it.pollNext makeRequest with
      | .ok (next, .ready page) => (fun (last, pages) => (last, page :: pages)) <$> next.pollMany k
      | .ok (next, .pending) => next.pollMany k
      | .error halt => .error halt

end PageIterator

structure ItemIterator (P C ε α : Type) where
  iter : PageIterator P C ε
  /-- The continuation of the page being drained, a page behind the inner iterator's. -/
  continuation : Option C
  current : Option (List α)
  /-- How many pages `into_items` has been called on. -/
  converted : Nat

namespace ItemIterator

variable {P C ε α : Type} (makeRequest : PagerFn P C ε) (intoItems : IntoItems P α ε)

def new (continuation : Option C) : ItemIterator P C ε α where
  iter := PageIterator.new continuation
  continuation := continuation
  current := none
  converted := 0

/-- `into_pages`: the inner iterator, restarted from the continuation of the page being drained. -/
def intoPages (it : ItemIterator P C ε α) : PageIterator P C ε :=
  { it.iter with
    continuation := it.continuation
    state := match it.continuation with
      | none => .init
      | some _ => .more }

/-- `Stream::poll_next`. Its loop polls for another page while the pages it gets are empty;
`fuel` bounds the loop. -/
def pollNext : Nat → ItemIterator P C ε α → Run Empty (ItemIterator P C ε α × Poll (Option (Except ε α)))
  | 0, _ => outOfFuel
  | fuel + 1, it =>
      match it.current with
      | some (item :: rest) => .ok ({ it with current := some rest }, .ready (some (.ok item)))
      | _ =>
          let reset := { it with current := none, continuation := it.iter.continuation }
          match reset.iter.pollNext makeRequest with
          | .error halt => .error halt
          | .ok (iter, .pending) => .ok ({ reset with iter := iter }, .pending)
          | .ok (iter, .ready none) => .ok ({ reset with iter := iter }, .ready none)
          | .ok (iter, .ready (some (.error e))) => .ok ({ reset with iter := iter }, .ready (some (.error e)))
          | .ok (iter, .ready (some (.ok page))) =>
              let got := { reset with iter := iter, converted := it.converted + 1 }
              -- into_items is polled once: a pending future is dropped, and its page with it
              if intoItems.delay it.converted page = 0 then
                match intoItems.items page with
                | .ok items => pollNext fuel { got with current := some items }
                | .error e => .ok (got, .ready (some (.error e)))
              else .ok (got, .pending)

def pollMany (fuel : Nat) (it : ItemIterator P C ε α) : Nat → Run Empty (ItemIterator P C ε α × List (Option (Except ε α)))
  | 0 => .ok (it, [])
  | k + 1 =>
      match it.pollNext makeRequest intoItems fuel with
      | .ok (next, .ready item) => (fun (last, items) => (last, item :: items)) <$> next.pollMany fuel k
      | .ok (next, .pending) => next.pollMany fuel k
      | .error halt => .error halt

end ItemIterator

end AzureCore
