import Mathlib.Data.List.Infix

namespace Littlelambocoin.Sync

-- Where the async function returned by `onCacheEntryAddedInvalidate` is suspended
inductive Phase
  | loading
  | subscribing
  | removing
  | done
  deriving DecidableEq, Repr

-- How far one subscribe call `rtkQuery(...)` has got
inductive Call
  | pending
  | fulfilled
  | rejected
  deriving DecidableEq, Repr

-- A subscribe call resolves with a `data` that may hold an unsubscribe handle, or rejects
inductive Response (Handle : Type)
  | resolve (data : Option Handle)
  | reject
  deriving DecidableEq, Repr

-- The events the function awaits: `cacheDataLoaded` resolving or rejecting, the subscribe
-- call of descriptor `index` settling, and `cacheEntryRemoved` resolving.
inductive Event (Handle : Type)
  | dataLoaded (resolved : Bool)
  | subscribed (index : Nat) (response : Response Handle)
  | entryRemoved
  deriving DecidableEq, Repr

-- One run of the function: where it waits, its subscribe calls in descriptor order, the array
-- `unsubscribes`, whether `cacheEntryRemoved` has resolved, and the handles called, in order
structure Lifecycle (Handle : Type) where
  phase : Phase
  calls : List Call
  unsubscribes : List Handle
  removed : Bool
  invoked : List Handle
  deriving DecidableEq, Repr

variable {Handle : Type} (throws : Handle → Bool)

def Response.outcome : Response Handle → Call
  | .resolve _ => .fulfilled
  | .reject => .rejected

def Response.handle? : Response Handle → Option Handle
  | .resolve data => data
  | .reject => none

-- The descriptor whose call a subscribe event settles, and the handle it delivers
def Event.index? : Event Handle → Option Nat
  | .subscribed index _ => some index
  | _ => none

def Event.handle? : Event Handle → Option Handle
  | .subscribed _ response => response.handle?
  | _ => none

-- `unsubscribes.forEach((unsubscribe) => unsubscribe())`: the handles are called in order
-- until one throws, which leaves the loop and rejects the function.
def closeAll : List Handle → List Handle
  | [] => []
  | handle :: rest => handle :: if throws handle then [] else closeAll rest

theorem closeAll_isPrefix (handles : List Handle) : closeAll throws handles <+: handles := by
  induction handles with
  | nil => exact List.nil_prefix
  | cons handle rest ih =>
      by_cases h : throws handle <;> simp [closeAll, h, ih]

theorem closeAll_of_not_throws (handles : List Handle) (h : ∀ handle ∈ handles, throws handle = false) :
    closeAll throws handles = handles := by
  induction handles with
  | nil => rfl
  | cons handle rest ih =>
      simp only [List.mem_cons, forall_eq_or_imp] at h
      simp [closeAll, h.1, ih h.2]

namespace Lifecycle

def init : Lifecycle Handle := ⟨.loading, [], [], false, []⟩

-- `Promise.all` settles once every call is fulfilled, or as soon as one is rejected
def allSettled (calls : List Call) : Bool :=
  calls.all (fun call => call = .fulfilled) || calls.any (fun call => call = .rejected)

-- The continuation of `await Promise.all(...)`: on to `finally` once it has settled
def leaveAll (s : Lifecycle Handle) : Lifecycle Handle :=
  if s.phase = .subscribing ∧ allSettled s.calls then { s with phase := .removing } else s

-- The continuation of `await cacheEntryRemoved`: the `forEach` over the collected handles
def finish (s : Lifecycle Handle) : Lifecycle Handle :=
  if s.phase = .removing ∧ s.removed then
    { s with phase := .done, invoked := closeAll throws s.unsubscribes }
  else s

-- The continuations that run with no further event
def react (s : Lifecycle Handle) : Lifecycle Handle :=
  finish throws (leaveAll s)

-- The continuation of `await rtkQuery(...)` for descriptor `index`: `unsubscribes.push` of
-- the handle, if the response carries one
def settle (index : Nat) (s : Lifecycle Handle) (response : Response Handle) : Lifecycle Handle :=
  { s with calls := s.calls.set index response.outcome,
           unsubscribes := s.unsubscribes ++ response.handle?.toList }

-- One event of a run with `n` descriptors, then the continuations it enables. A promise settles
-- once, so an event for a settled promise, or for a call not yet made, changes nothing.
def step (n : Nat) (s : Lifecycle Handle) : Event Handle → Lifecycle Handle
  | .dataLoaded resolved =>
      if s.phase = .loading then
        react throws (if resolved then { s with phase := .subscribing, calls := List.replicate n .pending }
          else { s with phase := .removing })
      else s
  | .subscribed index response =>
      if s.calls[index]? = some .pending then react throws (settle index s response) else s
  | .entryRemoved => if s.removed then s else react throws { s with removed := true }

def run (n : Nat) (s : Lifecycle Handle) (events : List (Event Handle)) : Lifecycle Handle :=
  events.foldl (step throws n) s

@[simp] theorem run_nil (n : Nat) (s : Lifecycle Handle) : run throws n s [] = s := rfl

@[simp] theorem run_cons (n : Nat) (s : Lifecycle Handle) (event : Event Handle)
    (events : List (Event Handle)) :
    run throws n s (event :: events) = run throws n (step throws n s event) events := rfl

end Lifecycle

end Littlelambocoin.Sync
