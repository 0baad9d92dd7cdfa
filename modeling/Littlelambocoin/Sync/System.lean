import Littlelambocoin.Sync.Push
import Littlelambocoin.Sync.Teardown

namespace Littlelambocoin.Sync

-- What can happen to a cache entry while the function runs on it: an event the function
-- awaits, or the remote side calling the push handler of descriptor `index` with `data`
inductive Happening (Payload Handle : Type)
  | lifecycle (event : Event Handle)
  | push (index : Nat) (data : Payload)

-- One cache entry with the function `onCacheEntryAddedInvalidate` returned running on it
structure Instance (Value Args Endpoint Handle : Type) where
  lifecycle : Lifecycle Handle
  entry : Entry Value Args Endpoint

variable {Service Payload Args Value Endpoint Handle : Type}
  (invalidates : List (Invalidate Service Payload Args Value Endpoint)) (args : Args)
  (throws : Handle → Bool)

namespace Instance

-- A push reaches the handler of descriptor `index` only once its subscribe call has been
-- made, since that call creates the handler
def step (s : Instance Value Args Endpoint Handle) :
    Happening Payload Handle → Instance Value Args Endpoint Handle
  | .lifecycle event => { s with lifecycle := s.lifecycle.step throws invalidates.length event }
  | .push index data =>
      match invalidates[index]? with
      | some invalidate =>
          if index < s.lifecycle.calls.length then
            { s with entry := pushHandler args invalidate data s.entry }
          else s
      | none => s

def run (s : Instance Value Args Endpoint Handle) (happenings : List (Happening Payload Handle)) :
    Instance Value Args Endpoint Handle :=
  happenings.foldl (step invalidates args throws) s

@[simp] theorem run_nil (s : Instance Value Args Endpoint Handle) :
    run invalidates args throws s [] = s := rfl

@[simp] theorem run_cons (s : Instance Value Args Endpoint Handle) (happening : Happening Payload Handle)
    (happenings : List (Happening Payload Handle)) :
    run invalidates args throws s (happening :: happenings) =
      run invalidates args throws (step invalidates args throws s happening) happenings := rfl

end Instance

def lifecycleEvents (happenings : List (Happening Payload Handle)) : List (Event Handle) :=
  happenings.filterMap fun
    | .lifecycle event => some event
    | .push _ _ => none

def pushesTo (happenings : List (Happening Payload Handle)) :
    List (Invalidate Service Payload Args Value Endpoint × Payload) :=
  happenings.filterMap fun
    | .lifecycle _ => none
    | .push index data => invalidates[index]?.map (·, data)

-- The pushes of a run from the call of the function that reach a handler: those after
-- `cacheDataLoaded` has resolved, none if it rejects
def deliveredPushes : List (Happening Payload Handle) →
    List (Invalidate Service Payload Args Value Endpoint × Payload)
  | [] => []
  | .lifecycle (.dataLoaded resolved) :: rest => if resolved then pushesTo invalidates rest else []
  | _ :: rest => deliveredPushes rest

theorem pushesTo_nil (happenings : List (Happening Payload Handle)) :
    pushesTo ([] : List (Invalidate Service Payload Args Value Endpoint)) happenings = [] := by
  induction happenings with
  | nil => rfl
  | cons happening happenings ih => cases happening <;> simpa [pushesTo] using ih

namespace Instance

theorem step_push_lifecycle (s : Instance Value Args Endpoint Handle) (index : Nat) (data : Payload) :
    (step invalidates args throws s (.push index data)).lifecycle = s.lifecycle := by
  simp only [step]
  split
  · split <;> rfl
  · rfl

theorem run_lifecycle (s : Instance Value Args Endpoint Handle)
    (happenings : List (Happening Payload Handle)) :
    (run invalidates args throws s happenings).lifecycle =
      Lifecycle.run throws invalidates.length s.lifecycle (lifecycleEvents happenings) := by
  induction happenings generalizing s with
  | nil => rfl
  | cons happening happenings ih =>
      cases happening with
      | lifecycle event => simp [ih, lifecycleEvents, step]
      | push index data => simp [ih, lifecycleEvents, step_push_lifecycle]

theorem run_entry_of_active (s : Instance Value Args Endpoint Handle)
    (h : s.lifecycle.phase ≠ .loading) (happenings : List (Happening Payload Handle)) :
    (run invalidates args throws s happenings).entry =
      runPushes args s.entry (pushesTo (invalidates.take s.lifecycle.calls.length) happenings) := by
  induction happenings generalizing s with
  | nil => rfl
  | cons happening happenings ih =>
      cases happening with
      | lifecycle event =>
          obtain ⟨hp, hl⟩ := Lifecycle.step_of_not_loading throws (n := invalidates.length) h event
          rw [run_cons, ih _ hp]
          simp [step, hl, pushesTo]
      | push index data =>
          rw [run_cons, ih _ (by rwa [step_push_lifecycle]), step_push_lifecycle]
          by_cases hi : index < s.lifecycle.calls.length
          · cases hv : invalidates[index]? <;>
              simp [step, hv, hi, pushesTo, List.getElem?_take_of_lt hi]
          · have hn : (invalidates.take s.lifecycle.calls.length)[index]? = none :=
              List.getElem?_eq_none (by simp; omega)
            cases hv : invalidates[index]? <;> simp [step, hv, hi, pushesTo, hn]

theorem run_entry_of_loading (s : Instance Value Args Endpoint Handle)
    (h : s.lifecycle.phase = .loading) (hc : s.lifecycle.calls = [])
    (happenings : List (Happening Payload Handle)) :
    (run invalidates args throws s happenings).entry =
      runPushes args s.entry (deliveredPushes invalidates happenings) := by
  induction happenings generalizing s with
  | nil => rfl
  | cons happening happenings ih =>
      cases happening with
      | lifecycle event =>
          cases event with
          | dataLoaded resolved =>
              obtain ⟨hp, hcalls, -⟩ :=
                Lifecycle.step_dataLoaded throws (n := invalidates.length) h resolved
              rw [run_cons, run_entry_of_active _ _ _ _ hp]
              cases resolved <;> simp [step, hcalls, hc, deliveredPushes, pushesTo_nil]
          | subscribed index response =>
              obtain ⟨hp, hcalls, -⟩ := Lifecycle.step_of_calls_nil throws (n := invalidates.length)
                hc (.subscribed index response) fun _ => by simp
              exact ih _ (hp.2 h) hcalls
          | entryRemoved =>
              obtain ⟨hp, hcalls, -⟩ := Lifecycle.step_of_calls_nil throws (n := invalidates.length)
                hc .entryRemoved fun _ => by simp
              exact ih _ (hp.2 h) hcalls
      | push index data =>
          have hs : step invalidates args throws s (.push index data) = s := by
            simp only [step, hc, List.length_nil, Nat.not_lt_zero, if_false]
            split <;> rfl
          rw [run_cons, hs, ih s h hc]
          rfl

end Instance

-- The function `onCacheEntryAddedInvalidate(rtkQuery, invalidates)` returns, called on an
-- entry with `args`, and everything that happens to the entry from then on
def onCacheEntryAddedInvalidate (entry : Entry Value Args Endpoint)
    (happenings : List (Happening Payload Handle)) : Instance Value Args Endpoint Handle :=
  Instance.run invalidates args throws ⟨.init, entry⟩ happenings

-- Pushes and lifecycle events interleaved in any order: the function's state is the lifecycle
-- run of the lifecycle events, and the entry is the push run of the pushes that reach a handler
theorem run_from_call (entry : Entry Value Args Endpoint)
    (happenings : List (Happening Payload Handle)) :
    (onCacheEntryAddedInvalidate invalidates args throws entry happenings).lifecycle =
        Lifecycle.run throws invalidates.length .init (lifecycleEvents happenings) ∧
      (onCacheEntryAddedInvalidate invalidates args throws entry happenings).entry =
        runPushes args entry (deliveredPushes invalidates happenings) :=
  ⟨Instance.run_lifecycle invalidates args throws _ happenings,
    Instance.run_entry_of_loading invalidates args throws _ rfl rfl happenings⟩

end Littlelambocoin.Sync
