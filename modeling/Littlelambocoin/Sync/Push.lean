import Littlelambocoin.Sync.Invalidate

namespace Littlelambocoin.Sync

variable {Service Payload Args Value Endpoint : Type}

namespace Invalidate

-- An event is accepted when the descriptor has no `skip` or its `skip` returns true
def accepts (invalidate : Invalidate Service Payload Args Value Endpoint) (data : Payload)
    (args : Args) : Bool :=
  match invalidate.skip with
  | some skip => skip data args
  | none => true

def recipe (invalidate : Invalidate Service Payload Args Value Endpoint) (data : Payload)
    (args : Args) : Option (Value → Value) :=
  invalidate.onUpdate.map fun onUpdate draft => onUpdate draft data args

def refetch (invalidate : Invalidate Service Payload Args Value Endpoint) (args : Args) :
    Option (Initiate Args Endpoint) :=
  invalidate.endpoint.map fun endpoint => ⟨endpoint (), args, false, true⟩

theorem skips_eq_not_accepts (invalidate : Invalidate Service Payload Args Value Endpoint)
    (data : Payload) (args : Args) : invalidate.skips data args = !invalidate.accepts data args := by
  unfold skips accepts
  cases invalidate.skip <;> simp

end Invalidate

open Invalidate

-- One handler call in the words of the spec: a rejected event leaves the entry as it is, an
-- accepted one applies its recipe once and dispatches its refetch once
theorem pushHandler_eq (args : Args) (invalidate : Invalidate Service Payload Args Value Endpoint)
    (data : Payload) (entry : Entry Value Args Endpoint) :
    pushHandler args invalidate data entry =
      if invalidate.accepts data args then
        ⟨((invalidate.recipe data args).getD id) entry.data,
          entry.dispatched ++ (invalidate.refetch args).toList⟩
      else entry := by
  rw [← Bool.not_not (invalidate.accepts data args), ← skips_eq_not_accepts]
  cases hs : invalidate.skips data args <;> cases invalidate <;>
    simp_all [pushHandler, recipe, refetch, onUpdate, endpoint, Entry.updateCachedData,
      Entry.dispatch]

theorem pushHandler_of_accepts_eq_false (args : Args)
    (invalidate : Invalidate Service Payload Args Value Endpoint) (data : Payload)
    (entry : Entry Value Args Endpoint) (h : invalidate.accepts data args = false) :
    pushHandler args invalidate data entry = entry := by
  simp [pushHandler_eq, h]

theorem pushHandler_data_of_endpoint (args : Args)
    (invalidate : Invalidate Service Payload Args Value Endpoint) (data : Payload)
    (entry : Entry Value Args Endpoint) (h : invalidate.endpoint.isSome) :
    (pushHandler args invalidate data entry).data = entry.data := by
  cases invalidate
  · rw [pushHandler_eq]; split <;> rfl
  · simp [endpoint] at h

-- Every push event in arrival order, each through the handler of its own descriptor
def runPushes (args : Args) (entry : Entry Value Args Endpoint)
    (events : List (Invalidate Service Payload Args Value Endpoint × Payload)) :
    Entry Value Args Endpoint :=
  events.foldl (fun entry event => pushHandler args event.1 event.2 entry) entry

section Runs

variable (args : Args)

def accepted (events : List (Invalidate Service Payload Args Value Endpoint × Payload)) :
    List (Invalidate Service Payload Args Value Endpoint × Payload) :=
  events.filter fun event => event.1.accepts event.2 args

@[simp] theorem runPushes_nil (entry : Entry Value Args Endpoint) :
    runPushes args entry ([] : List (Invalidate Service Payload Args Value Endpoint × Payload)) =
      entry := rfl

@[simp] theorem runPushes_cons (entry : Entry Value Args Endpoint)
    (event : Invalidate Service Payload Args Value Endpoint × Payload)
    (events : List (Invalidate Service Payload Args Value Endpoint × Payload)) :
    runPushes args entry (event :: events) =
      runPushes args (pushHandler args event.1 event.2 entry) events := rfl

theorem runPushes_data (entry : Entry Value Args Endpoint)
    (events : List (Invalidate Service Payload Args Value Endpoint × Payload)) :
    (runPushes args entry events).data =
      ((accepted args events).filterMap fun event => event.1.recipe event.2 args).foldl
        (fun data recipe => recipe data) entry.data := by
  induction events generalizing entry with
  | nil => rfl
  | cons event events ih =>
      rw [runPushes_cons, ih, pushHandler_eq]
      by_cases h : event.1.accepts event.2 args
      · cases hr : event.1.recipe event.2 args <;> simp [accepted, h, hr, List.filter_cons]
      · simp [accepted, h, List.filter_cons]

theorem runPushes_dispatched (entry : Entry Value Args Endpoint)
    (events : List (Invalidate Service Payload Args Value Endpoint × Payload)) :
    (runPushes args entry events).dispatched =
      entry.dispatched ++ (accepted args events).filterMap fun event => event.1.refetch args := by
  induction events generalizing entry with
  | nil => simp [accepted]
  | cons event events ih =>
      rw [runPushes_cons, ih, pushHandler_eq]
      by_cases h : event.1.accepts event.2 args
      · cases hr : event.1.refetch args <;> simp [accepted, h, hr, List.filter_cons]
      · simp [accepted, h, List.filter_cons]

-- Over any run of pushes across descriptors: the data has the recipe of each accepted event
-- applied once and one refetch is dispatched per accepted `endpoint` event, in arrival order;
-- a rejected event changes nothing and an `endpoint` event never writes the data
theorem runPushes_applies_accepted (entry : Entry Value Args Endpoint)
    (events : List (Invalidate Service Payload Args Value Endpoint × Payload)) :
    (runPushes args entry events).data =
        ((accepted args events).filterMap fun event => event.1.recipe event.2 args).foldl
          (fun data recipe => recipe data) entry.data ∧
      (runPushes args entry events).dispatched =
        entry.dispatched ++ (accepted args events).filterMap (fun event => event.1.refetch args) ∧
      (∀ (invalidate : Invalidate Service Payload Args Value Endpoint) (data : Payload)
          (current : Entry Value Args Endpoint), invalidate.accepts data args = false →
        pushHandler args invalidate data current = current) ∧
      (∀ (invalidate : Invalidate Service Payload Args Value Endpoint) (data : Payload)
          (current : Entry Value Args Endpoint), invalidate.endpoint.isSome →
        (pushHandler args invalidate data current).data = current.data) :=
  ⟨runPushes_data args entry events, runPushes_dispatched args entry events,
    pushHandler_of_accepts_eq_false args, pushHandler_data_of_endpoint args⟩

-- Pushes of 5 and 7 to an `onUpdate` descriptor leave 7; one to an `endpoint` descriptor refetches
example :
    let balance : Invalidate Unit Nat Unit Nat String :=
      .withOnUpdate "sub_balance" () (fun _ data _ => data) none
    let wallets : Invalidate Unit Nat Unit Nat String :=
      .withEndpoint "sub_wallets" () (fun _ => "getWallets") none
    let entry := runPushes () ⟨0, []⟩ [(balance, 5), (wallets, 1), (balance, 7)]
    entry.data = 7 ∧ entry.dispatched.map (fun action => (action.endpoint, action.forceRefetch)) =
      [("getWallets", true)] :=
  ⟨rfl, rfl⟩

-- Acceptance reads only the payload and the args, so events whose recipes commute can arrive
-- in any order: every reordering leaves the same data and dispatches the same refetches
theorem runPushes_perm {events events' : List (Invalidate Service Payload Args Value Endpoint × Payload)}
    (hperm : events.Perm events')
    (hcomm : ∀ first ∈ accepted args events, ∀ second ∈ accepted args events,
      ∀ r₁ ∈ first.1.recipe first.2 args, ∀ r₂ ∈ second.1.recipe second.2 args, r₁ ∘ r₂ = r₂ ∘ r₁)
    (entry : Entry Value Args Endpoint) :
    (runPushes args entry events').data = (runPushes args entry events).data ∧
      (runPushes args entry events').dispatched.Perm (runPushes args entry events).dispatched := by
  have hacc : (accepted args events).Perm (accepted args events') := hperm.filter _
  rw [runPushes_data, runPushes_data, runPushes_dispatched, runPushes_dispatched]
  refine ⟨((hacc.filterMap _).foldl_eq' (fun r₁ h₁ r₂ h₂ data => ?_) _).symm,
    ((hacc.filterMap _).append_left _).symm⟩
  obtain ⟨first, hfirst, hr₁⟩ := List.mem_filterMap.1 h₁
  obtain ⟨second, hsecond, hr₂⟩ := List.mem_filterMap.1 h₂
  exact congrFun (hcomm second hsecond first hfirst r₂ hr₂ r₁ hr₁) data

theorem runPushes_perm_counters :
    let bump : Invalidate Unit Nat Unit Nat Unit :=
      .withOnUpdate "sub_bump" () (fun draft data _ => draft + data) none
    let double : Invalidate Unit Nat Unit Nat Unit :=
      .withOnUpdate "sub_double" () (fun draft data _ => draft + 2 * data) none
    [(bump, 1), (double, 5)].Perm [(double, 5), (bump, 1)] ∧
      (∀ first ∈ accepted () [(bump, 1), (double, 5)], ∀ second ∈ accepted () [(bump, 1), (double, 5)],
        ∀ r₁ ∈ first.1.recipe first.2 (), ∀ r₂ ∈ second.1.recipe second.2 (), r₁ ∘ r₂ = r₂ ∘ r₁) ∧
      (runPushes () ⟨0, []⟩ [(double, 5), (bump, 1)]).data =
        (runPushes () ⟨0, []⟩ [(bump, 1), (double, 5)]).data ∧
      (runPushes () ⟨0, []⟩ [(double, 5), (bump, 1)]).dispatched.Perm
        (runPushes () ⟨0, []⟩ [(bump, 1), (double, 5)]).dispatched := by
  intro bump double
  have hperm : [(bump, 1), (double, 5)].Perm [(double, 5), (bump, 1)] := List.Perm.swap _ _ []
  have hcomm : ∀ first ∈ accepted () [(bump, 1), (double, 5)],
      ∀ second ∈ accepted () [(bump, 1), (double, 5)],
        ∀ r₁ ∈ first.1.recipe first.2 (), ∀ r₂ ∈ second.1.recipe second.2 (), r₁ ∘ r₂ = r₂ ∘ r₁ := by
    simp only [bump, double, accepted, Invalidate.accepts, Invalidate.skip, List.filter,
      List.mem_cons, List.not_mem_nil, or_false]
    rintro _ (rfl | rfl) _ (rfl | rfl) r₁ h₁ r₂ h₂ <;>
      simp only [Option.mem_def, Invalidate.recipe, Invalidate.onUpdate, Option.map_some',
        Option.some.injEq] at h₁ h₂ <;>
      subst h₁ h₂ <;> funext draft <;> simp only [Function.comp]
  exact ⟨hperm, hcomm, runPushes_perm () hperm hcomm ⟨0, []⟩⟩

end Runs

end Littlelambocoin.Sync
