import Mathlib.Data.List.Basic

namespace Littlelambocoin.Sync

-- The two members of the `Invalidate` union: a descriptor refetches a dependent `endpoint` or
-- mutates the cached data through `onUpdate`, after an optional `skip`
inductive Invalidate (Service Payload Args Value Endpoint : Type)
  | withEndpoint (command : String) (service : Service) (endpoint : Unit → Endpoint)
      (skip : Option (Payload → Args → Bool))
  | withOnUpdate (command : String) (service : Service)
      (onUpdate : Value → Payload → Args → Value) (skip : Option (Payload → Args → Bool))

-- `endpoint().initiate(args, { subscribe, forceRefetch })`
structure Initiate (Args Endpoint : Type) where
  endpoint : Endpoint
  args : Args
  subscribe : Bool
  forceRefetch : Bool

-- The part of the cache-entry api a push handler writes: the data that `updateCachedData`
-- replaces, and the actions passed to `dispatch` in the order they were passed.
structure Entry (Value Args Endpoint : Type) where
  data : Value
  dispatched : List (Initiate Args Endpoint)

variable {Service Payload Args Value Endpoint : Type}

namespace Entry

def updateCachedData (entry : Entry Value Args Endpoint) (recipe : Value → Value) :
    Entry Value Args Endpoint :=
  { entry with data := recipe entry.data }

def dispatch (entry : Entry Value Args Endpoint) (action : Initiate Args Endpoint) :
    Entry Value Args Endpoint :=
  { entry with dispatched := entry.dispatched ++ [action] }

@[simp] theorem updateCachedData_data (entry : Entry Value Args Endpoint) (recipe : Value → Value) :
    (entry.updateCachedData recipe).data = recipe entry.data := rfl

@[simp] theorem updateCachedData_dispatched (entry : Entry Value Args Endpoint)
    (recipe : Value → Value) : (entry.updateCachedData recipe).dispatched = entry.dispatched := rfl

@[simp] theorem dispatch_data (entry : Entry Value Args Endpoint) (action : Initiate Args Endpoint) :
    (entry.dispatch action).data = entry.data := rfl

@[simp] theorem dispatch_dispatched (entry : Entry Value Args Endpoint)
    (action : Initiate Args Endpoint) :
    (entry.dispatch action).dispatched = entry.dispatched ++ [action] := rfl

end Entry

namespace Invalidate

-- The fields of `const { command, service, endpoint, onUpdate, skip } = invalidate` that the
-- push handler reads; the member without a field reads `undefined`.
def endpoint : Invalidate Service Payload Args Value Endpoint → Option (Unit → Endpoint)
  | withEndpoint _ _ endpoint _ => some endpoint
  | withOnUpdate .. => none

def onUpdate :
    Invalidate Service Payload Args Value Endpoint → Option (Value → Payload → Args → Value)
  | withEndpoint .. => none
  | withOnUpdate _ _ onUpdate _ => some onUpdate

def skip : Invalidate Service Payload Args Value Endpoint → Option (Payload → Args → Bool)
  | withEndpoint _ _ _ skip | withOnUpdate _ _ _ skip => skip

-- `skip && !skip(data, args)`: the handler returns early exactly when this holds
def skips (invalidate : Invalidate Service Payload Args Value Endpoint) (data : Payload)
    (args : Args) : Bool :=
  match invalidate.skip with
  | some skip => !skip data args
  | none => false

end Invalidate

open Invalidate

-- The callback `(data) => { ... }` that the subscribe call of `invalidate` passes in its
-- `args`, run on the entry of the query called with `args`.
def pushHandler (args : Args) (invalidate : Invalidate Service Payload Args Value Endpoint)
    (data : Payload) (entry : Entry Value Args Endpoint) : Entry Value Args Endpoint :=
  if invalidate.skips data args then entry
  else
    let entry := match invalidate.onUpdate with
      | some onUpdate => entry.updateCachedData fun draft => onUpdate draft data args
      | none => entry
    match invalidate.endpoint with
    | some endpoint => entry.dispatch ⟨endpoint (), args, false, true⟩
    | none => entry

@[simp] theorem pushHandler_withEndpoint (args : Args) (command : String) (service : Service)
    (endpoint : Unit → Endpoint) (skip : Option (Payload → Args → Bool)) (data : Payload)
    (entry : Entry Value Args Endpoint) :
    pushHandler args (withEndpoint command service endpoint skip) data entry =
      if (withEndpoint command service endpoint skip : Invalidate _ _ _ Value _).skips data args
      then entry else entry.dispatch ⟨endpoint (), args, false, true⟩ := rfl

@[simp] theorem pushHandler_withOnUpdate (args : Args) (command : String) (service : Service)
    (onUpdate : Value → Payload → Args → Value) (skip : Option (Payload → Args → Bool))
    (data : Payload) (entry : Entry Value Args Endpoint) :
    pushHandler args (withOnUpdate command service onUpdate skip : Invalidate _ _ _ _ Endpoint)
        data entry =
      if (withOnUpdate command service onUpdate skip : Invalidate _ _ _ _ Endpoint).skips data args
      then entry else entry.updateCachedData fun draft => onUpdate draft data args := rfl

end Littlelambocoin.Sync
