import LogosViewRuntime.ErrorPayload
import LogosViewRuntime.Lib.Machine
import LogosViewRuntime.Variant
import Mathlib.Algebra.Group.Nat.Defs

/-! # `LogosWebBridge::callModuleAsync`

The backend-call half of the web bridge: the pending calls, the router replica and the three
places a call can be sent from.

* **Router replica.**  `initialized` is what `isInitialized()` answers and never goes back;
  `live` says whether the replica has a connection, so whether an invoked slot is sent anywhere.
  Which replica `acquireDynamic` returns comes in with the label, and so does whether
  `callCompleted` can be connected.
* **Foreign code.**  `dispatch` and the JavaScript callbacks call foreign code.  Only in the loop
  of `onRouterInitialized` does the bridge go on afterwards, so that is the only `Frame`: the ids
  still to be looked at and, when the loop runs inside a `callModuleAsync`, that call.
* **Order of a hash.**  `keys` is the order in which `m_pending.keys()` hands out the ids.
* **Timers** are armed until they fire; time does not pass here. -/

namespace LogosViewRuntime.Web

structure PendingCall where
  callback : QJSValue
  module : String
  method : String
  argsJson : String
  dispatched : Bool := false
deriving DecidableEq, Repr

structure Replica where
  initialized : Bool
  live : Bool
deriving DecidableEq, Repr

/-- What a call of `callModuleAsync` and its timer know it by. -/
structure Caller where
  requestId : String
  module : String
  method : String
deriving DecidableEq, Repr

/-- The loop of `onRouterInitialized`, interrupted by a `dispatch`. -/
structure Frame where
  waiting : List String
  caller : Option Caller
deriving DecidableEq, Repr

structure Bridge where
  node : Bool := true
  router : Option Replica := none
  routerConnected : Bool := false
  pending : QHash String PendingCall := ∅
  nextRequestId : ℕ := 0
  timers : List Caller := []
  stack : List Frame := []

inductive Obs where
  | issued (caller : Caller) (callback : QJSValue)
  | call (requestId module method argsJson : String) (live connected : Bool)
  | completed (requestId payload : String)
  | answered (requestId payload : String)
  | invoked (requestId payload : String)
deriving DecidableEq, Repr

/-! ### The error payloads of a call -/

def timedOut (caller : Caller) : String :=
  logosWebErrorPayload "Call timed out" caller.module caller.method
    "the backend did not answer in time"

def noBackend (caller : Caller) : String :=
  logosWebErrorPayload "No backend" caller.module caller.method
    "the page has handed this runtime no port"

def noBackendRouter (caller : Caller) : String :=
  logosWebErrorPayload "No backend router" caller.module caller.method

namespace Bridge

/-- A slot invoked on the router is sent somewhere. -/
def routerLive (s : Bridge) : Bool := s.router.any (·.live)

/-- Mark the entry `pending` of `requestId` and invoke `call` on the router. -/
def dispatch (requestId : String) (pending : PendingCall) (module method : String) (s : Bridge) :
    Bridge × List Obs :=
  ({ s with pending := s.pending.insert requestId { pending with dispatched := true } },
    [.call requestId module method pending.argsJson s.routerLive s.routerConnected])

def deliver (requestId payload : String) (s : Bridge) : Bridge × List Obs :=
  match s.pending.lookup requestId with
  | none => (s, [])
  | some pending =>
      ({ s with pending := s.pending.erase requestId },
        .answered requestId payload ::
          if pending.callback.isCallable then [.invoked requestId payload] else [])

/-- `callModuleAsync` after `ensureRouter`. -/
def afterRouter (caller : Caller) (s : Bridge) : Bridge × List Obs :=
  match s.router with
  | none => s.deliver caller.requestId (noBackendRouter caller)
  | some router =>
      match s.pending.lookup caller.requestId with
      | none => (s, [])
      | some pending =>
          if pending.dispatched then (s, [])
          else if !router.initialized then (s, [])
          else s.dispatch caller.requestId pending caller.module caller.method

/-- Where `onRouterInitialized` returns to. -/
def resume (caller : Option Caller) (s : Bridge) : Bridge × List Obs :=
  match caller with
  | none => (s, [])
  | some caller => s.afterRouter caller

/-- The loop of `onRouterInitialized` from `waiting` on. -/
def drain (caller : Option Caller) : List String → Bridge → Bridge × List Obs
  | [], s => s.resume caller
  | id :: waiting, s =>
      match s.pending.lookup id with
      | none => drain caller waiting s
      | some pending =>
          if pending.dispatched then drain caller waiting s
          else
            { s with stack := ⟨waiting, caller⟩ :: s.stack }.dispatch id pending pending.module
              pending.method

def onRouterInitialized (connects : Bool) (keys : List String) (caller : Option Caller)
    (s : Bridge) : Bridge × List Obs :=
  if !s.routerConnected && !connects then s.resume caller
  else { s with routerConnected := true }.drain caller keys

def ensureRouter (acquired : Option Replica) (connects : Bool) (keys : List String)
    (caller : Caller) (s : Bridge) : Bridge × List Obs :=
  if s.router.isSome || !s.node then s.afterRouter caller
  else
    let s := { s with router := acquired }
    match acquired with
    | none => s.afterRouter caller
    | some router =>
        if router.initialized then s.onRouterInitialized connects keys (some caller)
        else s.afterRouter caller

/-- The recording half of `callModuleAsync`: the new call and its timer. -/
def record (caller : Caller) (argsJson : String) (callback : QJSValue) (timeoutMs : ℤ)
    (s : Bridge) : Bridge :=
  { s with
    nextRequestId := (s.nextRequestId + 1) % 2 ^ 64
    pending := s.pending.insert caller.requestId
      { callback, module := caller.module, method := caller.method, argsJson }
    timers := if timeoutMs > 0 then caller :: s.timers else s.timers }

/-- The call that the next `callModuleAsync` makes. -/
def nextCaller (module method : String) (s : Bridge) : Caller :=
  ⟨Nat.repr ((s.nextRequestId + 1) % 2 ^ 64), module, method⟩

def callModuleAsync (module method argsJson : String) (callback : QJSValue) (timeoutMs : ℤ)
    (acquired : Option Replica) (connects : Bool) (keys : List String) (s : Bridge) :
    Bridge × List Obs :=
  let caller := s.nextCaller module method
  let recorded := s.record caller argsJson callback timeoutMs
  let done :=
    if !s.node then recorded.deliver caller.requestId (noBackend caller)
    else recorded.ensureRouter acquired connects keys caller
  (done.1, .issued caller callback :: done.2)

def onCallCompleted (requestId payload : String) (s : Bridge) : Bridge × List Obs :=
  let done := s.deliver requestId payload
  (done.1, .completed requestId payload :: done.2)

def timeout (caller : Caller) (s : Bridge) : Bridge × List Obs :=
  { s with timers := s.timers.erase caller }.deliver caller.requestId (timedOut caller)

def pendingCallIds (s : Bridge) : List String := s.pending.keys

end Bridge

inductive Action where
  | callModuleAsync (module method : String) (args : List QVariant) (callback : QJSValue)
      (timeoutMs : ℤ) (acquired : Option Replica) (connects : Bool) (keys : List String)
  | initialized (connects : Bool) (keys : List String)
  | connectionLost
  | nodeDestroyed
  | onCallCompleted (requestId payload : String)
  | timeout (caller : Caller)
  | ret

section machine

variable (argsToJson : List QVariant → String)

def step (s : Bridge) : Action → Option (Bridge × List Obs)
  | .callModuleAsync module method args callback timeoutMs acquired connects keys =>
      let recorded := s.record (s.nextCaller module method) (argsToJson args) callback timeoutMs
      if keys.Perm recorded.pending.keys then
        some (s.callModuleAsync module method (argsToJson args) callback timeoutMs acquired
          connects keys)
      else none
  | .initialized connects keys =>
      if s.router.isSome ∧ keys.Perm s.pending.keys then
        some ({ s with router := some ⟨true, true⟩ }.onRouterInitialized connects keys none)
      else none
  | .connectionLost =>
      some ({ s with router := s.router.map fun router => { router with live := false } }, [])
  | .nodeDestroyed => some ({ s with node := false }, [])
  | .onCallCompleted requestId payload => some (s.onCallCompleted requestId payload)
  | .timeout caller => if caller ∈ s.timers then some (s.timeout caller) else none
  | .ret =>
      match s.stack with
      | [] => none
      | frame :: stack => some ({ s with stack }.drain frame.caller frame.waiting)

/-- What each of the steps comes to. -/
inductive Steps (s : Bridge) : Action → Bridge → List Obs → Prop
  | callModuleAsync (module method : String) (args : List QVariant) (callback : QJSValue)
      (timeoutMs : ℤ) (acquired : Option Replica) (connects : Bool) (keys : List String) :
      keys.Perm (s.record (s.nextCaller module method) (argsToJson args) callback
        timeoutMs).pending.keys →
      Steps s (.callModuleAsync module method args callback timeoutMs acquired connects keys)
        (s.callModuleAsync module method (argsToJson args) callback timeoutMs acquired connects
          keys).1
        (s.callModuleAsync module method (argsToJson args) callback timeoutMs acquired connects
          keys).2
  | initialized (connects : Bool) (keys : List String) :
      s.router.isSome = true → keys.Perm s.pending.keys →
      Steps s (.initialized connects keys)
        ({ s with router := some ⟨true, true⟩ }.onRouterInitialized connects keys none).1
        ({ s with router := some ⟨true, true⟩ }.onRouterInitialized connects keys none).2
  | connectionLost : Steps s .connectionLost
      { s with router := s.router.map fun router => { router with live := false } } []
  | nodeDestroyed : Steps s .nodeDestroyed { s with node := false } []
  | onCallCompleted (id payload : String) : Steps s (.onCallCompleted id payload)
      (s.onCallCompleted id payload).1 (s.onCallCompleted id payload).2
  | timeout (caller : Caller) : caller ∈ s.timers →
      Steps s (.timeout caller) (s.timeout caller).1 (s.timeout caller).2
  | ret (frame : Frame) (stack : List Frame) : s.stack = frame :: stack →
      Steps s .ret ({ s with stack }.drain frame.caller frame.waiting).1
        ({ s with stack }.drain frame.caller frame.waiting).2

variable {argsToJson} in
theorem step_cases {s s' : Bridge} {a : Action} {os : List Obs}
    (hs : step argsToJson s a = some (s', os)) : Steps argsToJson s a s' os := by
  cases a with
  | callModuleAsync module method args callback timeoutMs acquired connects keys =>
      obtain ⟨hkeys, rfl, rfl⟩ := Reactive.Machine.taken_if hs
      exact .callModuleAsync module method args callback timeoutMs acquired connects keys hkeys
  | initialized connects keys =>
      obtain ⟨⟨hrouter, hkeys⟩, rfl, rfl⟩ := Reactive.Machine.taken_if hs
      exact .initialized connects keys hrouter hkeys
  | connectionLost =>
      obtain ⟨rfl, rfl⟩ := Prod.mk.inj (Option.some.inj hs)
      exact .connectionLost
  | nodeDestroyed =>
      obtain ⟨rfl, rfl⟩ := Prod.mk.inj (Option.some.inj hs)
      exact .nodeDestroyed
  | onCallCompleted id payload =>
      obtain ⟨rfl, rfl⟩ := Prod.mk.inj (Option.some.inj hs)
      exact .onCallCompleted id payload
  | timeout caller =>
      obtain ⟨hm, rfl, rfl⟩ := Reactive.Machine.taken_if hs
      exact .timeout caller hm
  | ret =>
      simp only [step] at hs
      split at hs
      · cases hs
      · rename_i frame stack hstack
        obtain ⟨rfl, rfl⟩ := Prod.mk.inj (Option.some.inj hs)
        exact .ret frame stack hstack

/-- One bridge, with or without a node. -/
def machine (node : Bool) : Reactive.Machine Bridge Action Obs where
  init := { node }
  step := step argsToJson

end machine

/-! ### What the environment is assumed to do -/

def issuedIds (tr : List Obs) : List String := tr.filterMap fun
  | .issued caller _ => some caller.requestId
  | _ => none

/-- There are fewer than `2 ^ 64` calls. -/
def Assumed (tr : List Obs) (_ : Bridge) : Action → Prop
  | .callModuleAsync .. => (issuedIds tr).length + 1 < 2 ^ 64
  | _ => True

instance (tr : List Obs) (s : Bridge) : (a : Action) → Decidable (Assumed tr s a)
  | .callModuleAsync .. => inferInstanceAs (Decidable ((issuedIds tr).length + 1 < 2 ^ 64))
  | .initialized .. | .connectionLost | .nodeDestroyed | .onCallCompleted .. | .timeout _ | .ret =>
      inferInstanceAs (Decidable True)

/-- The router's reply signal can be connected. -/
def Connects : Action → Prop
  | .callModuleAsync _ _ _ _ _ _ connects _ | .initialized connects _ => connects = true
  | _ => True

instance : (a : Action) → Decidable (Connects a)
  | .callModuleAsync _ _ _ _ _ _ connects _ | .initialized connects _ =>
      inferInstanceAs (Decidable (connects = true))
  | .connectionLost | .nodeDestroyed | .onCallCompleted .. | .timeout _ | .ret =>
      inferInstanceAs (Decidable True)

end LogosViewRuntime.Web
