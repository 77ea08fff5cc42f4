import LogosViewRuntime.Lib.Machine
import LogosViewRuntime.Variant
import Mathlib.Algebra.Group.Nat.Defs

/-! # The intent half of `LogosQmlBridge`

`request`, `respond`, `deliverIntentResult`, `abandonPendingIntents`, `setIntentRouter` and the
destructor, over the bridge's pending map, its generation counter and the event queue.

* **Foreign code.**  A router method, the router's `bridgeDestroyed` and a JavaScript callback are
  code the bridge does not know.  Calling one puts a `Frame` on the stack that names the bridge
  function it was called from; while it is there any bridge operation may be called, and `ret` is
  its return.  Every such call is the last thing its bridge function does.
* **Event loop.**  A queued invocation is appended to `queue` and run by `turn`, first in first
  out.  A turn starts on an empty stack: foreign code spins no event loop of its own.
* **Engines.**  `jsEngine` is what `qjsEngine(this)` answers.  A `QPointer` to an engine is its
  id and is null once the engine is in `deadEngines`.
* **Ids.**  `QUuid::createUuid` is the environment's choice and comes in with the label. -/

namespace LogosViewRuntime.Intent

abbrev EngineId := ℕ
abbrev RouterId := ℕ

structure PendingIntent where
  callback : QJSValue
  engine : Option EngineId
  generation : ℕ
deriving DecidableEq, Repr

/-- The lambda `deliverIntentResult` queues.  The code's lambda has no `requestId`; it is kept
here to say whose callback it runs. -/
structure QueuedResult where
  requestId : String
  envelope : QVariantMap
  pending : PendingIntent

/-- The bridge functions that can be on the stack under foreign code. -/
inductive Frame where
  | request (router : RouterId) (requestId : String)
  | respond (router : RouterId) (requestId : String)
  | abandonPendingIntents (router : RouterId)
  | destructor (router : RouterId)
  | turn (requestId : String)
deriving DecidableEq, Repr

inductive Life where
  | alive
  | destroying
  | gone
deriving DecidableEq, Repr

structure Bridge where
  life : Life := .alive
  intentRouter : Option RouterId := none
  pendingIntents : QHash String PendingIntent := ∅
  intentGeneration : ℕ := 0
  jsEngine : Option EngineId := none
  deadEngines : List EngineId := []
  queue : List QueuedResult := []
  stack : List Frame := []

/-- What can be seen of a run from outside. -/
inductive Obs where
  | requested (requestId : String) (callback : QJSValue) (engine : Option EngineId)
  | routeIntent (router : RouterId) (requestId intent : String) (params : QVariantMap)
  | routeIntentResponse (router : RouterId) (requestId : String) (ok : Bool) (data : QVariant)
      (error : String)
  | delivered (requestId : String) (envelope : QVariantMap)
  | answered (requestId : String)
  | abandoned
  | intentsAbandoned (router : RouterId) (requestIds : List String)
  | invoked (requestId : String) (envelope : QVariantMap) (onStack : List Frame)
  | destroyed
  | bridgeDestroyed (router : RouterId)

namespace Bridge

/-- `QPointer<QJSEngine>::isNull`. -/
def engineIsNull (s : Bridge) : Option EngineId → Bool
  | none => true
  | some e => decide (e ∈ s.deadEngines)

def deliverIntentResult (requestId : String) (envelope : QVariantMap) (s : Bridge) :
    Bridge × List Obs :=
  match s.pendingIntents.lookup requestId with
  | none => (s, [.delivered requestId envelope])
  | some pending =>
      let s := { s with pendingIntents := s.pendingIntents.erase requestId }
      let obs := [.delivered requestId envelope, .answered requestId]
      if !pending.callback.isCallable then (s, obs)
      else if s.engineIsNull pending.engine then (s, obs)
      else ({ s with queue := s.queue ++ [⟨requestId, envelope, pending⟩] }, obs)

def failIntentLocally (requestId errorCode : String) (s : Bridge) : Bridge × List Obs :=
  s.deliverIntentResult requestId (makeEnvelope false .invalid errorCode)

/-- The recording half of `request`, before anything is routed. -/
def record (requestId : String) (callback : QJSValue) (s : Bridge) : Bridge :=
  { s with
    pendingIntents := s.pendingIntents.insert requestId
      { callback, engine := s.jsEngine, generation := s.intentGeneration } }

def request (requestId intent : String) (params : QVariantMap) (callback : QJSValue)
    (s : Bridge) : Bridge × List Obs :=
  let recorded := s.record requestId callback
  let obs : Obs := .requested requestId callback s.jsEngine
  match s.intentRouter with
  | none =>
      let failed := recorded.failIntentLocally requestId errUnavailable
      (failed.1, obs :: failed.2)
  | some router =>
      ({ recorded with stack := .request router requestId :: recorded.stack },
        [obs, .routeIntent router requestId intent params])

/-- `flattenForCrossEngine`; `toVariant` is `QJSValue::toVariant`. -/
def flattenForCrossEngine (toVariant : QJSValue → QVariant) : QVariant → QVariant
  | .jsValue v => toVariant v
  | v => v

def respond (toVariant : QJSValue → QVariant) (requestId : String) (ok : Bool) (data : QVariant)
    (error : String) (s : Bridge) : Bridge × List Obs :=
  match s.intentRouter with
  | none => (s, [])
  | some router =>
      ({ s with stack := .respond router requestId :: s.stack },
        [.routeIntentResponse router requestId ok (flattenForCrossEngine toVariant data) error])

/-- `requestIds` is the order in which the hash hands out its keys. -/
def abandonPendingIntents (requestIds : List String) (s : Bridge) : Bridge × List Obs :=
  let bumped := { s with intentGeneration := (s.intentGeneration + 1) % 2 ^ 64 }
  if s.pendingIntents.keys = [] then (bumped, [.abandoned])
  else
    let cleared := { bumped with pendingIntents := ∅ }
    match s.intentRouter with
    | none => (cleared, [.abandoned])
    | some router =>
        ({ cleared with stack := .abandonPendingIntents router :: cleared.stack },
          [.abandoned, .intentsAbandoned router requestIds])

def setIntentRouter (router : Option RouterId) (s : Bridge) : Bridge :=
  { s with intentRouter := router }

/-- What `~QObject` leaves: no queued invocation of a deleted receiver is ever run. -/
def vanish (s : Bridge) : Bridge := { s with life := .gone, queue := [] }

def destroy (s : Bridge) : Bridge × List Obs :=
  let cleared := { s with life := .destroying, pendingIntents := ∅ }
  match s.intentRouter with
  | none => (cleared.vanish, [.destroyed])
  | some router =>
      ({ cleared with intentRouter := none, stack := .destructor router :: cleared.stack },
        [.destroyed, .bridgeDestroyed router])

/-- Run the oldest queued invocation. -/
def runQueued (q : QueuedResult) (s : Bridge) : Bridge × List Obs :=
  if q.pending.generation ≠ s.intentGeneration then (s, [])
  else if s.engineIsNull q.pending.engine then (s, [])
  else if !q.pending.callback.isCallable then (s, [])
  else
    let stack := .turn q.requestId :: s.stack
    ({ s with stack }, [.invoked q.requestId q.envelope stack])

/-- Foreign code returns into the bridge function under it. -/
def ret (s : Bridge) : Option Bridge :=
  match s.stack with
  | [] => none
  | .destructor _ :: rest => some { s with stack := rest }.vanish
  | _ :: rest => some { s with stack := rest }

end Bridge

inductive Action where
  | request (requestId intent : String) (params : QVariantMap) (callback : QJSValue)
  | respond (requestId : String) (ok : Bool) (data : QVariant) (error : String)
  | deliverIntentResult (requestId : String) (envelope : QVariantMap)
  | abandonPendingIntents (requestIds : List String)
  | setIntentRouter (router : Option RouterId)
  | destroy
  | turn
  | ret
  | bindEngine (engine : Option EngineId)
  | destroyEngine (engine : EngineId)

section machine

variable (toVariant : QJSValue → QVariant)

def step (s : Bridge) : Action → Option (Bridge × List Obs)
  | .request requestId intent params callback =>
      if s.life = .gone then none else some (s.request requestId intent params callback)
  | .respond requestId ok data error =>
      if s.life = .gone then none else some (s.respond toVariant requestId ok data error)
  | .deliverIntentResult requestId envelope =>
      if s.life = .gone then none else some (s.deliverIntentResult requestId envelope)
  | .abandonPendingIntents requestIds =>
      if s.life = .gone ∨ ¬ requestIds.Perm s.pendingIntents.keys then none
      else some (s.abandonPendingIntents requestIds)
  | .setIntentRouter router =>
      if s.life = .gone then none else some (s.setIntentRouter router, [])
  | .destroy => if s.life = .alive ∧ s.stack = [] then some s.destroy else none
  | .turn =>
      match s.stack, s.queue with
      | [], q :: rest => some ({ s with queue := rest }.runQueued q)
      | _, _ => none
  | .ret => s.ret.map fun s => (s, [])
  | .bindEngine engine =>
      if s.engineIsNull engine ∧ engine ≠ none then none else some ({ s with jsEngine := engine }, [])
  | .destroyEngine engine =>
      some ({ s with
        deadEngines := engine :: s.deadEngines
        jsEngine := if s.jsEngine = some engine then none else s.jsEngine }, [])

/-- One bridge in its environment. -/
def machine : Reactive.Machine Bridge Action Obs where
  init := {}
  step := step toVariant

end machine

/-! ### What the environment is assumed to do -/

def requestedIds (tr : List Obs) : List String :=
  tr.filterMap fun
    | .requested requestId _ _ => some requestId
    | _ => none

def abandons (tr : List Obs) : ℕ := tr.countP fun
  | .abandoned => true
  | _ => false

/-- Request ids are fresh and there are fewer than `2 ^ 64` abandons. -/
def Assumed (tr : List Obs) (_ : Bridge) : Action → Prop
  | .request requestId _ _ _ => requestId ∉ requestedIds tr
  | .abandonPendingIntents _ => abandons tr + 1 < 2 ^ 64
  | _ => True

instance (tr : List Obs) (s : Bridge) : (a : Action) → Decidable (Assumed tr s a)
  | .request requestId _ _ _ => inferInstanceAs (Decidable (requestId ∉ requestedIds tr))
  | .abandonPendingIntents _ => inferInstanceAs (Decidable (abandons tr + 1 < 2 ^ 64))
  | .respond .. | .deliverIntentResult .. | .setIntentRouter _ | .destroy | .turn | .ret
  | .bindEngine _ | .destroyEngine _ => inferInstanceAs (Decidable True)

end LogosViewRuntime.Intent
