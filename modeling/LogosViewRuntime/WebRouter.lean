import LogosViewRuntime.WebBridge
import Mathlib.Data.Finset.Erase
import Mathlib.Data.Finset.Insert

/-! # `LogosWebCallRouter` and the bridges that call through it

The host's router, any number of web bridges and what is under way between them.

* **Bridges** come and go: each has a number nobody else ever had, takes its own steps, and a
  `call` it invokes on a live router replica becomes a call message.
* **Router.**  A call message reaches `call` once, in any order; the handler answers by `complete`
  whenever it likes, for the first time or again.  Which bridge a call came from is written on the
  message for the statements only: `complete` is given a request id and a payload.
* **Broadcast.**  `callCompleted` is put under way to every bridge that holds a replica of the
  router, and each of these replies arrives at its bridge later, in any order. -/

namespace LogosViewRuntime.CallRouter

structure LogosWebCallRouter where
  handler : Bool := false
  inFlight : Finset String := ∅

/-- What comes of a call: nothing, an invocation of the handler, or `callCompleted` at once. -/
inductive Reaction where
  | ignored
  | handled
  | completed (payloadJson : String)

namespace LogosWebCallRouter

def setHandler (handler : Bool) (router : LogosWebCallRouter) : LogosWebCallRouter :=
  { router with handler }

/-- The second component says whether `callCompleted` is emitted. -/
def complete (requestId : String) (router : LogosWebCallRouter) : LogosWebCallRouter × Bool :=
  if requestId ∉ router.inFlight then (router, false)
  else ({ router with inFlight := router.inFlight.erase requestId }, true)

def call (requestId module method : String) (router : LogosWebCallRouter) :
    LogosWebCallRouter × Reaction :=
  if requestId = "" then (router, .ignored)
  else
    let router := { router with inFlight := insert requestId router.inFlight }
    if !router.handler then
      let done := router.complete requestId
      (done.1, if done.2 then .completed (logosWebErrorPayload "No backend router" module method)
        else .ignored)
    else (router, .handled)

/-- A router without a handler completes every call on the spot. -/
theorem call_unhandled {requestId : String} (hid : requestId ≠ "") {router : LogosWebCallRouter}
    (hhandler : router.handler = false) (module method : String) :
    router.call requestId module method =
      ({ router with inFlight := (insert requestId router.inFlight).erase requestId },
        .completed (logosWebErrorPayload "No backend router" module method)) := by
  simp [call, complete, hid, hhandler]

theorem call_handled {requestId : String} (hid : requestId ≠ "") {router : LogosWebCallRouter}
    (hhandler : router.handler = true) (module method : String) :
    router.call requestId module method =
      ({ router with inFlight := insert requestId router.inFlight }, .handled) := by
  simp [call, hid, hhandler]

end LogosWebCallRouter

/-- A `call` on its way to the router or with the handler, and the bridge that made it. -/
structure Call where
  bridge : ℕ
  requestId : String
  module : String
  method : String
  argsJson : String
deriving DecidableEq, Repr

/-- A `callCompleted` on its way to one replica. -/
structure Reply where
  target : ℕ
  requestId : String
  payload : String
deriving DecidableEq, Repr

structure System where
  bridges : QHash ℕ Web.Bridge := ∅
  created : ℕ := 0
  router : LogosWebCallRouter := {}
  calls : List Call := []
  handling : List Call := []
  handled : List Call := []
  replies : List Reply := []

/-- What a bridge does, and what the host completed for which call. -/
inductive Obs where
  | bridge (b : ℕ) (o : Web.Obs)
  | completed (b : ℕ) (requestId payload : String)
  | completedAgain (b : ℕ) (requestId payload : String)
deriving DecidableEq, Repr

/-- The call messages among the observations `os` of the bridge `b`. -/
def sent (b : ℕ) (os : List Web.Obs) : List Call := os.filterMap fun
  | .call requestId module method argsJson true _ => some ⟨b, requestId, module, method, argsJson⟩
  | _ => none

namespace System

/-- The bridges that hold a replica of the router. -/
def replicas (s : System) : List ℕ :=
  s.bridges.keys.filter fun b => (s.bridges.lookup b).any (·.router.isSome)

/-- `callCompleted` goes to every replica. -/
def broadcast (requestId payload : String) (s : System) : System :=
  { s with replies := s.replies ++ s.replicas.map (⟨·, requestId, payload⟩) }

/-- The router receives a `call`. -/
def receiveCall (call : Call) (s : System) : System × List Obs :=
  let done := s.router.call call.requestId call.module call.method
  let s := { s with router := done.1, calls := s.calls.erase call }
  match done.2 with
  | .ignored => (s, [])
  | .handled => ({ s with handling := call :: s.handling }, [])
  | .completed payload =>
      (s.broadcast call.requestId payload, [.completed call.bridge call.requestId payload])

/-- The host calls `complete`. -/
def complete (requestId payload : String) (s : System) : System :=
  let done := s.router.complete requestId
  let s := { s with router := done.1 }
  if done.2 then s.broadcast requestId payload else s

/-- A step of one bridge: its calls go under way. -/
def run (b : ℕ) (done : Web.Bridge × List Web.Obs) (s : System) : System × List Obs :=
  ({ s with
      bridges := s.bridges.insert b done.1
      calls := s.calls ++ sent b done.2 }, done.2.map (.bridge b))

/-- A reply arrives: a bridge that is not connected to `callCompleted`, or gone, does not see it. -/
def receiveReply (reply : Reply) (s : System) : System × List Obs :=
  let s := { s with replies := s.replies.erase reply }
  match s.bridges.lookup reply.target with
  | none => (s, [])
  | some bridge =>
      if bridge.routerConnected then
        s.run reply.target (bridge.deliver reply.requestId reply.payload)
      else (s, [])

end System

inductive Action where
  | createBridge (node : Bool)
  | destroyBridge (b : ℕ)
  | bridge (b : ℕ) (a : Web.Action)
  | setHandler (handler : Bool)
  | receiveCall (call : Call)
  | complete (call : Call) (payload : String)
  | completeAgain (call : Call) (payload : String)
  | receiveReply (reply : Reply)

section machine

variable (argsToJson : List QVariant → String)

def step (s : System) : Action → Option (System × List Obs)
  | .createBridge node =>
      some ({ s with bridges := s.bridges.insert s.created { node }, created := s.created + 1 }, [])
  | .destroyBridge b => some ({ s with bridges := s.bridges.erase b }, [])
  | .bridge _ (.onCallCompleted _ _) => none
  | .bridge b a =>
      match s.bridges.lookup b with
      | none => none
      | some bridge => (Web.step argsToJson bridge a).map (s.run b)
  | .setHandler handler => some ({ s with router := s.router.setHandler handler }, [])
  | .receiveCall call => if call ∈ s.calls then some (s.receiveCall call) else none
  | .complete call payload =>
      if call ∈ s.handling then
        some ({ s with handling := s.handling.erase call, handled := call :: s.handled }.complete
          call.requestId payload, [.completed call.bridge call.requestId payload])
      else none
  | .completeAgain call payload =>
      if call ∈ s.handled then
        some (s.complete call.requestId payload,
          [.completedAgain call.bridge call.requestId payload])
      else none
  | .receiveReply reply => if reply ∈ s.replies then some (s.receiveReply reply) else none

/-- One router and the bridges that come and go. -/
def machine : Reactive.Machine System Action Obs where
  init := {}
  step := step argsToJson

end machine

/-! ### What one bridge sees of a run -/

/-- A completion counts as `onCallCompleted` for the bridge whose call it was made for. -/
def project (b : ℕ) : Obs → Option Web.Obs
  | .bridge b' o => if b' = b then some o else none
  | .completed b' id payload | .completedAgain b' id payload =>
      if b' = b then some (.completed id payload) else none

def proj (b : ℕ) (tr : List Obs) : List Web.Obs := tr.filterMap (project b)

/-- A bridge makes fewer than `2 ^ 64` calls, and `callCompleted` of a `LogosWebCallRouter` can be
connected. -/
def Assumed (tr : List Obs) (s : System) : Action → Prop
  | .bridge b a =>
      (∀ bridge ∈ s.bridges.lookup b, Web.Assumed (proj b tr) bridge a) ∧ Web.Connects a
  | _ => True

instance (tr : List Obs) (s : System) : (a : Action) → Decidable (Assumed tr s a)
  | .bridge b a => inferInstanceAs (Decidable
      ((∀ bridge ∈ s.bridges.lookup b, Web.Assumed (proj b tr) bridge a) ∧ Web.Connects a))
  | .createBridge _ | .destroyBridge _ | .setHandler _ | .receiveCall _ | .complete .. |
    .completeAgain .. | .receiveReply _ => inferInstanceAs (Decidable True)

end LogosViewRuntime.CallRouter
