import LogosViewRuntime.ErrorPayload
import LogosViewRuntime.Lib.OneShot
import LogosViewRuntime.Lib.Machine
import LogosViewRuntime.Variant

/-! # `LogosQmlBridge::callModuleAsync`

All the calls of one desktop bridge.  A call is the values its lambdas capture: the latch `fired`
that every lambda shares, and what still refers to the call from outside, namely the timer that is
armed, the readiness callback that `whenObjectAvailable` holds and the reply callback that the
client holds once the method was sent.

* Each lambda ends with the foreign code it calls (the JavaScript callback, the client), so what
  that code does in turn is the next label.
* The client answers a `whenObjectAvailable` at most once and a sent method any number of times,
  both also after the bridge is gone; a timer has the bridge as its context and dies with it.
* Time does not pass here: an armed timer may fire at any moment. -/

namespace LogosViewRuntime.Desktop

structure Call where
  module : String
  method : String
  args : List QVariant
  callback : QJSValue
  fired : Bool := false
  timer : Option ℤ := none
  awaited : Bool := false
  sent : Bool := false

structure Bridge where
  alive : Bool := true
  logosAPI : Bool := true
  viewModuleSockets : List String := []
  calls : List Call := []

inductive Obs where
  | called (id : ℕ)
  | timerFired (id : ℕ)
  | invokeRemoteMethodAsync (id : ℕ) (module method : String) (args : List QVariant)
  | invoked (id : ℕ) (payload : String)

def kReadinessFallbackMs : ℤ := 30000

/-! ### The lambdas of one call -/

namespace Call

def invokeCallback (id : ℕ) (payload : String) (call : Call) : Call × List Obs :=
  if call.fired then (call, [])
  else
    ({ call with fired := true }, if call.callback.isCallable then [.invoked id payload] else [])

/-- The lambda of both `singleShot` timers. -/
def timeout (id : ℕ) (call : Call) : Call × List Obs :=
  let done := { call with timer := none }.invokeCallback id
    (makeErrorPayload "timeout" call.module call.method)
  (done.1, .timerFired id :: done.2)

def dispatch (id : ℕ) (alive : Bool) (call : Call) : Call × List Obs :=
  if !alive then (call, [])
  else
    ({ call with sent := true },
      [.invokeRemoteMethodAsync id call.module call.method call.args])

/-- The callback handed to `whenObjectAvailable`. -/
def objectAvailable (id : ℕ) (alive ready : Bool) (call : Call) : Call × List Obs :=
  let call := { call with awaited := false }
  if !alive then (call, [])
  else if call.fired then (call, [])
  else if !ready then
    call.invokeCallback id (makeErrorPayload "Module not reachable" call.module ""
      "the transport reported this module permanently unavailable")
  else call.dispatch id alive

/-- The callback handed to `invokeRemoteMethodAsync`; `error` is the message of a failed call. -/
def reply (serializeResult : QVariant → String) (id : ℕ) (error : Option String)
    (result : QVariant) (call : Call) : Call × List Obs :=
  match error, result with
  | some message, _ => call.invokeCallback id
      (makeErrorPayload "Module source unavailable" call.module call.method message)
  | none, .invalid => call.invokeCallback id
      (makeErrorPayload "Invalid response" call.module call.method)
  | none, result => call.invokeCallback id (serializeResult result)

end Call

namespace Bridge

/-- The body of `callModuleAsync` for its new call; `client` is what `getClient` answers. -/
def begin (id : ℕ) (client : Bool) (timeoutMs : ℤ) (call : Call) (s : Bridge) : Call × List Obs :=
  if call.module ∈ s.viewModuleSockets then
    call.invokeCallback id "\x7b\"error\":\"view modules must be called via logos.module()\"\x7d"
  else if !s.logosAPI then
    call.invokeCallback id "\x7b\"error\":\"LogosAPI not available\"\x7d"
  else if !client then
    call.invokeCallback id (makeErrorPayload "Module not connected" call.module)
  else
    let readinessBudgetMs := if timeoutMs > 0 then timeoutMs else kReadinessFallbackMs
    ({ call with timer := some readinessBudgetMs, awaited := true }, [])

def callModuleAsync (module method : String) (args : List QVariant) (callback : QJSValue)
    (timeoutMs : ℤ) (client : Bool) (s : Bridge) : Bridge × List Obs :=
  let id := s.calls.length
  let begun := s.begin id client timeoutMs { module, method, args, callback }
  ({ s with calls := s.calls ++ [begun.1] }, .called id :: begun.2)

/-- Run a lambda of the call `id`, if something still refers to it. -/
def runLambda (id : ℕ) (held : Call → Bool) (body : Call → Call × List Obs) (s : Bridge) :
    Option (Bridge × List Obs) :=
  match s.calls[id]? with
  | none => none
  | some call =>
      if held call then some ({ s with calls := s.calls.set id (body call).1 }, (body call).2)
      else none

end Bridge

inductive Action where
  | callModuleAsync (module method : String) (args : List QVariant) (callback : QJSValue)
      (timeoutMs : ℤ) (client : Bool)
  | timeout (id : ℕ)
  | objectAvailable (id : ℕ) (ready : Bool)
  | reply (id : ℕ) (error : Option String) (result : QVariant)
  | setViewModuleSocket (module : String)
  | destroy

section machine

variable (serializeResult : QVariant → String)

def step (s : Bridge) : Action → Option (Bridge × List Obs)
  | .callModuleAsync module method args callback timeoutMs client =>
      if s.alive then some (s.callModuleAsync module method args callback timeoutMs client)
      else none
  | .timeout id => s.runLambda id (fun call => s.alive && call.timer.isSome) fun call =>
      call.timeout id
  | .objectAvailable id ready => s.runLambda id (·.awaited) fun call =>
      call.objectAvailable id s.alive ready
  | .reply id error result => s.runLambda id (·.sent) fun call =>
      call.reply serializeResult id error result
  | .setViewModuleSocket module =>
      if s.alive then some ({ s with viewModuleSockets := module :: s.viewModuleSockets }, [])
      else none
  | .destroy => if s.alive then some ({ s with alive := false }, []) else none

/-- One bridge, with or without a `LogosAPI`. -/
def machine (logosAPI : Bool) : Reactive.Machine Bridge Action Obs where
  init := { logosAPI }
  step := step serializeResult

end machine

end LogosViewRuntime.Desktop
