import LogosViewRuntime.LoopbackPort
import LogosViewRuntime.Variant
import Mathlib.Algebra.Group.Nat.Defs

/-! # `LogosEmscriptenMessagePort`

The ports of one wasm image and the page around it.  A port wraps a JavaScript object and is known
to JavaScript by a handle, an integer that `ports()` maps to the object as long as it lives.

* **JavaScript objects.**  A `MessagePort` has `start()`, and its messages wait until that is
  called or `onmessage` is set; a `Worker` and the page's global have no `start()`, and a message
  event that finds no `onmessage` is lost.  `dispatch` fires the event of the oldest message that
  waits at an object.
* **The page** may call `logosMessagePortDeliver` with any handle and any data whenever it likes.
* **Handles** are `int`s: each stands as the number that its 32 bits are.
* `messageReceived` and `closed` are emitted at the end of the functions that emit them, so what
  their slots do is the next label.  Calls into a JavaScript object do not come back. -/

namespace LogosViewRuntime.Emscripten

open Reactive
open Loopback (QByteArray)

/-- What a JavaScript object keeps: the handle its `onmessage` delivers to, whether its queue is
enabled, and the messages that wait. -/
structure JsPort where
  onmessage : Option ℕ := none
  enabled : Bool := false
  queue : List QByteArray := []
deriving DecidableEq, Repr

/-- A `LogosEmscriptenMessagePort`; `port` is the object it wraps. -/
structure Port where
  port : ℕ
  opened : Bool := true
  started : Bool := false
deriving DecidableEq, Repr

structure Image where
  ports : QHash ℕ Port := ∅
  /-- the last handle that was given -/
  handle : ℕ := 0
  js : ℕ → JsPort := fun _ => {}

inductive Obs where
  | constructed (handle port : ℕ)
  | published (portName : String) (handle : ℕ)
  | destroyed (handle : ℕ)
  | attached (handle port : ℕ)
  | postMessage (handle port : ℕ) (message : QByteArray)
  | jsClosed (handle port : ℕ)
  | closed (handle : ℕ)
  | arrived (port : ℕ) (message : QByteArray)
  | delivered (handle : ℕ) (data : QByteArray)
  | messageReceived (handle : ℕ) (message : QByteArray)
deriving DecidableEq, Repr

namespace Image

def setPort (handle : ℕ) (p : Port) (s : Image) : Image :=
  { s with ports := s.ports.insert handle p }

def setJs (port : ℕ) (p : JsPort) (s : Image) : Image :=
  { s with js := Function.update s.js port p }

def nextHandle (s : Image) : ℕ := (s.handle + 1) % 2 ^ 32

/-- The constructor. -/
def construct (port : ℕ) (s : Image) : Image × List Obs :=
  ({ s with handle := s.nextHandle }.setPort s.nextHandle { port },
    [.constructed s.nextHandle port])

/-- `logosAdoptMessagePort`. -/
def adopt (name : String) (port : ℕ) (s : Image) : Image × List Obs :=
  let done := s.construct port
  (done.1, done.2 ++ [.published name s.nextHandle])

/-- The destructor. -/
def destroy (handle : ℕ) (s : Image) : Image × List Obs :=
  ({ s with ports := s.ports.erase handle }, [.destroyed handle])

/-- `logos_messageport_attach`: setting `onmessage` enables the queue, and so does `start()`. -/
def attach (handle : ℕ) (port : ℕ) (s : Image) : Image × List Obs :=
  (s.setJs port { s.js port with onmessage := some handle, enabled := true },
    [.attached handle port])

def start (handle : ℕ) (p : Port) (s : Image) : Image × List Obs :=
  if p.started || !p.opened then (s, [])
  else (s.setPort handle { p with started := true }).attach handle p.port

def post (handle : ℕ) (p : Port) (message : QByteArray) (s : Image) : Image × List Obs :=
  if !p.opened then (s, []) else (s, [.postMessage handle p.port message])

/-- `hasClose` says whether the object that is wrapped has `close()`. -/
def close (hasClose : ℕ → Bool) (handle : ℕ) (p : Port) (s : Image) : Image × List Obs :=
  if !p.opened then (s, [])
  else
    (s.setPort handle { p with opened := false },
      (if hasClose p.port then [.jsClosed handle p.port] else []) ++ [.closed handle])

def deliverFromJs (handle : ℕ) (data : QByteArray) (s : Image) : List Obs :=
  .delivered handle data ::
    match s.ports.lookup handle with
    | none => []
    | some p => if !p.opened then [] else if data = [] then [] else [.messageReceived handle data]

/-- The event of the oldest message that waits at an object. -/
def dispatch (hasStart : ℕ → Bool) (port : ℕ) (s : Image) : Option (Image × List Obs) :=
  if hasStart port && !(s.js port).enabled then none
  else
    match (s.js port).queue with
    | [] => none
    | message :: queue =>
        some (s.setJs port { s.js port with queue },
          match (s.js port).onmessage with
          | none => []
          | some handle => s.deliverFromJs handle message)

/-- `isOpen` of a port that is there. -/
def isOpen (handle : ℕ) (s : Image) : Bool := (s.ports.lookup handle).any (·.opened)

/-- A function that is called on a port that is there. -/
def on (handle : ℕ) (body : Port → Image × List Obs) (s : Image) : Option (Image × List Obs) :=
  (s.ports.lookup handle).map body

end Image

inductive Action where
  | construct (port : ℕ)
  | adopt (name : String) (port : ℕ)
  | destroy (handle : ℕ)
  | start (handle : ℕ)
  | post (handle : ℕ) (message : QByteArray)
  | close (handle : ℕ)
  /-- the other end of an object posts a message to it -/
  | arrive (port : ℕ) (message : QByteArray)
  | dispatch (port : ℕ)
  /-- the page calls `logosMessagePortDeliver` -/
  | deliver (handle : ℕ) (data : QByteArray)
deriving DecidableEq, Repr

section machine

variable (hasStart hasClose : ℕ → Bool)

def step (s : Image) : Action → Option (Image × List Obs)
  | .construct port => some (s.construct port)
  | .adopt name port => some (s.adopt name port)
  | .destroy handle => s.on handle fun _ => s.destroy handle
  | .start handle => s.on handle fun p => s.start handle p
  | .post handle message => s.on handle fun p => s.post handle p message
  | .close handle => s.on handle fun p => s.close hasClose handle p
  | .arrive port message =>
      some (s.setJs port { s.js port with queue := (s.js port).queue ++ [message] },
        [.arrived port message])
  | .dispatch port => s.dispatch hasStart port
  | .deliver handle data => some (s, s.deliverFromJs handle data)

/-- An image with no ports yet. -/
def machine : Reactive.Machine Image Action Obs where
  init := {}
  step := step hasStart hasClose

end machine

end LogosViewRuntime.Emscripten
