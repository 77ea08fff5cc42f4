import LogosViewRuntime.Lib.Machine
import Mathlib.Logic.Function.Basic

/-! # `LogosLoopbackMessagePort`

The two ends of a loopback pair with the event loop they share.

* **Queued lambdas.**  `Event` lists what `QMetaObject::invokeMethod` puts into the event queue,
  each with the port it is posted on; destroying that port removes it from the queue.  `turn` runs
  the oldest one, first in first out, on an empty stack.
* **Slots.**  Emitting `messageReceived` or `closed` calls foreign code.  The `Frame` under it says
  where the port goes on when the slots return (`ret`): a backlog flush emits its next message, a
  `close` queues the peer's close.  Until then the slots may call any port function. -/

namespace LogosViewRuntime.Loopback

open Reactive

abbrev QByteArray := List UInt8

inductive End where
  | a
  | b
deriving DecidableEq, Repr

/-- `m_peer`, as `createPair` wires it. -/
def End.peer : End → End
  | .a => .b
  | .b => .a

@[simp] theorem End.peer_peer (e : End) : e.peer.peer = e := by cases e <;> rfl

theorem End.peer_eq_iff {e e' : End} : e.peer = e' ↔ e = e'.peer := by
  cases e <;> cases e' <;> decide

structure Port where
  alive : Bool := true
  opened : Bool := true
  started : Bool := false
  queued : List QByteArray := []

/-- A queued lambda; `port` is the object it is posted on. -/
inductive Event where
  | deliver (port : End) (message : QByteArray)
  | flush (port : End) (queued : List QByteArray)
  | closePeer (port : End)
deriving DecidableEq, Repr

def Event.port : Event → End
  | .deliver port _ => port
  | .flush port _ => port
  | .closePeer port => port

/-- Where a port goes on when the slots it called return. -/
inductive Frame where
  | deliver (port : End)
  | flush (port : End) (rest : List QByteArray)
  | close (port : End)
deriving DecidableEq, Repr

def Frame.port : Frame → End
  | .deliver port => port
  | .flush port _ => port
  | .close port => port

structure Pair where
  port : End → Port := fun _ => {}
  queue : List Event := []
  stack : List Frame := []

inductive Obs where
  | posted (port : End) (message : QByteArray)
  | messageReceived (port : End) (message : QByteArray)
  | closed (port : End)
deriving DecidableEq, Repr

namespace Pair

def isOpen (e : End) (s : Pair) : Bool :=
  (s.port e).opened && (s.port e.peer).alive && (s.port e.peer).opened

/-- Write back one of the ports. -/
def setPort (e : End) (p : Port) (s : Pair) : Pair := { s with port := Function.update s.port e p }

@[simp] theorem setPort_queue (e : End) (p : Port) (s : Pair) : (s.setPort e p).queue = s.queue :=
  rfl

@[simp] theorem setPort_stack (e : End) (p : Port) (s : Pair) : (s.setPort e p).stack = s.stack :=
  rfl

@[simp] theorem setPort_port (e : End) (p : Port) (s : Pair) :
    (s.setPort e p).port = Function.update s.port e p := rfl

def post (e : End) (message : QByteArray) (s : Pair) : Pair × List Obs :=
  if !s.isOpen e then (s, [])
  else ({ s with queue := s.queue ++ [.deliver e message] }, [.posted e message])

def deliver (e : End) (message : QByteArray) (s : Pair) : Pair × List Obs :=
  if !(s.port e).opened then (s, [])
  else if !(s.port e).started then
    (s.setPort e { s.port e with queued := (s.port e).queued ++ [message] }, [])
  else ({ s with stack := .deliver e :: s.stack }, [.messageReceived e message])

/-- The loop of the lambda `start` queues, from `queued` on. -/
def flush (e : End) (queued : List QByteArray) (s : Pair) : Pair × List Obs :=
  match queued with
  | [] => (s, [])
  | message :: rest => ({ s with stack := .flush e rest :: s.stack }, [.messageReceived e message])

def start (e : End) (s : Pair) : Pair :=
  if (s.port e).started then s
  else
    let queued := (s.port e).queued
    let s := s.setPort e { s.port e with started := true, queued := [] }
    if queued = [] then s else { s with queue := s.queue ++ [.flush e queued] }

def close (e : End) (s : Pair) : Pair × List Obs :=
  if !(s.port e).opened then (s, [])
  else
    let s := s.setPort e { s.port e with opened := false }
    ({ s with stack := .close e :: s.stack }, [.closed e])

/-- Run a queued lambda. -/
def runEvent (s : Pair) : Event → Pair × List Obs
  | .deliver e message => if (s.port e.peer).alive then s.deliver e.peer message else (s, [])
  | .flush e queued => if (s.port e).opened then s.flush e queued else (s, [])
  | .closePeer e => if (s.port e.peer).alive then s.close e.peer else (s, [])

/-- The slots called last return. -/
def ret (s : Pair) : Option (Pair × List Obs) :=
  match s.stack with
  | [] => none
  | .deliver _ :: stack => some ({ s with stack }, [])
  | .flush e rest :: stack => some (({ s with stack } : Pair).flush e rest)
  | .close e :: stack => some ({ s with stack, queue := s.queue ++ [.closePeer e] }, [])

def destroy (e : End) (s : Pair) : Pair :=
  { s.setPort e { s.port e with alive := false } with
    queue := s.queue.filter fun event => event.port ≠ e }

end Pair

inductive Action where
  | post (port : End) (message : QByteArray)
  | start (port : End)
  | close (port : End)
  | destroy (port : End)
  | turn
  | ret

def step (s : Pair) : Action → Option (Pair × List Obs)
  | .post e message => if (s.port e).alive then some (s.post e message) else none
  | .start e => if (s.port e).alive then some (s.start e, []) else none
  | .close e => if (s.port e).alive then some (s.close e) else none
  -- a port is not deleted inside one of its own functions, which would go on without it
  | .destroy e =>
      if (s.port e).alive ∧ ∀ frame ∈ s.stack, frame.port ≠ e then some (s.destroy e, []) else none
  | .turn =>
      match s.stack, s.queue with
      | [], event :: queue => some (({ s with queue } : Pair).runEvent event)
      | _, _ => none
  | .ret => s.ret

/-- A fresh pair. -/
def machine : Reactive.Machine Pair Action Obs where
  init := {}
  step := step

/-! ### A started end stays started -/

variable {s s' : Pair} {os : List Obs} {a : Action}

theorem setPort_started (e e' : End) {p : Port} (s : Pair)
    (hp : (s.port e).started = true → p.started = true) (h : (s.port e').started = true) :
    ((s.setPort e p).port e').started = true := by
  by_cases he : e' = e
  · subst he
    simpa using hp h
  · simpa [Function.update_of_ne he] using h

theorem deliver_started (e e' : End) (message : QByteArray) (s : Pair)
    (h : (s.port e').started = true) : ((s.deliver e message).1.port e').started = true := by
  unfold Pair.deliver
  split_ifs
  · exact h
  · exact setPort_started e e' s id h
  · exact h

theorem flush_started (e e' : End) (queued : List QByteArray) (s : Pair)
    (h : (s.port e').started = true) : ((s.flush e queued).1.port e').started = true := by
  cases queued <;> exact h

theorem close_started (e e' : End) (s : Pair)
    (h : (s.port e').started = true) : ((s.close e).1.port e').started = true := by
  unfold Pair.close
  split_ifs
  · exact h
  · exact setPort_started e e' s id h

theorem step_started (hs : step s a = some (s', os)) (e : End)
    (h : (s.port e).started = true) : (s'.port e).started = true := by
  cases a with
  | post e' message =>
      obtain ⟨-, rfl, -⟩ := Machine.taken_if hs
      unfold Pair.post
      split_ifs <;> exact h
  | start e' =>
      obtain ⟨-, rfl, -⟩ := Machine.taken_if hs
      simp only [Pair.start]
      split_ifs
      · exact h
      · exact setPort_started e' e s (fun _ => rfl) h
      · exact setPort_started e' e s (fun _ => rfl) h
  | close e' =>
      obtain ⟨-, rfl, -⟩ := Machine.taken_if hs
      exact close_started e' e s h
  | destroy e' =>
      obtain ⟨-, rfl, -⟩ := Machine.taken_if hs
      exact setPort_started e' e s id h
  | turn =>
      simp only [step] at hs
      split at hs
      · rename_i event queue hstack hqueue
        obtain rfl : (({ s with queue } : Pair).runEvent event).1 = s' := by rw [Option.some.inj hs]
        cases event with
        | deliver e' message =>
            simp only [Pair.runEvent]
            split_ifs
            · exact deliver_started _ e message _ h
            · exact h
        | flush e' queued =>
            simp only [Pair.runEvent]
            split_ifs
            · exact flush_started e' e queued _ h
            · exact h
        | closePeer e' =>
            simp only [Pair.runEvent]
            split_ifs
            · exact close_started _ e _ h
            · exact h
      · cases hs
  | ret =>
      simp only [step, Pair.ret] at hs
      split at hs
      · cases hs
      · obtain ⟨rfl, -⟩ := Prod.mk.inj (Option.some.inj hs)
        exact h
      · rename_i e' rest stack hstack
        obtain rfl : (({ s with stack } : Pair).flush e' rest).1 = s' := by rw [Option.some.inj hs]
        exact flush_started e' e rest _ h
      · obtain ⟨rfl, -⟩ := Prod.mk.inj (Option.some.inj hs)
        exact h

end LogosViewRuntime.Loopback
