import LogosViewRuntime.LoopbackLast
import LogosViewRuntime.PortDevice

/-! # Two devices on a loopback pair

The wire of a module and its view: a `LogosMessagePortDevice` on each end of a loopback pair.  The
pair, the event loop and what may happen to the ends are those of `LoopbackPort`; the ends are
posted on by the devices only, and started when a device is put on them.

A byte that was written on one end is, until it is read on the other, with the ends or in the buffer
of the device (`run_linked`). -/

namespace LogosViewRuntime.DeviceLink

open Reactive Loopback

structure Device where
  opened : Bool := true
  /-- The slots of `disconnected` are running, `onPortClosed` goes on with `close`. -/
  disconnecting : Bool := false
  bytes : PortDevice.Device := {}

structure Link where
  pair : Pair := {}
  device : End → Option Device := fun _ => none

inductive Obs where
  | port (o : Loopback.Obs)
  | readyRead (port : End)
  | disconnected (port : End)
  | aboutToClose (port : End)
  | wrote (port : End) (data : List UInt8) (n : ℤ)
  | read (port : End) (maxSize n : ℤ) (data : List UInt8)
deriving DecidableEq, Repr

namespace Link

def setDevice (e : End) (d : Device) (l : Link) : Link :=
  { l with device := Function.update l.device e (some d) }

@[simp] theorem setDevice_pair (e : End) (d : Device) (l : Link) :
    (l.setDevice e d).pair = l.pair := rfl

@[simp] theorem setDevice_device (e : End) (d : Device) (l : Link) :
    (l.setDevice e d).device = Function.update l.device e (some d) := rfl

/-- The constructor: `start` comes last. -/
def construct (e : End) (l : Link) : Link :=
  { l.setDevice e {} with pair := l.pair.start e }

/-- What is returned comes last. -/
def writeData (e : End) (data : List UInt8) (l : Link) : Link × List Obs × ℤ :=
  if !(l.pair.port e).alive || !l.pair.isOpen e then (l, [], -1)
  else
    let done := l.pair.post e data
    ({ l with pair := done.1 }, done.2.map .port, data.length)

/-- `QIODevice::close` with the device's own test. -/
def close (e : End) (d : Device) (l : Link) : Link × List Obs :=
  if !d.opened then (l, [])
  else (l.setDevice e { d with opened := false }, [.aboutToClose e])

def onMessage (e : End) (message : QByteArray) (d : Device) (l : Link) : Link × List Obs :=
  let done := d.bytes.onMessage message
  (l.setDevice e { d with bytes := done.1 }, if done.2 then [.readyRead e] else [])

/-- The first half of `onPortClosed`, up to the slots of `disconnected`. -/
def onPortClosed (e : End) (d : Device) (l : Link) : Link × List Obs :=
  (l.setDevice e { d with disconnecting := true }, [.disconnected e])

/-- The second half. -/
def onPortClosedReturned (e : End) (d : Device) (l : Link) : Link × List Obs :=
  let d := { d with disconnecting := false }
  (l.setDevice e d).close e d

/-- What the slots of the device on an end do when the end emits. -/
def hear (l : Link) (o : Loopback.Obs) : Link × List Obs :=
  match o with
  | .posted .. => (l, [])
  | .messageReceived e message =>
      match l.device e with
      | some d => l.onMessage e message d
      | none => (l, [])
  | .closed e =>
      match l.device e with
      | some d => l.onPortClosed e d
      | none => (l, [])

/-- What the ends emit one after the other. -/
def heard (l : Link) : List Loopback.Obs → Link × List Obs
  | [] => (l, [])
  | o :: os =>
      let done := l.hear o
      let rest := done.1.heard os
      (rest.1, .port o :: done.2 ++ rest.2)

/-- The ends take a step. -/
def moved (l : Link) (a : Loopback.Action) : Option (Link × List Obs) :=
  (Loopback.step l.pair a).map fun done => ({ l with pair := done.1 } : Link).heard done.2

end Link

inductive Action where
  | construct (port : End)
  | write (port : End) (data : List UInt8)
  | read (port : End) (maxSize : ℤ)
  | close (port : End)
  | closePort (port : End)
  | destroyPort (port : End)
  | turn
  | ret

def step (l : Link) : Action → Option (Link × List Obs)
  -- an end gets one device in its life
  | .construct e =>
      if (l.pair.port e).alive ∧ (l.device e).isNone then some (l.construct e, []) else none
  | .write e data =>
      match l.device e with
      | none => none
      | some d =>
          -- `QIODevice::write` does not call `writeData` on a device that is not open
          if !d.opened then some (l, [.wrote e data (-1)])
          else
            let done := l.writeData e data
            some (done.1, done.2.1 ++ [.wrote e data done.2.2])
  | .read e maxSize =>
      match l.device e with
      | none => none
      | some d =>
          if maxSize < 0 then none
          else if !d.opened then some (l, [.read e maxSize (-1) []])
          else
            let done := d.bytes.readData maxSize
            some (l.setDevice e { d with bytes := done.1 }, [.read e maxSize done.2.1 done.2.2])
  | .close e => (l.device e).map fun d => l.close e d
  | .closePort e => l.moved (.close e)
  | .destroyPort e => l.moved (.destroy e)
  | .turn => l.moved .turn
  | .ret =>
      match l.pair.stack with
      | .close e :: _ =>
          match l.device e with
          | some d => if d.disconnecting then some (l.onPortClosedReturned e d) else l.moved .ret
          | none => l.moved .ret
      | _ => l.moved .ret

/-- A fresh pair without devices. -/
def machine : Machine Link Action Obs where
  init := {}
  step := step

/-! ### What is written, read and under way -/

/-- What the ends did. -/
def ports (tr : List Obs) : List Loopback.Obs :=
  tr.filterMap fun | .port o => some o | _ => none

/-- The bytes that were accepted on `e`. -/
def written (e : End) (tr : List Obs) : List UInt8 :=
  tr.flatMap fun | .wrote e' data n => if e' = e ∧ 0 ≤ n then data else [] | _ => []

/-- The bytes that were read on `e`. -/
def returned (e : End) (tr : List Obs) : List UInt8 :=
  tr.flatMap fun | .read e' _ _ data => if e' = e then data else [] | _ => []

namespace Link

/-- The bytes that arrived at `e` and were not read. -/
def unread (e : End) (l : Link) : List UInt8 :=
  match l.device e with
  | some d => d.bytes.unread
  | none => []

/-- What `e` would still read if nothing more happened to it, in order. -/
def stream (e : End) (l : Link) : List UInt8 := l.unread e ++ (ahead e l.pair).flatten

theorem unread_eq {e : End} {d : Device} {l : Link} (h : l.device e = some d) :
    l.unread e = d.bytes.unread := by rw [unread, h]

@[simp] theorem unread_setDevice_self (e : End) (d : Device) (l : Link) :
    (l.setDevice e d).unread e = d.bytes.unread := unread_eq (by simp)

theorem unread_of_isNone {e : End} {l : Link} (h : (l.device e).isSome = false) :
    l.unread e = [] := by
  have hnone : l.device e = none := by simpa using h
  rw [unread, hnone]

/-- Another device, with the same bytes. -/
theorem unread_setDevice {e : End} {d d' : Device} {l : Link} (h : l.device e = some d)
    (hbytes : d'.bytes = d.bytes) (e' : End) : (l.setDevice e d').unread e' = l.unread e' := by
  by_cases he : e' = e
  · rw [he, unread_eq h, unread_setDevice_self, hbytes]
  · simp [unread, Function.update_of_ne he]

end Link

@[simp] theorem ports_append (tr os : List Obs) : ports (tr ++ os) = ports tr ++ ports os :=
  List.filterMap_append

@[simp] theorem written_append (e : End) (tr os : List Obs) :
    written e (tr ++ os) = written e tr ++ written e os := List.flatMap_append

@[simp] theorem returned_append (e : End) (tr os : List Obs) :
    returned e (tr ++ os) = returned e tr ++ returned e os := List.flatMap_append

/-- What the stream to `e` sees. -/
def streamed (e : End) : Obs → List (Fifo.Obs UInt8)
  | .wrote e' data n => if e' = e.peer ∧ 0 ≤ n then [.put data] else []
  | .read e' _ _ data => if e' = e then [.got data.length data] else []
  | _ => []

theorem entered_streamed (e : End) (tr : List Obs) :
    Fifo.entered (tr.flatMap (streamed e)) = written e.peer tr := by
  rw [Fifo.entered, List.flatMap_assoc, written]
  congr 1
  funext o
  cases o with
  | wrote e' data n =>
      simp only [streamed]
      split_ifs <;> simp
  | read e' maxSize n data =>
      simp only [streamed]
      split_ifs <;> simp
  | port | readyRead | disconnected | aboutToClose => rfl

theorem left_streamed (e : End) (tr : List Obs) :
    Fifo.left (tr.flatMap (streamed e)) = returned e tr := by
  rw [Fifo.left, List.flatMap_assoc, returned]
  congr 1
  funext o
  cases o with
  | wrote e' data n =>
      simp only [streamed]
      split_ifs <;> simp
  | read e' maxSize n data =>
      simp only [streamed]
      split_ifs <;> simp
  | port | readyRead | disconnected | aboutToClose => rfl

/-! ### What the devices hear -/

/-- What is heard goes to the end of the buffers, and nothing else is touched. -/
structure Hears (l l' : Link) (os : List Loopback.Obs) (seen : List Obs) : Prop where
  pair : l'.pair = l.pair
  ports : ports seen = os
  streamed : ∀ e, seen.flatMap (streamed e) = []
  device : ∀ e, (l'.device e).isSome = (l.device e).isSome
  sane : (∀ e d, l.device e = some d → d.bytes.Sane) → ∀ e d, l'.device e = some d → d.bytes.Sane
  unread : (∀ e d, l.device e = some d → d.bytes.Sane) →
    ∀ e, (l.device e).isSome = true → l'.unread e = l.unread e ++ (received e os).flatten

namespace Hears

theorem written {l l' : Link} {os : List Loopback.Obs} {seen : List Obs} (h : Hears l l' os seen)
    (e : End) : DeviceLink.written e seen = [] := by
  have hentered := entered_streamed e.peer seen
  rw [h.streamed, End.peer_peer] at hentered
  exact hentered.symm

theorem returned {l l' : Link} {os : List Loopback.Obs} {seen : List Obs} (h : Hears l l' os seen)
    (e : End) : DeviceLink.returned e seen = [] := by
  have hleft := left_streamed e seen
  rw [h.streamed] at hleft
  exact hleft.symm

theorem refl (l : Link) : Hears l l [] [] where
  pair := rfl
  ports := rfl
  streamed _ := rfl
  device _ := rfl
  sane h := h
  unread _ e _ := by simp

theorem trans {l l₁ l₂ : Link} {os os₁ : List Loopback.Obs} {seen seen₁ : List Obs}
    (h : Hears l l₁ os seen) (h₁ : Hears l₁ l₂ os₁ seen₁) :
    Hears l l₂ (os ++ os₁) (seen ++ seen₁) where
  pair := h₁.pair.trans h.pair
  ports := by rw [ports_append, h.ports, h₁.ports]
  streamed e := by rw [List.flatMap_append, h.streamed, h₁.streamed, List.append_nil]
  device e := (h₁.device e).trans (h.device e)
  sane hsane := h₁.sane (h.sane hsane)
  unread hsane e hsome := by
    rw [h₁.unread (h.sane hsane) e ((h.device e).trans hsome), h.unread hsane e hsome]
    simp

/-- A device is changed, its bytes as they were. -/
theorem setDevice {l : Link} {e : End} {d : Device} (h : l.device e = some d) (d' : Device)
    (hbytes : d'.bytes = d.bytes) (seen : List Obs) (hports : DeviceLink.ports seen = [])
    (hstreamed : ∀ e, seen.flatMap (DeviceLink.streamed e) = []) :
    Hears l (l.setDevice e d') [] seen where
  pair := rfl
  ports := hports
  streamed := hstreamed
  device e' := by
    simp only [Link.setDevice_device, Function.update_apply]
    split_ifs with he
    · rw [he, h]
      rfl
    · rfl
  sane hsane e' d₁ hd := by
    simp only [Link.setDevice_device, Function.update_apply] at hd
    split_ifs at hd with he
    · obtain rfl := Option.some.inj hd
      rw [hbytes]
      exact hsane e d h
    · exact hsane e' d₁ hd
  unread _ e' _ := by simp [Link.unread_setDevice h hbytes]

theorem close {l : Link} {e : End} {d : Device} (h : l.device e = some d) :
    Hears l (l.close e d).1 [] (l.close e d).2 := by
  unfold Link.close
  split_ifs
  · exact refl l
  · exact setDevice h { d with opened := false } rfl [.aboutToClose e] rfl fun _ => rfl

theorem onMessage {l : Link} {e : End} {d : Device} (h : l.device e = some d)
    (message : QByteArray) :
    Hears l (l.onMessage e message d).1 [.messageReceived e message]
      (.port (.messageReceived e message) :: (l.onMessage e message d).2) where
  pair := rfl
  ports := by
    simp only [Link.onMessage]
    split_ifs <;> rfl
  streamed e' := by
    simp only [Link.onMessage]
    split_ifs <;> rfl
  device e' := by
    simp only [Link.onMessage, Link.setDevice_device, Function.update_apply]
    split_ifs with he
    · rw [he, h]
      rfl
    · rfl
  sane hsane e' d' hd := by
    simp only [Link.onMessage, Link.setDevice_device, Function.update_apply] at hd
    split_ifs at hd with he
    · obtain rfl := Option.some.inj hd
      exact ((hsane e d h).onMessage message).1
    · exact hsane e' d' hd
  unread hsane e' _ := by
    by_cases he : e' = e
    · subst he
      have hset : (l.onMessage e' message d).1.device e' =
          some { d with bytes := (d.bytes.onMessage message).1 } := by simp [Link.onMessage]
      rw [Link.unread_eq h, Link.unread_eq hset]
      simpa using ((hsane e' d h).onMessage message).2
    · simp [Link.onMessage, Link.unread, Function.update_of_ne he, Ne.symm he]

theorem hear (l : Link) (o : Loopback.Obs) :
    Hears l (l.hear o).1 [o] (.port o :: (l.hear o).2) := by
  have hlost : ∀ o, (∀ e, (l.device e).isSome = true → received e [o] = []) →
      Hears l l [o] [.port o] := fun o ho =>
    { refl l with
      ports := rfl
      streamed := fun _ => rfl
      unread := fun _ e hsome => by simp [ho e hsome] }
  cases o with
  | posted e message => exact hlost _ fun _ _ => rfl
  | messageReceived e message =>
      simp only [Link.hear]
      cases hd : l.device e with
      | some d => exact onMessage hd message
      | none =>
          refine hlost _ fun e' hsome => ?_
          have he : e ≠ e' := by
            rintro rfl
            rw [hd] at hsome
            cases hsome
          simp [he]
  | closed e =>
      simp only [Link.hear]
      cases hd : l.device e with
      | some d =>
          have hset := setDevice hd { d with disconnecting := true } rfl [.disconnected e] rfl
            fun _ => rfl
          exact { hset with ports := rfl }
      | none => exact hlost _ fun _ _ => rfl

theorem heard (os : List Loopback.Obs) (l : Link) : Hears l (l.heard os).1 os (l.heard os).2 := by
  induction os generalizing l with
  | nil => exact refl l
  | cons o os ih => exact (hear l o).trans (ih (l.hear o).1)

end Hears

/-! ### Steps -/

variable {tr os : List Obs} {l l' : Link} {a : Action}

/-- What a step does. -/
inductive Steps (l : Link) : Action → Link × List Obs → Prop
  | construct (e : End) (s : Pair) (hnone : l.device e = none)
      (hs : Loopback.step l.pair (.start e) = some (s, [])) :
      Steps l (.construct e) ({ l.setDevice e {} with pair := s }, [])
  | wrote (e : End) (data : List UInt8) (s : Pair)
      (hs : Loopback.step l.pair (.post e data) = some (s, [.posted e data])) :
      Steps l (.write e data)
        ({ l with pair := s }, [.port (.posted e data), .wrote e data data.length])
  | unwritten (e : End) (data : List UInt8) : Steps l (.write e data) (l, [.wrote e data (-1)])
  | read (e : End) (d : Device) (maxSize : ℤ) (hd : l.device e = some d) (hsize : 0 ≤ maxSize) :
      Steps l (.read e maxSize)
        (l.setDevice e { d with bytes := (d.bytes.readData maxSize).1 },
          [.read e maxSize (d.bytes.readData maxSize).2.1 (d.bytes.readData maxSize).2.2])
  | unreadable (e : End) (maxSize : ℤ) : Steps l (.read e maxSize) (l, [.read e maxSize (-1) []])
  | hears {a : Action} {l' : Link} {os : List Obs} (ha : a ≠ .turn)
      (hears : Hears l l' [] os) : Steps l a (l', os)
  | moved {a : Action} {l' : Link} {os : List Obs} (b : Loopback.Action) (s : Pair)
      (done : List Loopback.Obs) (hb : ∀ e, b ≠ .start e) (hturn : a = .turn → b = .turn)
      (hposted : ∀ e, posted e done = []) (hs : Loopback.step l.pair b = some (s, done))
      (he : ({ l with pair := s } : Link).heard done = (l', os)) : Steps l a (l', os)

theorem moved_steps {b : Loopback.Action} (hstart : ∀ e, b ≠ .start e)
    (hpost : ∀ e message, b ≠ .post e message) (hturn : a = .turn → b = .turn)
    (hs : l.moved b = some (l', os)) : Steps l a (l', os) := by
  obtain ⟨⟨s, done⟩, hs, he⟩ := Option.map_eq_some_iff.mp hs
  exact .moved b s done hstart hturn (step_unposted hs hpost) hs he

theorem step_cases (hs : step l a = some (l', os)) : Steps l a (l', os) := by
  cases a with
  | construct e =>
      obtain ⟨⟨halive, hnone⟩, rfl, rfl⟩ := Machine.taken_if hs
      exact .construct e _ (Option.isNone_iff_eq_none.mp hnone) (if_pos halive)
  | write e data =>
      simp only [step] at hs
      split at hs
      · cases hs
      · rename_i d hd
        split_ifs at hs with hclosed
        · obtain ⟨rfl, rfl⟩ := Prod.mk.inj (Option.some.inj hs)
          exact .unwritten e data
        · obtain ⟨rfl, rfl⟩ := Prod.mk.inj (Option.some.inj hs)
          unfold Link.writeData
          split_ifs with hport
          · exact .unwritten e data
          · have hopen : (l.pair.port e).alive = true ∧ l.pair.isOpen e = true := by simpa using hport
            have hpost : l.pair.post e data = ({ l.pair with
                queue := l.pair.queue ++ [.deliver e data] }, [.posted e data]) := by
              simp [Pair.post, hopen.2]
            rw [hpost]
            refine .wrote e data _ ?_
            rw [Loopback.step, if_pos hopen.1, hpost]
  | read e maxSize =>
      simp only [step] at hs
      split at hs
      · cases hs
      · rename_i d hd
        split_ifs at hs with hsize hclosed
        · obtain ⟨rfl, rfl⟩ := Prod.mk.inj (Option.some.inj hs)
          exact .unreadable e maxSize
        · obtain ⟨rfl, rfl⟩ := Prod.mk.inj (Option.some.inj hs)
          exact .read e d maxSize hd (Int.not_lt.mp hsize)
  | close e =>
      obtain ⟨d, hd, he⟩ := Option.map_eq_some_iff.mp hs
      obtain ⟨rfl, rfl⟩ := Prod.mk.inj he
      exact .hears (by simp) (.close hd)
  | closePort e => exact moved_steps (by simp) (by simp) (by simp) hs
  | destroyPort e => exact moved_steps (by simp) (by simp) (by simp) hs
  | turn => exact moved_steps (by simp) (by simp) (fun _ => rfl) hs
  | ret =>
      simp only [step] at hs
      split at hs
      · rename_i e _ _
        split at hs
        · rename_i d hd
          split_ifs at hs with hdisconnecting
          · obtain ⟨rfl, rfl⟩ := Prod.mk.inj (Option.some.inj hs)
            have hset := Hears.setDevice hd { d with disconnecting := false } rfl [] rfl
              fun _ => rfl
            exact .hears (by simp) (hset.trans (.close (by simp)))
          · exact moved_steps (by simp) (by simp) (by simp) hs
        · exact moved_steps (by simp) (by simp) (by simp) hs
      · exact moved_steps (by simp) (by simp) (by simp) hs

/-! ### Runs -/

/-- A device is put on an end that has no backlog or no messages in flight. -/
def ConstructedClear (_ : List Obs) (l : Link) : Action → Prop
  | .construct e => (l.pair.port e).queued = [] ∨ inFlight e l.pair.queue = []
  | _ => True

instance (tr : List Obs) (l : Link) : (a : Action) → Decidable (ConstructedClear tr l a)
  | .construct e =>
      inferInstanceAs (Decidable ((l.pair.port e).queued = [] ∨ inFlight e l.pair.queue = []))
  | .write .. | .read .. | .close _ | .closePort _ | .destroyPort _ | .turn | .ret =>
      inferInstanceAs (Decidable True)

/-- A device is put on an end whose peer is open. -/
def ConstructedOpen (_ : List Obs) (l : Link) : Action → Prop
  | .construct e => (l.pair.port e.peer).opened = true
  | _ => True

instance (tr : List Obs) (l : Link) : (a : Action) → Decidable (ConstructedOpen tr l a)
  | .construct e => inferInstanceAs (Decidable ((l.pair.port e.peer).opened = true))
  | .write .. | .read .. | .close _ | .closePort _ | .destroyPort _ | .turn | .ret =>
      inferInstanceAs (Decidable True)

theorem startsClear_of_ne {tr : List Loopback.Obs} {s : Pair} {b : Loopback.Action}
    (hb : ∀ e, b ≠ .start e) : StartsClear tr s b := by
  cases b with
  | start e => exact absurd rfl (hb e)
  | post | close | destroy | turn | ret => trivial

theorem startsOpen_of_ne {tr : List Loopback.Obs} {s : Pair} {b : Loopback.Action}
    (hb : ∀ e, b ≠ .start e) : StartsOpen tr s b := by
  cases b with
  | start e => exact absurd rfl (hb e)
  | post | close | destroy | turn | ret => trivial

/-- Where the bytes are: read, in the buffer of a device, or with the ends. -/
structure Linked (tr : List Obs) (l : Link) : Prop where
  started : ∀ e, (l.pair.port e).started = (l.device e).isSome
  sane : ∀ e d, l.device e = some d → d.bytes.Sane
  kept : Kept (ports tr) l.pair
  written : ∀ e, written e tr = (posted e (ports tr)).flatten
  returned : ∀ e, returned e tr ++ l.unread e = (received e (ports tr)).flatten

namespace Linked

theorem initial : Linked [] {} where
  started _ := rfl
  sane _ _ h := by cases h
  kept := Kept.initial
  written _ := rfl
  returned _ := rfl

/-- What the peer wrote begins with what was read and what is still to be read. -/
theorem within (h : Linked tr l) (e : End) :
    DeviceLink.returned e tr ++ l.stream e <+: DeviceLink.written e.peer tr := by
  obtain ⟨rest, hrest⟩ := h.kept.within e
  refine ⟨rest.flatten, ?_⟩
  rw [h.written, ← hrest, Link.stream, ← List.append_assoc, h.returned]
  simp

/-- As long as what the peer writes arrives, it is that. -/
theorem whole (h : Linked tr l) {e : End} (hjoined : l.pair.Joined e.peer) :
    DeviceLink.returned e tr ++ l.stream e = DeviceLink.written e.peer tr := by
  rw [h.written, ← h.kept.whole e hjoined, Link.stream, ← List.append_assoc, h.returned]
  simp

theorem construct (h : Linked tr l) {e : End} {s : Pair} (hnone : l.device e = none)
    (hclear : ConstructedClear tr l (.construct e))
    (hs : Loopback.step l.pair (.start e) = some (s, [])) :
    Linked tr { l.setDevice e {} with pair := s } where
  started e' := by
    by_cases he : e' = e
    · subst he
      obtain ⟨-, rfl, -⟩ := Machine.taken_if hs
      have hwas : (l.pair.port e').started = false := by rw [h.started, hnone]; rfl
      simp only [Pair.start, hwas, Bool.false_eq_true, if_false]
      split_ifs <;> simp
    · have hne : Loopback.Action.start e ≠ .start e' := by simpa using Ne.symm he
      simpa [Function.update_of_ne he, step_unstarted hs e' hne] using h.started e'
  sane e' d hd := by
    by_cases he : e' = e
    · subst he
      obtain rfl : {} = d := by simpa using hd
      exact .initial
    · exact h.sane e' d (by simpa [Function.update_of_ne he] using hd)
  kept := by
    have hkept := h.kept.step (a := .start e) (fun _ => hclear) hs
    rwa [List.append_nil] at hkept
  written := h.written
  returned e' := by
    rw [← h.returned e']
    by_cases he : e' = e
    · subst he
      simp [Link.unread, hnone, PortDevice.Device.unread]
    · simp [Link.unread, Function.update_of_ne he]

theorem wrote (h : Linked tr l) {e : End} {data : List UInt8} {s : Pair}
    (hs : Loopback.step l.pair (.post e data) = some (s, [.posted e data])) :
    Linked (tr ++ [.port (.posted e data), .wrote e data data.length]) { l with pair := s } where
  started e' := (step_unstarted hs e' (by simp)).trans (h.started e')
  sane := h.sane
  kept := by
    have hkept := h.kept.step (startsClear_of_ne (by simp)) hs
    rwa [ports_append]
  written e' := by
    rw [written_append, ports_append, posted_append, h.written, List.flatten_append]
    by_cases he : e = e' <;> simp [DeviceLink.written, ports, he]
  returned e' := by
    have hreturned := h.returned e'
    rw [returned_append, ports_append, received_append, List.flatten_append, ← hreturned]
    simp [DeviceLink.returned, ports, Link.unread]

/-- Nothing happens but that it is seen. -/
theorem seen (h : Linked tr l) {o : Obs} (hports : ports [o] = [])
    (hwritten : ∀ e, DeviceLink.written e [o] = [])
    (hreturned : ∀ e, DeviceLink.returned e [o] = []) : Linked (tr ++ [o]) l where
  started := h.started
  sane := h.sane
  kept := by simpa [hports] using h.kept
  written e := by simpa [hports, hwritten] using h.written e
  returned e := by simpa [hports, hreturned] using h.returned e

theorem read (h : Linked tr l) {e : End} {d : Device} {maxSize : ℤ} (hd : l.device e = some d)
    (hsize : 0 ≤ maxSize) :
    Linked (tr ++ [.read e maxSize (d.bytes.readData maxSize).2.1 (d.bytes.readData maxSize).2.2])
      (l.setDevice e { d with bytes := (d.bytes.readData maxSize).1 }) where
  started e' := by
    by_cases he : e' = e
    · subst he
      simpa [hd] using h.started e'
    · simpa [Function.update_of_ne he] using h.started e'
  sane e' d' hd' := by
    by_cases he : e' = e
    · subst he
      simp only [Link.setDevice_device, Function.update_self, Option.some.injEq] at hd'
      rw [← hd']
      exact ((h.sane e' d hd).readData hsize).1
    · exact h.sane e' d' (by simpa [Function.update_of_ne he] using hd')
  kept := by
    rw [ports_append]
    simpa [ports] using h.kept
  written e' := by
    rw [written_append, ports_append]
    simpa [DeviceLink.written, ports] using h.written e'
  returned e' := by
    obtain ⟨-, hunread, -, hdata⟩ := (h.sane e d hd).readData hsize
    have hreturned := h.returned e'
    rw [returned_append, ports_append, List.append_assoc, received_append]
    by_cases he : e' = e
    · subst he
      rw [Link.unread_eq hd] at hreturned
      rw [Link.unread_setDevice_self]
      have hdone : DeviceLink.returned e' [.read e' maxSize (d.bytes.readData maxSize).2.1
          (d.bytes.readData maxSize).2.2] = d.bytes.unread.take maxSize.toNat := by
        simp [DeviceLink.returned, hdata]
      rw [hdone, hunread, List.take_append_drop, hreturned]
      simp [ports]
    · simpa [Link.unread, Function.update_of_ne he, DeviceLink.returned, Ne.symm he, ports]
        using hreturned

/-- The devices hear what the ends emit. -/
theorem moved (h : Linked tr l) {b : Loopback.Action} {s : Pair} {done : List Loopback.Obs}
    (hb : ∀ e, b ≠ .start e) (hposted : ∀ e, posted e done = [])
    (hs : Loopback.step l.pair b = some (s, done))
    (hears : Hears { l with pair := s } l' done os) : Linked (tr ++ os) l' where
  started e := by
    rw [hears.pair, hears.device, step_unstarted hs e (hb e)]
    exact h.started e
  sane := hears.sane h.sane
  kept := by
    rw [hears.pair, ports_append, hears.ports]
    exact h.kept.step (startsClear_of_ne hb) hs
  written e := by
    rw [written_append, ports_append, posted_append, hears.written, hears.ports, hposted,
      List.append_nil, List.append_nil]
    exact h.written e
  returned e := by
    rw [returned_append, ports_append, received_append, hears.returned, hears.ports,
      List.append_nil, List.flatten_append, ← h.returned e, List.append_assoc]
    congr 1
    cases hsome : (l.device e).isSome with
    | true => exact hears.unread h.sane e hsome
    | false =>
        -- an end without a device was not started, and emits nothing
        have hnone : received e done = [] := by
          refine List.filterMap_eq_nil_iff.mpr fun o ho => ?_
          cases o with
          | posted | closed => rfl
          | messageReceived e' message =>
              have he : e' ≠ e := by
                rintro rfl
                have hstarted := h.kept.queued.started_of_received hs ho
                rw [h.started, hsome] at hstarted
                cases hstarted
              simp [he]
        rw [Link.unread_of_isNone hsome, Link.unread_of_isNone ((hears.device e).trans hsome), hnone]
        rfl

theorem step (h : Linked tr l) (hclear : ConstructedClear tr l a)
    (hs : DeviceLink.step l a = some (l', os)) : Linked (tr ++ os) l' := by
  cases step_cases hs with
  | construct e s hnone hstart =>
      rw [List.append_nil]
      exact h.construct hnone hclear hstart
  | wrote e data s hpost => exact h.wrote hpost
  | unwritten e data =>
      refine h.seen rfl (fun e' => ?_) fun _ => rfl
      simp [DeviceLink.written]
  | read e d maxSize hd hsize => exact h.read hd hsize
  | unreadable e maxSize =>
      refine h.seen rfl (fun _ => rfl) fun e' => ?_
      simp [DeviceLink.returned]
  | hears ha hears =>
      refine ⟨fun e => ?_, hears.sane h.sane, ?_, fun e => ?_, fun e => ?_⟩
      · rw [hears.pair, hears.device]
        exact h.started e
      · rw [hears.pair, ports_append, hears.ports, List.append_nil]
        exact h.kept
      · rw [written_append, ports_append, hears.written, hears.ports, List.append_nil,
          List.append_nil]
        exact h.written e
      · rw [returned_append, ports_append, hears.returned, hears.ports, List.append_nil,
          List.append_nil, ← h.returned e]
        congr 1
        cases hsome : (l.device e).isSome with
        | true => simpa using hears.unread h.sane e hsome
        | false =>
            rw [Link.unread_of_isNone hsome, Link.unread_of_isNone ((hears.device e).trans hsome)]
  | moved b s done hb _ hposted hmoved he =>
      have hears := Hears.heard done ({ l with pair := s } : Link)
      rw [he] at hears
      exact h.moved hb hposted hmoved hears

end Linked

theorem run_linked (h : machine.Run ConstructedClear tr l) : Linked tr l :=
  h.invariant Linked.initial fun hl hclear hs => hl.step hclear hs

end LogosViewRuntime.DeviceLink
