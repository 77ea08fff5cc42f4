import LogosViewRuntime.Lib.Fifo
import Mathlib.Data.Int.Basic
import Mathlib.Algebra.GroupWithZero.Nat

/-! # `LogosMessagePortDevice` as a byte stream

The device appends every message that arrives to one buffer and reads from a cursor in it; consumed
bytes go only when a read drains the buffer.  Whatever arrives and is read in whatever order, it is
a stream of bytes (`device_streams`). -/

namespace LogosViewRuntime.PortDevice

open Reactive

structure Device where
  buffer : List UInt8 := []
  readPos : ℤ := 0
deriving DecidableEq, Repr

namespace Device

/-- `held` is what `QIODevice` says, which is what it holds itself. -/
def bytesAvailable (held : ℤ) (d : Device) : ℤ := (d.buffer.length - d.readPos) + held

/-- What is returned, and what has been copied to `data`. -/
def readData (maxSize : ℤ) (d : Device) : Device × ℤ × List UInt8 :=
  let available := d.buffer.length - d.readPos
  if available ≤ 0 then (d, 0, [])
  else
    let n := min available maxSize
    let data := (d.buffer.drop d.readPos.toNat).take n.toNat
    let d := { d with readPos := d.readPos + n }
    if d.readPos = d.buffer.length then ({ buffer := [], readPos := 0 }, n, data) else (d, n, data)

/-- Whether `readyRead` is emitted is the second component. -/
def onMessage (message : List UInt8) (d : Device) : Device × Bool :=
  if message.isEmpty then (d, false) else ({ d with buffer := d.buffer ++ message }, true)

end Device

inductive Obs where
  | message (message : List UInt8)
  | readyRead
  | read (maxSize n : ℤ) (data : List UInt8)
deriving DecidableEq, Repr

inductive Action where
  | onMessage (message : List UInt8)
  | readData (maxSize : ℤ)

/-- `QIODevice` never asks for less than nothing. -/
def step (d : Device) : Action → Option (Device × List Obs)
  | .onMessage message =>
      let done := d.onMessage message
      some (done.1, .message message :: if done.2 then [.readyRead] else [])
  | .readData maxSize =>
      if maxSize < 0 then none
      else
        let done := d.readData maxSize
        some (done.1, [.read maxSize done.2.1 done.2.2])

/-- A new device. -/
def machine : Machine Device Action Obs where
  init := {}
  step := step

/-! ### The stream -/

/-- The messages received so far, end to end. -/
def received (tr : List Obs) : List UInt8 :=
  tr.flatMap fun | .message message => message | _ => []

/-- The bytes returned so far. -/
def returned (tr : List Obs) : List UInt8 :=
  tr.flatMap fun | .read _ _ data => data | _ => []

namespace Device

/-- The bytes from the cursor to the end of the buffer. -/
def unread (d : Device) : List UInt8 := d.buffer.drop d.readPos.toNat

/-- What is returned when nothing arrives between reads of these sizes. -/
def reads : List ℕ → Device → List UInt8
  | [], _ => []
  | n :: ns, d => (d.readData n).2.2 ++ reads ns (d.readData n).1

/-- The cursor is in the buffer. -/
structure Sane (d : Device) : Prop where
  nonneg : 0 ≤ d.readPos
  le : d.readPos ≤ d.buffer.length

theorem Sane.initial : Sane {} := ⟨Int.le_refl 0, Int.le_refl 0⟩

variable {d : Device}

theorem Sane.length_unread (h : d.Sane) : (d.unread.length : ℤ) = d.buffer.length - d.readPos := by
  have := h.nonneg
  have := h.le
  rw [unread, List.length_drop]
  omega

theorem Sane.bytesAvailable (h : d.Sane) (held : ℤ) :
    d.bytesAvailable held = d.unread.length + held := by
  rw [Device.bytesAvailable, h.length_unread]

/-- A message goes to the end. -/
theorem Sane.onMessage (h : d.Sane) (message : List UInt8) :
    (d.onMessage message).1.Sane ∧ (d.onMessage message).1.unread = d.unread ++ message := by
  have hnonneg := h.nonneg
  have hle := h.le
  unfold Device.onMessage
  split_ifs with hempty
  · rw [List.isEmpty_iff.mp hempty, List.append_nil]
    exact ⟨h, rfl⟩
  · have hcursor : d.readPos.toNat ≤ d.buffer.length := by omega
    refine ⟨⟨hnonneg, ?_⟩, List.drop_append_of_le_length hcursor⟩
    show d.readPos ≤ (d.buffer ++ message).length
    rw [List.length_append]
    omega

/-- A read takes from the front what there is, up to its size. -/
theorem Sane.readData (h : d.Sane) {maxSize : ℤ} (hsize : 0 ≤ maxSize) :
    (d.readData maxSize).1.Sane ∧
      (d.readData maxSize).1.unread = d.unread.drop maxSize.toNat ∧
      (d.readData maxSize).2.1 = min (d.unread.length : ℤ) maxSize ∧
      (d.readData maxSize).2.2 = d.unread.take maxSize.toNat := by
  have hnonneg := h.nonneg
  have hle := h.le
  have hlength := h.length_unread
  have htake : d.unread.take (min (d.buffer.length - d.readPos) maxSize).toNat =
      d.unread.take maxSize.toNat := by
    rw [List.take_eq_take_iff]
    omega
  unfold Device.readData
  dsimp only
  split_ifs with hnone hdrained
  · have hnil : d.unread = [] := List.length_eq_zero_iff.mp (by omega)
    have hzero : min 0 maxSize = 0 := by omega
    simp [hnil, h, hzero]
  · -- the buffer is drained: all of it is read
    refine ⟨Sane.initial, ?_, by rw [hlength], htake⟩
    have hall : d.unread.length ≤ maxSize.toNat := by omega
    rw [List.drop_of_length_le hall]
    rfl
  · have hn : min (d.buffer.length - d.readPos) maxSize = maxSize := by omega
    rw [hn] at htake ⊢
    refine ⟨⟨?_, ?_⟩, ?_, ?_, htake⟩
    · show 0 ≤ d.readPos + maxSize
      omega
    · show d.readPos + maxSize ≤ d.buffer.length
      omega
    · simp only [unread, List.drop_drop]
      congr 1
      omega
    · rw [hlength, hn]

/-- Successive reads are one read of their sum. -/
theorem Sane.reads (h : d.Sane) (ns : List ℕ) : d.reads ns = d.unread.take ns.sum := by
  rw [← Fifo.gets_eq_take]
  induction ns generalizing d with
  | nil => rfl
  | cons n ns ih =>
      obtain ⟨hsane, hunread, -, hdata⟩ := h.readData (Int.natCast_nonneg n)
      rw [Int.toNat_natCast] at hunread hdata
      rw [Device.reads, Fifo.gets, hdata, ih hsane, hunread]

end Device

variable {d : Device} {tr : List Obs}

theorem Device.Sane.step {d' : Device} {a : Action} {os : List Obs} (h : d.Sane)
    (hs : step d a = some (d', os)) : d'.Sane := by
  cases a with
  | onMessage message =>
      obtain ⟨rfl, -⟩ := Prod.mk.inj (Option.some.inj hs)
      exact (h.onMessage message).1
  | readData maxSize =>
      obtain ⟨hsize, rfl, -⟩ := Machine.taken_unless hs
      exact (h.readData (Int.not_lt.mp hsize)).1

theorem run_sane (h : machine.Run Machine.always tr d) : d.Sane :=
  h.invariant (I := fun _ d => d.Sane) Device.Sane.initial fun hi _ hs => hi.step hs

/-- What the stream sees of an observation. -/
def streamed : Obs → List (Fifo.Obs UInt8)
  | .message message => [.put message]
  | .readyRead => []
  | .read maxSize _ data => [.got maxSize.toNat data]

theorem entered_streamed (tr : List Obs) : Fifo.entered (tr.flatMap streamed) = received tr := by
  rw [Fifo.entered, List.flatMap_assoc, received]
  congr 1
  funext o
  cases o <;> simp [streamed]

theorem left_streamed (tr : List Obs) : Fifo.left (tr.flatMap streamed) = returned tr := by
  rw [Fifo.left, List.flatMap_assoc, returned]
  congr 1
  funext o
  cases o <;> simp [streamed]

/-- The device is a stream of bytes. -/
theorem run_streams (h : machine.Run Machine.always tr d) :
    (Fifo.machine UInt8).Run Machine.always (tr.flatMap streamed) d.unread := by
  refine h.refines (f := Device.unread) rfl fun {_ d a _ _} hrun _ hs => ?_
  have hsane := run_sane hrun
  cases a with
  | onMessage message =>
      obtain ⟨rfl, rfl⟩ := Prod.mk.inj (Option.some.inj hs)
      refine ⟨.put message, ?_⟩
      rw [(hsane.onMessage message).2]
      cases (Device.onMessage message d).2 <;> rfl
  | readData maxSize =>
      simp only [machine, step, Option.ite_none_left_eq_some, Option.some.injEq] at hs
      obtain ⟨hsize, hs⟩ := hs
      obtain ⟨rfl, rfl⟩ := Prod.mk.inj hs
      obtain ⟨-, hunread, -, hdata⟩ := hsane.readData (Int.not_lt.mp hsize)
      refine ⟨.get maxSize.toNat, ?_⟩
      rw [hunread, hdata]
      rfl

/-! ### Runs -/

/-- The device has passed on what it received, in order, and has the rest. -/
structure Streams (tr : List Obs) (d : Device) : Prop where
  cursor : 0 ≤ d.readPos ∧ d.readPos ≤ d.buffer.length
  bytes : returned tr ++ d.unread = received tr
  available : d.bytesAvailable 0 = d.unread.length
  read : ∀ maxSize ≥ 0, (d.readData maxSize).2.1 = min (d.bytesAvailable 0) maxSize ∧
    ((d.readData maxSize).2.2.length : ℤ) = min (d.bytesAvailable 0) maxSize

/-- **The byte stream**: messages and reads in any order keep the cursor in the buffer and lose,
duplicate and reorder nothing, and from two runs that received the same bytes and returned equally
many the same bytes were read and will be, whatever the messages were and however they are read. -/
theorem device_streams :
    (∀ tr d, machine.Run Machine.always tr d → Streams tr d) ∧
      ∀ tr d tr' d', machine.Run Machine.always tr d → machine.Run Machine.always tr' d' →
        received tr = received tr' → (returned tr).length = (returned tr').length →
          returned tr = returned tr' ∧
            ∀ ns ns' : List ℕ, ns.sum = ns'.sum → d.reads ns = d'.reads ns' := by
  refine ⟨fun tr d h => ?_, fun tr d tr' d' h h' hreceived hreturned => ?_⟩
  · have hsane := run_sane h
    have havailable : d.bytesAvailable 0 = d.unread.length := by
      rw [hsane.bytesAvailable, Int.add_zero]
    refine ⟨⟨hsane.nonneg, hsane.le⟩, ?_, havailable, fun maxSize hsize => ?_⟩
    · rw [← left_streamed, ← entered_streamed]
      exact Fifo.run_split (run_streams h)
    · obtain ⟨-, -, hn, hdata⟩ := hsane.readData hsize
      rw [hn, hdata, havailable, List.length_take]
      omega
  · rw [← entered_streamed, ← entered_streamed] at hreceived
    rw [← left_streamed, ← left_streamed] at hreturned ⊢
    obtain ⟨hleft, hunread⟩ :=
      Fifo.run_unique (run_streams h) (run_streams h') hreceived hreturned
    refine ⟨hleft, fun ns ns' hsum => ?_⟩
    rw [(run_sane h).reads, (run_sane h').reads, hunread, hsum]

/-- Two messages around a read, and the same bytes in one message. -/
theorem messages_are_not_seen : ∃ tr d tr' d', machine.Run Machine.always tr d ∧
    machine.Run Machine.always tr' d' ∧ Streams tr d ∧ d ≠ d' ∧
    returned tr = returned tr' ∧ d.reads [1, 3] = d'.reads [2, 2] := by
  have h := Machine.exec_run (M := machine) (G := Machine.always)
    [.onMessage [97, 98, 99], .readData 3, .onMessage [], .onMessage [100, 101]] rfl
  have h' := Machine.exec_run (M := machine) (G := Machine.always)
    [.onMessage [97, 98, 99, 100, 101], .readData 3] rfl
  obtain ⟨hsame, hreads⟩ := device_streams.2 _ _ _ _ h h' rfl rfl
  exact ⟨_, _, _, _, h, h', device_streams.1 _ _ h, by decide, hsame, hreads _ _ rfl⟩

end LogosViewRuntime.PortDevice
