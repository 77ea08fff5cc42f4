import LogosViewRuntime.DeviceLink

/-! # The stream of bytes between two devices

Each direction of a link is a stream, whatever the messages were, however they are read and whichever
ends are closed and destroyed on the way (`link_is_a_stream`).  A device that is told that its peer
is gone has everything that its peer wrote (`disconnected_after_all`). -/

namespace LogosViewRuntime.DeviceLink

open Reactive Loopback

variable {tr os : List Obs} {l l' : Link} {a : Action}

/-- A step is one of the stream to `e`, or none to it. -/
theorem stream_step (h' : Linked (tr ++ os) l') {e : End} {t : List UInt8}
    (ht : returned e tr ++ t = written e.peer tr) (hs : DeviceLink.step l a = some (l', os)) :
    ∃ t', (Fifo.machine UInt8).Moves t (os.flatMap (streamed e)) t' ∧
      returned e (tr ++ os) ++ t' = written e.peer (tr ++ os) := by
  have hstill : os.flatMap (streamed e) = [] →
      ∃ t', (Fifo.machine UInt8).Moves t (os.flatMap (streamed e)) t' ∧
        returned e (tr ++ os) ++ t' = written e.peer (tr ++ os) := by
    intro hnone
    refine ⟨t, .inl ⟨rfl, hnone⟩, ?_⟩
    rw [returned_append, written_append, ← left_streamed e os, ← entered_streamed e os, hnone]
    simpa [Fifo.left, Fifo.entered] using ht
  -- what is read is what the stream begins with
  have hgot : ∀ maxSize n data, os = [.read e maxSize n data] →
      ∃ t', (Fifo.machine UInt8).Moves t (os.flatMap (streamed e)) t' ∧
        returned e (tr ++ os) ++ t' = written e.peer (tr ++ os) := by
    rintro maxSize n data rfl
    have hreturned : returned e [.read e maxSize n data] = data := by simp [returned]
    have hwritten : written e.peer [.read e maxSize n data] = [] := rfl
    have hwithin := h'.within e
    rw [returned_append, written_append, hreturned, hwritten, List.append_nil, ← ht,
      List.append_assoc, List.prefix_append_right_inj] at hwithin
    obtain ⟨rest, hrest⟩ := (List.prefix_append data (l'.stream e)).trans hwithin
    subst hrest
    refine ⟨rest, .inr ⟨.get data.length, ?_⟩, ?_⟩
    · simp [Fifo.machine, streamed]
    · rw [returned_append, written_append, hreturned, hwritten, List.append_nil, ← ht,
        List.append_assoc]
  cases step_cases hs with
  | construct => exact hstill rfl
  | wrote e' data s =>
      by_cases he : e' = e.peer
      · refine ⟨t ++ data, .inr ⟨.put data, ?_⟩, ?_⟩
        · simp [Fifo.machine, streamed, he]
        · rw [returned_append, written_append, ← ht]
          simp [returned, written, he]
      · apply hstill
        simp [streamed, he]
  | unwritten e' data =>
      apply hstill
      simp [streamed]
  | read e' d maxSize =>
      by_cases he : e' = e
      · subst he
        exact hgot _ _ _ rfl
      · apply hstill
        simp [streamed, he]
  | unreadable e' maxSize =>
      by_cases he : e' = e
      · subst he
        exact hgot _ _ _ rfl
      · apply hstill
        simp [streamed, he]
  | hears ha hears => exact hstill (hears.streamed e)
  | moved b s done hb hturn hposted hmoved he =>
      have hears := Hears.heard done ({ l with pair := s } : Link)
      rw [he] at hears
      exact hstill (hears.streamed e)

theorem run_streams (h : machine.Run ConstructedClear tr l) (e : End) :
    ∃ t, (Fifo.machine UInt8).Run Machine.always (tr.flatMap (streamed e)) t ∧
      returned e tr ++ t = written e.peer tr := by
  obtain ⟨t, hrun, -, ht⟩ := Machine.Run.simulates (N := Fifo.machine UInt8)
    (R := fun tr l t => Linked tr l ∧ returned e tr ++ t = written e.peer tr)
    ⟨Linked.initial, rfl⟩ (fun {_ _ _ _ _ _} hR hclear hs => by
      have hlinked := hR.1.step hclear hs
      obtain ⟨t', hmoves, ht'⟩ := stream_step hlinked hR.2 hs
      exact ⟨t', hmoves, hlinked, ht'⟩) h
  exact ⟨t, hrun, ht⟩

/-- Nothing is on its way. -/
theorem ahead_drained (h : Linked tr l) {e : End} (hdevice : (l.device e).isSome = true)
    (hdrained : Drained l.pair) : ahead e l.pair = [] := by
  have hbacklog := h.kept.queued.backlog e ((h.started e).trans hdevice)
  simp [ahead, hdrained.1, hdrained.2, hbacklog]

/-- **A link is a stream of bytes in each direction**, closed and destroyed ends or not: its writes
and reads are those of a stream, which holds what is still to be read and, if what the peer writes
arrives, nothing else.  So what was read does not depend on how it was cut into messages and reads,
and with nothing on its way the buffer of a device has all of the rest. -/
theorem link_is_a_stream :
    (∀ tr l, machine.Run ConstructedClear tr l → ∀ e, ∃ t,
      (Fifo.machine UInt8).Run Machine.always (tr.flatMap (streamed e)) t ∧ l.stream e <+: t ∧
        (l.pair.Joined e.peer → t = l.stream e ∧
          ((l.device e).isSome = true → Drained l.pair → t = l.unread e))) ∧
    ∀ tr l tr' l' e, machine.Run ConstructedClear tr l → machine.Run ConstructedClear tr' l' →
      written e.peer tr = written e.peer tr' → (returned e tr).length = (returned e tr').length →
        returned e tr = returned e tr' := by
  refine ⟨fun tr l h e => ?_, fun tr l tr' l' e h h' hwritten hlength => ?_⟩
  · obtain ⟨t, hrun, ht⟩ := run_streams h e
    have hlinked := run_linked h
    refine ⟨t, hrun, ?_, fun hjoined => ?_⟩
    · have hwithin := hlinked.within e
      rwa [← ht, List.prefix_append_right_inj] at hwithin
    · have hwhole := hlinked.whole hjoined
      rw [← ht, List.append_cancel_left_eq] at hwhole
      refine ⟨hwhole.symm, fun hdevice hdrained => ?_⟩
      rw [← hwhole, Link.stream, ahead_drained hlinked hdevice hdrained]
      simp
  · obtain ⟨t, hrun, -⟩ := run_streams h e
    obtain ⟨t', hrun', -⟩ := run_streams h' e
    rw [← left_streamed, ← left_streamed] at hlength ⊢
    refine (Fifo.run_unique hrun hrun' ?_ hlength).1
    rw [entered_streamed, entered_streamed, hwritten]

/-- Two writes and three reads of other sizes, on a link that is drained in between. -/
theorem two_writes_three_reads : ∃ tr l tr' l', machine.Run ConstructedClear tr l ∧
    machine.Run ConstructedClear tr' l' ∧ tr ≠ tr' ∧
    returned .b tr = returned .b tr' ∧ l.unread .b = [5] ∧
    (Fifo.machine UInt8).Run Machine.always (tr.flatMap (streamed .b)) (l.unread .b) := by
  have h := Machine.exec_run (M := machine) (G := ConstructedClear)
    [.construct .a, .write .a [1, 2], .turn, .construct .b, .turn, .ret, .write .a [3, 4, 5], .turn,
      .ret, .read .b 1, .read .b 3] rfl
  have h' := Machine.exec_run (M := machine) (G := ConstructedClear)
    [.construct .a, .construct .b, .write .a [1, 2, 3, 4, 5], .turn, .ret, .read .b 4] rfl
  obtain ⟨t, hrun, -, hjoined⟩ := link_is_a_stream.1 _ _ h .b
  obtain ⟨-, hunread⟩ := hjoined ⟨rfl, rfl⟩
  rw [hunread rfl ⟨rfl, rfl⟩] at hrun
  exact ⟨_, _, _, _, h, h', by decide, link_is_a_stream.2 _ _ _ _ .b h h' rfl rfl, rfl, hrun⟩

/-! ### The last bytes -/

/-- `disconnected` comes from the end's `closed`. -/
theorem mem_heard {e : End} {done : List Loopback.Obs} (hm : .disconnected e ∈ (l.heard done).2) :
    .closed e ∈ done ∧ (l.device e).isSome = true := by
  induction done generalizing l with
  | nil => cases hm
  | cons o done ih =>
      obtain hm | hm := List.mem_append.mp (List.mem_cons.mp hm |>.resolve_left (by simp))
      · cases o with
        | posted => cases hm
        | messageReceived e' message =>
            simp only [Link.hear, Link.onMessage] at hm
            split at hm
            · split_ifs at hm <;> simp at hm
            · cases hm
        | closed e' =>
            simp only [Link.hear, Link.onPortClosed] at hm
            split at hm
            · rename_i d hd
              obtain rfl := Obs.disconnected.inj (List.mem_singleton.mp hm)
              exact ⟨List.mem_cons_self, by rw [hd]; rfl⟩
            · cases hm
      · obtain ⟨hclosed, hdevice⟩ := ih hm
        exact ⟨List.mem_cons_of_mem _ hclosed, ((Hears.hear l o).device e).symm.trans hdevice⟩

/-- What is heard does not close a device. -/
theorem heard_opened (done : List Loopback.Obs) (e : End) :
    ((l.heard done).1.device e).map (·.opened) = (l.device e).map (·.opened) := by
  induction done generalizing l with
  | nil => rfl
  | cons o done ih =>
      have hset : ∀ e' d d', l.device e' = some d → d'.opened = d.opened →
          ((l.setDevice e' d').device e).map (·.opened) = (l.device e).map (·.opened) := by
        intro e' d d' hd hopened
        simp only [Link.setDevice_device, Function.update_apply]
        split_ifs with he
        · rw [he, hd]
          exact congrArg some hopened
        · rfl
      refine (ih (l := (l.hear o).1)).trans ?_
      cases o with
      | posted => rfl
      | messageReceived e' message =>
          simp only [Link.hear, Link.onMessage]
          split
          · rename_i d hd
            exact hset e' d _ hd rfl
          · rfl
      | closed e' =>
          simp only [Link.hear, Link.onPortClosed]
          split
          · rename_i d hd
            exact hset e' d _ hd rfl
          · rfl

theorem run_closed (h : machine.Run ConstructedOpen tr l) : Closed l.pair := by
  refine h.invariant (I := fun _ l => Closed l.pair) Closed.initial fun {_ l _ l' _} hc hopen hs => ?_
  cases step_cases hs with
  | construct e s hnone hstart =>
      have hstarts : StartsOpen [] l.pair (.start e) := fun _ => hopen
      exact hc.step hstarts hstart
  | wrote e data s hpost =>
      have hstarts : StartsOpen [] l.pair (.post e data) := startsOpen_of_ne (by simp)
      exact hc.step hstarts hpost
  | unwritten e data => exact hc
  | read e d maxSize hd hsize => exact hc
  | unreadable e maxSize => exact hc
  | hears ha hears =>
      rw [hears.pair]
      exact hc
  | moved b s done hb hturn hposted hmoved he =>
      have hears := Hears.heard done ({ l with pair := s } : Link)
      rw [he] at hears
      rw [hears.pair]
      have hstarts : StartsOpen [] l.pair b := startsOpen_of_ne hb
      exact hc.step hstarts hmoved

/-- **Nothing is lost by closing**: a device that was put on its end while the peer was open, and
is told that the peer is gone, holds in the slots of `disconnected` all of what the peer wrote and
was not read, and is as open as it was. -/
theorem disconnected_after_all {e : End}
    (h : machine.Run (Machine.both ConstructedClear ConstructedOpen) tr l)
    (hs : machine.step l .turn = some (l', os)) (hm : .disconnected e ∈ os) :
    ∃ d, l'.device e = some d ∧ returned e tr ++ d.bytes.unread = written e.peer tr ∧
      (l.device e).map (·.opened) = some d.opened := by
  have hlinked := run_linked h.left
  have hclosed := run_closed (h.mono fun _ _ _ hg => hg.2)
  have hlinked' := hlinked.step (a := .turn) trivial hs
  have hsteps : Steps l .turn (l', os) := step_cases hs
  cases hsteps with
  | hears ha hears => exact absurd rfl ha
  | moved b s done hb hturn hposted hmoved he =>
      have hears := Hears.heard done ({ l with pair := s } : Link)
      rw [he] at hears
      obtain rfl := hturn rfl
      have hseen : os = (({ l with pair := s } : Link).heard done).2 := by rw [he]
      rw [hseen] at hm
      obtain ⟨hdone, hdevice⟩ := mem_heard hm
      have hstarted := (hlinked.started e).trans hdevice
      have hall := last_close hlinked.kept hclosed hstarted hmoved hdone
      -- what was emitted is what was posted already, so this step emits no message
      have hnone : received e done = [] := by
        have hwithin := hlinked'.kept.within e
        rw [ports_append, received_append, posted_append, hears.ports, hposted, List.append_nil,
          ← hall, List.append_assoc] at hwithin
        have hlength := hwithin.length_le
        simp only [List.length_append] at hlength
        exact List.length_eq_zero_iff.mp (by omega)
      obtain ⟨d, hd⟩ := Option.isSome_iff_exists.mp ((hears.device e).trans hdevice)
      refine ⟨d, hd, ?_, ?_⟩
      · have hreturned := hlinked'.returned e
        rw [returned_append, ports_append, received_append, hears.returned, hears.ports, hnone,
          List.append_nil, List.append_nil, hall, ← hlinked.written, Link.unread_eq hd] at hreturned
        exact hreturned
      · have hopened := heard_opened (l := ({ l with pair := s } : Link)) done e
        rw [he, hd] at hopened
        exact hopened.symm

/-- A last message crosses with the close. -/
theorem last_message_drained : ∃ tr l l' os d,
    machine.Run (Machine.both ConstructedClear ConstructedOpen) tr l ∧
    machine.step l .turn = some (l', os) ∧ .disconnected .b ∈ os ∧ l'.device .b = some d ∧
    d.bytes.unread = [1, 2, 3] ∧ returned .b tr ++ d.bytes.unread = written .a tr := by
  have h := Machine.exec_run (M := machine) (G := Machine.both ConstructedClear ConstructedOpen)
    [.construct .a, .construct .b, .write .a [1, 2], .write .a [3], .closePort .a, .ret, .ret, .turn,
      .ret, .turn, .ret] rfl
  obtain ⟨d, hd, hall, -⟩ := disconnected_after_all (e := .b) h rfl (by decide)
  exact ⟨_, _, _, _, d, h, rfl, by decide, hd, by rw [← Option.some.inj hd]; rfl, hall⟩

end LogosViewRuntime.DeviceLink
