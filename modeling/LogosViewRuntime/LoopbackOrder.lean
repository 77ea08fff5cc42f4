import LogosViewRuntime.LoopbackPort

/-! # The order of a loopback port

A message posted on one end is, until the other end emits it, in exactly one of three places: the
event queue, the backlog of an end that was not started, or a backlog flush that is being
delivered.  `stream` is what was emitted followed by these places in the order in which they would
be emitted, and as long as both ends stay open every step extends the stream and the posted
sequence by the same messages, with one exception: `start` queues its backlog behind the messages
that are still in flight, although these were posted after it (`Flowing.start`).

So the port keeps the order of a run exactly if no `start` finds a backlog and messages in flight
that do not commute (`messages_in_order_iff_started_in_step`); `late_start_reorders` is the
shortest run that does. -/

namespace LogosViewRuntime.Loopback

open Reactive

/-! ### What is posted and what is emitted -/

/-- The messages `e` accepted for its peer. -/
def posted (e : End) (tr : List Obs) : List QByteArray := tr.filterMap fun
  | .posted e' message => if e' = e then some message else none
  | _ => none

/-- The messages `e` emitted. -/
def received (e : End) (tr : List Obs) : List QByteArray := tr.filterMap fun
  | .messageReceived e' message => if e' = e then some message else none
  | _ => none

/-- What a flush of `e` that is being delivered has still to emit. -/
def running (e : End) (stack : List Frame) : List QByteArray := stack.flatMap fun
  | .flush e' rest => if e' = e then rest else []
  | _ => []

/-- What the event queue holds for `e`. -/
def inFlight (e : End) (queue : List Event) : List QByteArray := queue.flatMap fun
  | .deliver e' message => if e'.peer = e then [message] else []
  | .flush e' queued => if e' = e then queued else []
  | .closePeer _ => []

/-- What `e` emitted and, in this order, what it would still emit. -/
def stream (e : End) (tr : List Obs) (s : Pair) : List QByteArray :=
  received e tr ++ running e s.stack ++ (s.port e).queued ++ inFlight e s.queue

@[simp] theorem posted_append (e : End) (tr os : List Obs) :
    posted e (tr ++ os) = posted e tr ++ posted e os := List.filterMap_append

@[simp] theorem received_append (e : End) (tr os : List Obs) :
    received e (tr ++ os) = received e tr ++ received e os := List.filterMap_append

@[simp] theorem posted_nil (e : End) : posted e [] = [] := rfl

@[simp] theorem posted_posted (e e' : End) (message : QByteArray) :
    posted e [.posted e' message] = if e' = e then [message] else [] := by
  simp only [posted, List.filterMap_cons, List.filterMap_nil]
  split_ifs <;> rfl

@[simp] theorem received_posted (e e' : End) (message : QByteArray) :
    received e [.posted e' message] = [] := rfl

@[simp] theorem posted_messageReceived (e e' : End) (message : QByteArray) :
    posted e [.messageReceived e' message] = [] := rfl

@[simp] theorem received_messageReceived (e e' : End) (message : QByteArray) :
    received e [.messageReceived e' message] = if e' = e then [message] else [] := by
  simp only [received, List.filterMap_cons, List.filterMap_nil]
  split_ifs <;> rfl

@[simp] theorem inFlight_append (e : End) (queue queue' : List Event) :
    inFlight e (queue ++ queue') = inFlight e queue ++ inFlight e queue' := List.flatMap_append

@[simp] theorem inFlight_nil (e : End) : inFlight e [] = [] := rfl

@[simp] theorem running_nil (e : End) : running e [] = [] := rfl

@[simp] theorem inFlight_deliver (e e' : End) (message : QByteArray) (queue : List Event) :
    inFlight e (.deliver e' message :: queue) =
      (if e'.peer = e then [message] else []) ++ inFlight e queue := List.flatMap_cons

@[simp] theorem inFlight_flush (e e' : End) (queued : List QByteArray) (queue : List Event) :
    inFlight e (.flush e' queued :: queue) =
      (if e' = e then queued else []) ++ inFlight e queue := List.flatMap_cons

@[simp] theorem running_deliver (e e' : End) (stack : List Frame) :
    running e (.deliver e' :: stack) = running e stack := rfl

@[simp] theorem running_flush (e e' : End) (rest : List QByteArray) (stack : List Frame) :
    running e (.flush e' rest :: stack) = (if e' = e then rest else []) ++ running e stack :=
  List.flatMap_cons

/-! ### Runs in which both ends stay open -/

/-- No end is closed or destroyed. -/
def StaysOpen (_ : List Obs) (_ : Pair) : Action → Prop
  | .close _ | .destroy _ => False
  | _ => True

instance (tr : List Obs) (s : Pair) : (a : Action) → Decidable (StaysOpen tr s a)
  | .close _ | .destroy _ => inferInstanceAs (Decidable False)
  | .post .. | .start _ | .turn | .ret => inferInstanceAs (Decidable True)

/-- A first `start` finds no messages in flight, or no backlog, or at least the same messages
whichever of the two comes first. -/
def StartedInStep (_ : List Obs) (s : Pair) : Action → Prop
  | .start e => (s.port e).started = false →
      (s.port e).queued ++ inFlight e s.queue = inFlight e s.queue ++ (s.port e).queued
  | _ => True

instance (tr : List Obs) (s : Pair) : (a : Action) → Decidable (StartedInStep tr s a)
  | .start e => inferInstanceAs (Decidable ((s.port e).started = false →
      (s.port e).queued ++ inFlight e s.queue = inFlight e s.queue ++ (s.port e).queued))
  | .post .. | .close _ | .destroy _ | .turn | .ret => inferInstanceAs (Decidable True)

/-- A pair neither end of which was closed. -/
structure Live (s : Pair) : Prop where
  alive : ∀ e, (s.port e).alive = true
  opened : ∀ e, (s.port e).opened = true
  started : ∀ e, (s.port e).started = true → (s.port e).queued = []
  flushing : ∀ e queued, .flush e queued ∈ s.queue → (s.port e).started = true
  unclosed : ∀ e, .closePeer e ∉ s.queue ∧ .close e ∉ s.stack

namespace Live

variable {tr os : List Obs} {s s' : Pair}

theorem initial : Live {} where
  alive _ := rfl
  opened _ := rfl
  started _ _ := rfl
  flushing _ _ hm := by cases hm
  unclosed _ := ⟨List.not_mem_nil, List.not_mem_nil⟩

theorem isOpen (h : Live s) (e : End) : s.isOpen e = true := by
  simp [Pair.isOpen, h.opened, h.alive]

/-- The step extends what `e` emits and is to emit by what its peer accepted in it. -/
def Extends (e : End) (tr os : List Obs) (s s' : Pair) : Prop :=
  stream e (tr ++ os) s' = stream e tr s ++ posted e.peer os

theorem post (h : Live s) (tr : List Obs) (e : End) (message : QByteArray) :
    Live (s.post e message).1 ∧
      ∀ e', Extends e' tr (s.post e message).2 s (s.post e message).1 := by
  simp only [Pair.post, h.isOpen, Bool.not_true, Bool.false_eq_true, if_false]
  refine ⟨⟨h.alive, h.opened, h.started, fun e' queued hm => ?_, fun e' => ?_⟩, fun e' => ?_⟩
  · exact h.flushing e' queued (by simpa using hm)
  · simpa using h.unclosed e'
  · simp [Extends, stream, End.peer_eq_iff]

/-- Writing back a port that is still alive, open and not stopped. -/
theorem setPort (h : Live s) (e : End) {p : Port} (halive : p.alive = true)
    (hopened : p.opened = true) (hstarted : p.started = true → p.queued = [])
    (hkept : (s.port e).started = true → p.started = true) : Live (s.setPort e p) := by
  refine ⟨fun e' => ?_, fun e' => ?_, fun e' => ?_, fun e' queued hm => ?_, h.unclosed⟩
  all_goals rw [Pair.setPort_port]; by_cases he : e' = e
  · rwa [he, Function.update_self]
  · rw [Function.update_of_ne he]
    exact h.alive e'
  · rwa [he, Function.update_self]
  · rw [Function.update_of_ne he]
    exact h.opened e'
  · rwa [he, Function.update_self]
  · rw [Function.update_of_ne he]
    exact h.started e'
  · rw [he, Function.update_self]
    exact hkept (he ▸ h.flushing e' queued hm)
  · rw [Function.update_of_ne he]
    exact h.flushing e' queued hm

/-- The event loop takes the oldest event. -/
theorem pop (h : Live s) {event : Event} {queue : List Event} (hqueue : s.queue = event :: queue) :
    Live ({ s with queue } : Pair) where
  alive := h.alive
  opened := h.opened
  started := h.started
  flushing e queued hm := h.flushing e queued (by simp [hqueue, show _ ∈ queue from hm])
  unclosed e := ⟨fun hm => (h.unclosed e).1 (by simp [hqueue, show _ ∈ queue from hm]),
    (h.unclosed e).2⟩

/-- The slots of `e` are called. -/
theorem push (h : Live s) {frame : Frame} (hframe : ∀ e, frame ≠ .close e) :
    Live ({ s with stack := frame :: s.stack } : Pair) where
  alive := h.alive
  opened := h.opened
  started := h.started
  flushing := h.flushing
  unclosed e := ⟨(h.unclosed e).1, fun hm =>
    (List.mem_cons.mp hm).elim (fun he => hframe e he.symm) (h.unclosed e).2⟩

theorem deliver (h : Live s) (tr : List Obs) (hstack : s.stack = []) (e : End) (message : QByteArray)
    {queue : List Event} (hqueue : s.queue = .deliver e message :: queue) :
    Live (({ s with queue } : Pair).deliver e.peer message).1 ∧
      ∀ e', Extends e' tr (({ s with queue } : Pair).deliver e.peer message).2 s
        (({ s with queue } : Pair).deliver e.peer message).1 := by
  have hpop := h.pop hqueue
  simp only [Pair.deliver, h.opened, Bool.not_true, Bool.false_eq_true, if_false]
  cases hstarted : (s.port e.peer).started with
  | false =>
      simp only [Bool.not_false, if_true]
      refine ⟨hpop.setPort e.peer (h.alive _) rfl (by simp) (by simp [hstarted]),
        fun e' => ?_⟩
      · simp only [Extends, stream, hqueue, Pair.setPort_port, Pair.setPort_queue,
          Pair.setPort_stack, inFlight_deliver]
        by_cases he : e.peer = e'
        · subst he
          simp
        · simp [he, Function.update_of_ne (Ne.symm he)]
  | true =>
      simp only [Bool.not_true, Bool.false_eq_true, if_false]
      refine ⟨hpop.push nofun, fun e' => ?_⟩
      simp only [Extends, stream, hqueue, hstack]
      by_cases he : e.peer = e'
      · subst he
        simp [h.started _ hstarted]
      · simp [he]

/-- The flush loop goes on: what it has still to emit is the next part of the stream. -/
theorem flush (h : Live s) (tr : List Obs) (e : End) (queued : List QByteArray) :
    Live (s.flush e queued).1 ∧ ∀ e', stream e' (tr ++ (s.flush e queued).2) (s.flush e queued).1 =
      received e' tr ++ ((if e = e' then queued else []) ++ running e' s.stack) ++
        (s.port e').queued ++ inFlight e' s.queue := by
  cases queued with
  | nil => exact ⟨h, fun e' => by simp [Pair.flush, stream]⟩
  | cons message rest =>
      refine ⟨h.push nofun, fun e' => ?_⟩
      simp only [Pair.flush, stream, received_append, received_messageReceived, running_flush]
      by_cases he : e = e'
      · simp [he]
      · simp [he]

theorem turn (h : Live s) (tr : List Obs) (hstack : s.stack = []) {event : Event} {queue : List Event}
    (hqueue : s.queue = event :: queue) :
    Live (({ s with queue } : Pair).runEvent event).1 ∧
      ∀ e, Extends e tr (({ s with queue } : Pair).runEvent event).2 s
        (({ s with queue } : Pair).runEvent event).1 := by
  cases event with
  | deliver e message =>
      simp only [Pair.runEvent, h.alive, if_true]
      exact h.deliver tr hstack e message hqueue
  | flush e queued =>
      simp only [Pair.runEvent, h.opened, if_true]
      obtain ⟨hlive, hstream⟩ := (h.pop hqueue).flush tr e queued
      refine ⟨hlive, fun e' => ?_⟩
      have hstarted := h.flushing e queued (by simp [hqueue])
      have hposted : posted e'.peer (({ s with queue } : Pair).flush e queued).2 = [] := by
        cases queued <;> rfl
      rw [Extends, hstream e', hposted, stream, hqueue, inFlight_flush]
      by_cases he : e = e'
      · subst he
        simp [hstack, h.started _ hstarted]
      · simp [hstack, he]
  | closePeer e => exact absurd (by simp [hqueue]) (h.unclosed e).1

theorem ret (h : Live s) (tr : List Obs) (hs : s.ret = some (s', os)) :
    Live s' ∧ ∀ e, Extends e tr os s s' := by
  have hpop : ∀ frame stack, s.stack = frame :: stack → Live ({ s with stack } : Pair) :=
    fun frame stack hstack => ⟨h.alive, h.opened, h.started, h.flushing, fun e =>
      ⟨(h.unclosed e).1, fun hm => (h.unclosed e).2 (by simp [hstack, show _ ∈ stack from hm])⟩⟩
  unfold Pair.ret at hs
  split at hs
  · cases hs
  · rename_i e stack hstack
    obtain ⟨rfl, rfl⟩ := Prod.mk.inj (Option.some.inj hs)
    exact ⟨hpop _ _ hstack, fun e' => by simp [Extends, stream, hstack]⟩
  · rename_i e rest stack hstack
    obtain ⟨hlive, hstream⟩ := (hpop _ _ hstack).flush tr e rest
    have hposted : ∀ e', posted e' (({ s with stack } : Pair).flush e rest).2 = [] := fun e' => by
      cases rest <;> rfl
    rw [Option.some.inj hs] at hlive hstream hposted
    refine ⟨hlive, fun e' => ?_⟩
    rw [Extends, hstream e', hposted e'.peer, stream, hstack, running_flush, List.append_nil]
  · rename_i e stack hstack
    exact absurd (by simp [hstack]) (h.unclosed e).2

/-- A first `start` moves the backlog behind the messages in flight. -/
theorem start (h : Live s) (tr : List Obs) (e : End) :
    Live (s.start e) ∧ (∀ e' ≠ e, stream e' tr (s.start e) = stream e' tr s) ∧
      stream e tr (s.start e) =
        if (s.port e).started then stream e tr s
        else received e tr ++ running e s.stack ++ (inFlight e s.queue ++ (s.port e).queued) := by
  by_cases hstarted : (s.port e).started = true
  · rw [Pair.start, if_pos hstarted, if_pos hstarted]
    exact ⟨h, fun _ _ => rfl, rfl⟩
  · have hset := h.setPort e (p := { s.port e with started := true, queued := [] })
      (h.alive e) (h.opened e) (fun _ => rfl) fun _ => rfl
    simp only [Pair.start, hstarted, Bool.false_eq_true, if_false]
    split_ifs with hqueued
    · refine ⟨hset, fun e' he => ?_, ?_⟩
      · simp [stream, Function.update_of_ne he]
      · simp [stream, hqueued]
    · refine ⟨⟨hset.alive, hset.opened, hset.started, fun e' queued hm => ?_, fun e' => ?_⟩,
        fun e' he => ?_, ?_⟩
      · obtain hm | hm := List.mem_append.mp hm
        · exact hset.flushing e' queued hm
        · simp only [List.mem_singleton, Event.flush.injEq] at hm
          simp [hm.1]
      · simpa using hset.unclosed e'
      · simp [stream, Function.update_of_ne he, Ne.symm he]
      · simp [stream]

end Live

/-! ### Every step -/

variable {tr os : List Obs} {s s' : Pair} {a : Action}

/-- What was posted is what was and is to be emitted, on both ends. -/
def InOrder (tr : List Obs) (s : Pair) : Prop := ∀ e, stream e tr s = posted e.peer tr

/-- A pair in a run: an end that was not started yet has its messages in order. -/
structure Flowing (tr : List Obs) (s : Pair) : Prop extends Live s where
  waiting : ∀ e, (s.port e).started = false → stream e tr s = posted e.peer tr

namespace Flowing

theorem initial : Flowing [] {} := ⟨Live.initial, fun _ _ => rfl⟩

theorem of_extends (h : Flowing tr s) (hs : Loopback.step s a = some (s', os)) (hlive : Live s')
    (hextends : ∀ e, Live.Extends e tr os s s') :
    Flowing (tr ++ os) s' ∧ (InOrder (tr ++ os) s' ↔ InOrder tr s) := by
  have horder : ∀ e, stream e (tr ++ os) s' = posted e.peer (tr ++ os) ↔
      stream e tr s = posted e.peer tr := fun e => by
    rw [hextends e, posted_append, List.append_left_inj]
  refine ⟨⟨hlive, fun e hwaiting => (horder e).mpr (h.waiting e ?_)⟩, forall_congr' horder⟩
  by_contra hstarted
  rw [step_started hs e (by simpa using hstarted)] at hwaiting
  cases hwaiting

theorem start (h : Flowing tr s) (e : End) :
    Flowing (tr ++ []) (s.start e) ∧
      (InOrder (tr ++ []) (s.start e) ↔ InOrder tr s ∧ StartedInStep tr s (.start e)) := by
  obtain ⟨hlive, hother, hself⟩ := h.toLive.start tr e
  have hnow : ((s.start e).port e).started = true := by
    simp only [Pair.start]
    split_ifs with hstarted
    · exact hstarted
    · simp
    · simp
  rw [List.append_nil]
  refine ⟨⟨hlive, fun e' hwaiting => ?_⟩, fun horder => ⟨fun e' => ?_, fun hstarted => ?_⟩,
    fun h' e' => ?_⟩
  · have he : e' ≠ e := fun he => by simp [he, hnow] at hwaiting
    rw [hother e' he]
    apply h.waiting e'
    by_contra hstarted
    have := step_started (a := .start e) (if_pos (h.alive e)) e' (by simpa using hstarted)
    rw [this] at hwaiting
    cases hwaiting
  · by_cases he : e' = e
    · subst he
      cases hstarted : (s.port e').started with
      | false => exact h.waiting e' hstarted
      | true => simpa [hself, hstarted] using horder e'
    · rw [← hother e' he]
      exact horder e'
  · have := (h.waiting e hstarted).trans (horder e).symm
    rw [hself, hstarted, stream, List.append_assoc] at this
    simpa using this
  · obtain ⟨horder, hstep⟩ := h'
    by_cases he : e' = e
    · subst he
      rw [hself]
      split_ifs with hstarted
      · exact horder e'
      · rw [← hstep (by simpa using hstarted), ← List.append_assoc]
        exact horder e'
    · rw [hother e' he]
      exact horder e'

/-- **A step keeps the order if it is not a `start` out of step, and no step restores it.** -/
theorem step (h : Flowing tr s) (hopen : StaysOpen tr s a)
    (hs : Loopback.step s a = some (s', os)) :
    Flowing (tr ++ os) s' ∧ (InOrder (tr ++ os) s' ↔ InOrder tr s ∧ StartedInStep tr s a) := by
  have hplain : Live s' → (∀ e, Live.Extends e tr os s s') → Flowing (tr ++ os) s' ∧
      (InOrder (tr ++ os) s' ↔ InOrder tr s ∧ True) := fun hlive hextends => by
    rw [and_true]
    exact h.of_extends hs hlive hextends
  cases a with
  | post e message =>
      simp only [Loopback.step, h.alive, if_true, Option.some.injEq] at hs
      obtain ⟨hlive, hextends⟩ := h.toLive.post tr e message
      rw [hs] at hlive hextends
      exact hplain hlive hextends
  | start e =>
      simp only [Loopback.step, h.alive, if_true, Option.some.injEq] at hs
      obtain ⟨rfl, rfl⟩ := Prod.mk.inj hs
      exact h.start e
  | close e => exact hopen.elim
  | destroy e => exact hopen.elim
  | turn =>
      simp only [Loopback.step] at hs
      split at hs
      · rename_i event queue hstack hqueue
        obtain ⟨hlive, hextends⟩ := h.toLive.turn tr hstack hqueue
        rw [Option.some.inj hs] at hlive hextends
        exact hplain hlive hextends
      · cases hs
  | ret =>
      obtain ⟨hlive, hextends⟩ := h.toLive.ret tr hs
      exact hplain hlive hextends

end Flowing

theorem run_flowing (h : machine.Run StaysOpen tr s) : Flowing tr s :=
  h.invariant Flowing.initial fun hf hopen hs => (hf.step hopen hs).1

theorem run_inOrder (h : machine.Run (Machine.both StaysOpen StartedInStep) tr s) :
    InOrder tr s := by
  induction h with
  | start => exact fun _ => rfl
  | step h hg hs ih => exact ((run_flowing h.left).step hg.1 hs).2.mpr ⟨ih, hg.2⟩

theorem inOrder_run (h : machine.Run StaysOpen tr s) (horder : InOrder tr s) :
    machine.Run (Machine.both StaysOpen StartedInStep) tr s := by
  induction h with
  | start => exact .start
  | step h hg hs ih =>
      obtain ⟨hbefore, hstep⟩ := ((run_flowing h).step hg hs).2.mp horder
      exact (ih hbefore).step ⟨hg, hstep⟩ hs

/-- Nothing is under way any more. -/
def Drained (s : Pair) : Prop := s.queue = [] ∧ s.stack = []

theorem Flowing.stream_drained (h : Flowing tr s) (hd : Drained s) (e : End)
    (hstarted : (s.port e).started = true) : stream e tr s = received e tr := by
  simp [stream, hd.1, hd.2, h.started e hstarted]

/-- `post` and `start` emit nothing themselves. -/
theorem silent_post_start (h : ∃ e, a = .start e ∨ ∃ message, a = .post e message)
    (hs : Loopback.step s a = some (s', os)) (e : End) : received e os = [] := by
  obtain ⟨e', rfl | ⟨message, rfl⟩⟩ := h
  · obtain ⟨-, -, rfl⟩ := Machine.taken_if hs
    rfl
  · obtain ⟨-, -, rfl⟩ := Machine.taken_if hs
    unfold Pair.post
    split_ifs <;> rfl

/-- **The port keeps the order exactly of the runs that start their ends in step.**  Along these
every end has at every moment emitted a prefix of what its peer was given, emits nothing on the
stack of `post` or `start`, and once it is started and nothing is under way it has emitted
everything.  A run that ends so without loss or reordering has started its ends in step. -/
theorem messages_in_order_iff_started_in_step (tr : List Obs) (s : Pair) :
    (machine.Run (Machine.both StaysOpen StartedInStep) tr s →
      (∀ e, received e tr <+: posted e.peer tr) ∧
      (∀ e, (s.port e).started = true → Drained s → received e tr = posted e.peer tr) ∧
      ∀ a s' os, (∃ e, a = .start e ∨ ∃ message, a = .post e message) →
        machine.step s a = some (s', os) → ∀ e, received e os = []) ∧
    (machine.Run StaysOpen tr s → Drained s →
      (∀ e, (s.port e).started = true → received e tr = posted e.peer tr) →
      machine.Run (Machine.both StaysOpen StartedInStep) tr s) := by
  constructor
  · intro h
    refine ⟨fun e => ?_, fun e hstarted hd => ?_, fun a s' os ha hs => silent_post_start ha hs⟩
    · rw [← run_inOrder h e, stream, List.append_assoc, List.append_assoc]
      exact List.prefix_append _ _
    · rw [← run_inOrder h e, (run_flowing h.left).stream_drained hd e hstarted]
  · intro h hd hall
    apply inOrder_run h
    intro e
    cases hstarted : (s.port e).started with
    | false => exact (run_flowing h).waiting e hstarted
    | true =>
        rw [(run_flowing h).stream_drained hd e hstarted]
        exact hall e hstarted

/-- Two messages, the first in the backlog and the second in flight when the port is started. -/
theorem late_start_reorders :
    ∃ tr s, machine.Run StaysOpen tr s ∧ Drained s ∧ (s.port .b).started = true ∧
      posted .a tr = [[1], [2]] ∧ received .b tr = [[2], [1]] := by
  have h := Machine.exec_run (M := machine) (G := StaysOpen)
    [.post .a [1], .turn, .post .a [2], .start .b, .turn, .ret, .turn, .ret] rfl
  exact ⟨_, _, h, ⟨rfl, rfl⟩, rfl, rfl, rfl⟩

/-- Started before anything is in flight: two messages come out as they were posted. -/
theorem started_in_step_keeps_order :
    ∃ tr s, machine.Run (Machine.both StaysOpen StartedInStep) tr s ∧
      posted .a tr = [[1], [2]] ∧ received .b tr = posted .a tr := by
  have h := Machine.exec_run (M := machine) (G := Machine.both StaysOpen StartedInStep)
    [.post .a [1], .turn, .start .b, .post .a [2], .turn, .ret, .turn, .ret] rfl
  exact ⟨_, _, h, rfl, ((messages_in_order_iff_started_in_step _ _).1 h).2.1 .b rfl ⟨rfl, rfl⟩⟩

end LogosViewRuntime.Loopback
