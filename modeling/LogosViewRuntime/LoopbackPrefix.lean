import LogosViewRuntime.LoopbackOrder

/-! # What a loopback port delivers when ends are closed or destroyed

`LoopbackOrder` keeps both ends open; here anything may happen to them at any moment.  `ahead e` is
what `e` is still to emit: the rest of a flush that is being delivered and, while `e` is open, its
backlog and what is in flight.  A step makes `received ++ ahead` longer by what the peer posted, or
cuts it off somewhere, after which the peer can post no more (`Queued.step`).  So what an end
emitted stays a prefix of what its peer posted as long as no first `start` finds a backlog and
messages in flight (`Kept.step`). -/

namespace LogosViewRuntime.Loopback

open Reactive

/-- A first `start` finds no backlog or no messages in flight. -/
def StartsClear (_ : List Obs) (s : Pair) : Action → Prop
  | .start e => (s.port e).started = false →
      (s.port e).queued = [] ∨ inFlight e s.queue = []
  | _ => True

instance (tr : List Obs) (s : Pair) : (a : Action) → Decidable (StartsClear tr s a)
  | .start e => inferInstanceAs (Decidable ((s.port e).started = false →
      (s.port e).queued = [] ∨ inFlight e s.queue = []))
  | .post .. | .close _ | .destroy _ | .turn | .ret => inferInstanceAs (Decidable True)

namespace Pair

/-- The end still emits what it is handed. -/
def hears (e : End) (s : Pair) : Bool := (s.port e).alive && (s.port e).opened

/-- What the end posts is emitted by its peer. -/
def Joined (e : End) (s : Pair) : Prop := (s.port e).alive = true ∧ s.hears e.peer = true

theorem joined_of_same {s s' : Pair} {e : End}
    (halive : ∀ e, (s'.port e).alive = (s.port e).alive)
    (hopened : ∀ e, (s'.port e).opened = (s.port e).opened) : s'.Joined e → s.Joined e := by
  rw [Joined, Joined, hears, hears, halive, halive, hopened]
  exact id

end Pair

/-- What `e` is still to emit if nothing more happens to it. -/
def ahead (e : End) (s : Pair) : List QByteArray :=
  running e s.stack ++ if s.hears e then (s.port e).queued ++ inFlight e s.queue else []

@[simp] theorem received_nil (e : End) : received e [] = [] := rfl

@[simp] theorem received_closed (e e' : End) : received e [.closed e'] = [] := rfl

@[simp] theorem posted_closed (e e' : End) : posted e [.closed e'] = [] := rfl

@[simp] theorem inFlight_closePeer (e e' : End) (queue : List Event) :
    inFlight e (.closePeer e' :: queue) = inFlight e queue := rfl

@[simp] theorem running_close (e e' : End) (stack : List Frame) :
    running e (.close e' :: stack) = running e stack := rfl

/-! ### The order of the event queue -/

/-- A flush does not come after a message of the peer. -/
def InTurn (x y : Event) : Prop :=
  ∀ e message queued, x = .deliver (End.peer e) message → y ≠ .flush e queued

/-- A started end has no backlog any more, and its flush comes before what its peer posted later. -/
structure Queued (s : Pair) : Prop where
  backlog : ∀ e, (s.port e).started = true → (s.port e).queued = []
  flushed : ∀ e queued, .flush e queued ∈ s.queue →
    (s.port e).started = true ∧ (s.port e).alive = true
  flushing : ∀ e rest, .flush e rest ∈ s.stack → (s.port e).started = true
  inTurn : s.queue.Pairwise InTurn

theorem End.peer_eq_of_ne {e e' : End} (h : e' ≠ e) : e' = e.peer := by
  revert h
  cases e <;> cases e' <;> decide

theorem End.peer_ne (e : End) : e.peer ≠ e := by cases e <;> decide

/-- What the peer did not queue is in a flush. -/
theorem inFlight_filter_of_not_flush {queue : List Event} {e : End}
    (h : ∀ queued, .flush e queued ∉ queue) :
    inFlight e (queue.filter fun event => event.port ≠ e.peer) = [] := by
  refine List.flatMap_eq_nil_iff.mpr fun event hm => ?_
  obtain ⟨hmem, hport⟩ := List.mem_filter.mp hm
  have hne : event.port ≠ e.peer := of_decide_eq_true hport
  cases event with
  | deliver e' message =>
      have he : e'.peer ≠ e := fun he => hne (by rw [← he, End.peer_peer]; rfl)
      simp [he]
  | flush e' queued =>
      have he : e' ≠ e := by
        rintro rfl
        exact h queued hmem
      simp [he]
  | closePeer _ => rfl

/-- Without what the peer queued, a prefix of what is in flight remains. -/
theorem inFlight_filter {queue : List Event} (e : End)
    (h : queue.Pairwise InTurn) :
    inFlight e (queue.filter fun event => event.port ≠ e.peer) <+: inFlight e queue := by
  induction queue with
  | nil => exact List.prefix_rfl
  | cons event queue ih =>
      obtain ⟨hlater, hrest⟩ := List.pairwise_cons.mp h
      have htail := ih hrest
      cases event with
      | deliver e' message =>
          by_cases he : e' = e.peer
          · rw [List.filter_cons_of_neg (by simp [Event.port, he]), inFlight_filter_of_not_flush]
            · exact List.nil_prefix
            · intro queued hm
              exact hlater _ hm e message queued (by rw [he]) rfl
          · rw [List.filter_cons_of_pos (by simp [Event.port, he])]
            simpa [End.peer_eq_iff, he] using htail
      | flush e' queued =>
          by_cases he : e' = e
          · rw [List.filter_cons_of_pos (by simp [Event.port, he, (End.peer_ne e).symm])]
            simp only [inFlight_flush, he, if_true]
            exact (List.prefix_append_right_inj _).mpr htail
          · rw [List.filter_cons_of_neg (by simp [Event.port, End.peer_eq_of_ne he])]
            simpa [he] using htail
      | closePeer e' =>
          by_cases he : e' = e.peer
          · rw [List.filter_cons_of_neg (by simp [Event.port, he])]
            exact htail
          · rw [List.filter_cons_of_pos (by simp [Event.port, he])]
            exact htail

/-! ### What a step does to what is ahead -/

/-- A step carries on the messages of the peer, or cuts them off for good. -/
inductive Carries (e : End) (os : List Obs) (s s' : Pair) : Prop
  | keeps (hahead : received e os ++ ahead e s' = ahead e s ++ posted e.peer os)
      (hposted : posted e.peer os ≠ [] → s.Joined e.peer)
      (hback : s'.Joined e.peer → s.Joined e.peer)
  | cuts (hahead : received e os ++ ahead e s' <+: ahead e s) (hposted : posted e.peer os = [])
      (hlost : ¬ s'.Joined e.peer)

variable {s s' : Pair} {os : List Obs} {a : Action}

/-- Nothing is emitted or posted and the ends are as they were. -/
theorem Carries.of_eq {e : End} (hport : s'.port = s.port)
    (hrunning : running e s'.stack = running e s.stack)
    (hflight : inFlight e s'.queue = inFlight e s.queue) : Carries e [] s s' := by
  refine .keeps ?_ (fun h => absurd rfl h) ?_
  · simp [ahead, Pair.hears, hport, hrunning, hflight]
  · exact Pair.joined_of_same (fun _ => by rw [hport]) fun _ => by rw [hport]

theorem Queued.initial : Queued {} := ⟨fun _ _ => rfl, by simp, by simp, .nil⟩

namespace Queued

/-- The event loop takes the oldest event. -/
theorem pop (h : Queued s) {event : Event} {queue : List Event} (hqueue : s.queue = event :: queue) :
    Queued ({ s with queue } : Pair) where
  backlog := h.backlog
  flushed e queued hm := h.flushed e queued (by simp [hqueue, show _ ∈ queue from hm])
  flushing := h.flushing
  inTurn := (List.pairwise_cons.mp (hqueue ▸ h.inTurn)).2

/-- Writing back a port that is still alive and not stopped. -/
theorem setPort (h : Queued s) (e : End) {p : Port} (halive : (s.port e).alive = true → p.alive = true)
    (hstarted : (s.port e).started = true → p.started = true)
    (hbacklog : p.started = true → p.queued = []) : Queued (s.setPort e p) := by
  refine ⟨fun e' => ?_, fun e' queued hm => ?_, fun e' rest hm => ?_, h.inTurn⟩
  all_goals rw [Pair.setPort_port]; by_cases he : e' = e
  · rwa [he, Function.update_self]
  · rw [Function.update_of_ne he]
    exact h.backlog e'
  · rw [he, Function.update_self]
    rw [he] at hm
    exact (h.flushed e queued hm).imp hstarted halive
  · rw [Function.update_of_ne he]
    exact h.flushed e' queued hm
  · rw [he, Function.update_self]
    exact hstarted (he ▸ h.flushing e' rest hm)
  · rw [Function.update_of_ne he]
    exact h.flushing e' rest hm

/-- Queueing a lambda that comes in turn. -/
theorem push (h : Queued s) {event : Event} (hturn : ∀ x ∈ s.queue, InTurn x event)
    (hflush : ∀ e queued, event = .flush e queued →
      (s.port e).started = true ∧ (s.port e).alive = true) :
    Queued { s with queue := s.queue ++ [event] } where
  backlog := h.backlog
  flushed e queued hm := by
    obtain hm | hm := List.mem_append.mp hm
    · exact h.flushed e queued hm
    · exact hflush e queued (List.mem_singleton.mp hm).symm
  flushing := h.flushing
  inTurn := List.pairwise_append.mpr
    ⟨h.inTurn, List.pairwise_singleton .., fun x hx y hy => List.mem_singleton.mp hy ▸ hturn x hx⟩

/-- Calling slots; a flush goes on at an end that is started. -/
theorem call (h : Queued s) {frame : Frame}
    (hframe : ∀ e rest, frame = .flush e rest → (s.port e).started = true) :
    Queued { s with stack := frame :: s.stack } where
  backlog := h.backlog
  flushed := h.flushed
  flushing e rest hm := (List.mem_cons.mp hm).elim (fun he => hframe e rest he.symm)
    (h.flushing e rest)
  inTurn := h.inTurn

theorem post (h : Queued s) (e : End) (message : QByteArray) (halive : (s.port e).alive = true) :
    Queued (s.post e message).1 ∧ ∀ e', Carries e' (s.post e message).2 s (s.post e message).1 := by
  unfold Pair.post
  split_ifs with hopen
  · exact ⟨h, fun _ => .of_eq rfl rfl rfl⟩
  · have hopen : s.isOpen e = true := by simpa using hopen
    refine ⟨h.push (fun x _ e' message' queued _ => by simp) (by simp), fun e' => .keeps ?_ ?_ id⟩
    · by_cases he : e.peer = e'
      · subst he
        have hpeer : (s.port e.peer).alive = true ∧ (s.port e.peer).opened = true := by
          simp only [Pair.isOpen, Bool.and_eq_true] at hopen
          exact ⟨hopen.1.2, hopen.2⟩
        simp [ahead, Pair.hears, hpeer]
      · have hpeer : e ≠ e'.peer := fun h => he (End.peer_eq_iff.mpr h)
        simp [ahead, Pair.hears, he, hpeer]
    · rw [posted_posted]
      split_ifs with he
      · rw [← he]
        simp only [Pair.isOpen, Bool.and_eq_true] at hopen
        exact fun _ => ⟨halive, by simp [Pair.hears, hopen]⟩
      · exact fun h => absurd rfl h

theorem start (h : Queued s) (e : End) (halive : (s.port e).alive = true)
    (hclear : (s.port e).started = false → (s.port e).queued = [] ∨ inFlight e s.queue = []) :
    Queued (s.start e) ∧ ∀ e', Carries e' [] s (s.start e) := by
  by_cases hstarted : (s.port e).started = true
  · rw [Pair.start, if_pos hstarted]
    exact ⟨h, fun _ => .of_eq rfl rfl rfl⟩
  · have hset := h.setPort e (p := { s.port e with started := true, queued := [] }) (fun h => h)
      (fun _ => rfl) fun _ => rfl
    have hjoined : ∀ e' queue, Pair.Joined e'
        { s.setPort e { s.port e with started := true, queued := [] } with queue } →
          s.Joined e' := by
      intro e' queue
      apply Pair.joined_of_same
      all_goals
        intro e₁
        simp only [Pair.setPort_port, Function.update_apply]
        split_ifs with he
        · rw [he]
        · rfl
    simp only [Pair.start, hstarted, Bool.false_eq_true, if_false]
    split_ifs with hqueued
    · refine ⟨hset, fun e' => .keeps ?_ (by simp) (hjoined e'.peer s.queue)⟩
      by_cases he : e' = e
      · subst he
        simp [ahead, Pair.hears, hqueued]
      · simp [ahead, Pair.hears, Function.update_of_ne he]
    · have hnone := (hclear (by simpa using hstarted)).resolve_left hqueued
      refine ⟨hset.push ?_ ?_, fun e' => .keeps ?_ (by simp) (hjoined e'.peer _)⟩
      · -- a message of the peer before the flush would be in flight
        rintro x hx e' message queued rfl ⟨⟩
        have hm := List.flatMap_eq_nil_iff.mp hnone _ hx
        simp at hm
      · rintro e' queued ⟨⟩
        simpa using halive
      · by_cases he : e' = e
        · subst he
          simp [ahead, Pair.hears, hnone]
        · simp [ahead, Pair.hears, Function.update_of_ne he, Ne.symm he]

theorem close (h : Queued s) (e : End) :
    Queued (s.close e).1 ∧ ∀ e', Carries e' (s.close e).2 s (s.close e).1 := by
  unfold Pair.close
  split_ifs with hopened
  · exact ⟨h, fun _ => .of_eq rfl rfl rfl⟩
  · have hset := h.setPort e (p := { s.port e with opened := false }) (fun h => h) (fun h => h)
      (h.backlog e)
    refine ⟨hset.call (by simp), fun e' => ?_⟩
    by_cases he : e' = e
    · subst he
      refine .cuts ?_ rfl ?_
      · simp [ahead, Pair.hears]
      · simp [Pair.Joined, Pair.hears]
    · obtain rfl := End.peer_eq_of_ne he
      refine .keeps ?_ (by simp) ?_
      · simp [ahead, Pair.hears, Function.update_of_ne he]
      · simp [Pair.Joined, Pair.hears, Function.update_of_ne he]

theorem destroy (h : Queued s) (e : End) :
    Queued (s.destroy e) ∧ ∀ e', Carries e' [] s (s.destroy e) := by
  have hsame : ∀ e', ((s.destroy e).port e').started = (s.port e').started ∧
      ((s.destroy e).port e').queued = (s.port e').queued := by
    intro e'
    simp only [Pair.destroy, Pair.setPort_port, Function.update_apply]
    split_ifs with he
    · rw [he]
      exact ⟨rfl, rfl⟩
    · exact ⟨rfl, rfl⟩
  refine ⟨⟨fun e' => ?_, fun e' queued hm => ?_, fun e' rest hm => ?_, h.inTurn.filter _⟩,
    fun e' => ?_⟩
  · rw [(hsame e').1, (hsame e').2]
    exact h.backlog e'
  · obtain ⟨hm, hport⟩ := List.mem_filter.mp hm
    have he : e' ≠ e := of_decide_eq_true hport
    simpa [Pair.destroy, Function.update_of_ne he] using h.flushed e' queued hm
  · rw [(hsame e').1]
    exact h.flushing e' rest hm
  · by_cases he : e' = e
    · subst he
      refine .cuts ?_ rfl ?_
      · simp [ahead, Pair.hears, Pair.destroy]
      · simp [Pair.Joined, Pair.hears, Pair.destroy]
    · obtain rfl := End.peer_eq_of_ne he
      refine .cuts ?_ rfl ?_
      · have hfilter := inFlight_filter e.peer h.inTurn
        rw [End.peer_peer] at hfilter
        have hhears : (s.destroy e).hears e.peer = s.hears e.peer := by
          simp [Pair.hears, Pair.destroy, Function.update_of_ne he]
        rw [received_nil, List.nil_append, ahead, ahead, hhears]
        apply (List.prefix_append_right_inj _).mpr
        by_cases hears : s.hears e.peer = true
        · rw [if_pos hears, if_pos hears]
          simp only [Pair.destroy, Pair.setPort_port, Function.update_of_ne he]
          exact (List.prefix_append_right_inj _).mpr hfilter
        · simp only [if_neg hears, List.prefix_refl]
      · simp [Pair.Joined, Pair.destroy]

theorem deliver (h : Queued s) (hstack : s.stack = []) (e : End) (message : QByteArray)
    {queue : List Event} (hqueue : s.queue = .deliver e message :: queue)
    (halive : (s.port e.peer).alive = true) :
    Queued (({ s with queue } : Pair).deliver e.peer message).1 ∧
      ∀ e', Carries e' (({ s with queue } : Pair).deliver e.peer message).2 s
        (({ s with queue } : Pair).deliver e.peer message).1 := by
  have hpop := h.pop hqueue
  unfold Pair.deliver
  split_ifs with hopened hstarted
  · refine ⟨hpop, fun e' => .keeps ?_ (by simp) id⟩
    by_cases he : e.peer = e'
    · subst he
      simp [ahead, Pair.hears, show (s.port e.peer).opened = false by simpa using hopened]
    · simp [ahead, Pair.hears, hqueue, he]
  · have hset := hpop.setPort e.peer
      (p := { s.port e.peer with queued := (s.port e.peer).queued ++ [message] }) (fun h => h)
      (fun h => h) (by simpa using hstarted)
    refine ⟨hset, fun e' => .keeps ?_ (by simp) (Pair.joined_of_same ?_ ?_)⟩
    · by_cases he : e.peer = e'
      · subst he
        have hopened : (s.port e.peer).opened = true := by simpa using hopened
        simp [ahead, Pair.hears, hqueue, halive, hopened]
      · simp [ahead, Pair.hears, hqueue, he, Function.update_of_ne (Ne.symm he)]
    all_goals
      intro e₁
      simp only [Pair.setPort_port, Function.update_apply]
      split_ifs with he
      · rw [he]
      · rfl
  · refine ⟨hpop.call (by simp), fun e' => .keeps ?_ (by simp) id⟩
    have hbacklog := h.backlog e.peer (by simpa using hstarted)
    by_cases he : e.peer = e'
    · subst he
      have hopened : (s.port e.peer).opened = true := by simpa using hopened
      simp [ahead, Pair.hears, hqueue, hstack, halive, hopened, hbacklog]
    · simp [ahead, Pair.hears, hqueue, he]

theorem flush (h : Queued s) (hstack : s.stack = []) (e : End) {queued : List QByteArray}
    {queue : List Event} (hqueue : s.queue = .flush e queued :: queue)
    (hopened : (s.port e).opened = true) :
    Queued (({ s with queue } : Pair).flush e queued).1 ∧
      ∀ e', Carries e' (({ s with queue } : Pair).flush e queued).2 s
        (({ s with queue } : Pair).flush e queued).1 := by
  have hpop := h.pop hqueue
  obtain ⟨hstarted, halive⟩ := h.flushed e queued (by simp [hqueue])
  have hbacklog := h.backlog e hstarted
  cases queued with
  | nil =>
      refine ⟨hpop, fun e' => .of_eq rfl rfl ?_⟩
      simp [Pair.flush, hqueue]
  | cons message rest =>
      have hcall : ∀ e' rest', Frame.flush e rest = .flush e' rest' → (s.port e').started = true := by
        rintro e' rest' ⟨⟩
        exact hstarted
      refine ⟨hpop.call hcall, fun e' => .keeps ?_ (by simp [Pair.flush]) id⟩
      by_cases he : e = e'
      · subst he
        simp [Pair.flush, ahead, Pair.hears, hqueue, hstack, hopened, halive, hbacklog]
      · simp [Pair.flush, ahead, Pair.hears, hqueue, he]

theorem turn (h : Queued s) (hstack : s.stack = []) {event : Event} {queue : List Event}
    (hqueue : s.queue = event :: queue) :
    Queued (({ s with queue } : Pair).runEvent event).1 ∧
      ∀ e, Carries e (({ s with queue } : Pair).runEvent event).2 s
        (({ s with queue } : Pair).runEvent event).1 := by
  have hpop := h.pop hqueue
  cases event with
  | deliver e message =>
      simp only [Pair.runEvent]
      split_ifs with halive
      · exact h.deliver hstack e message hqueue halive
      · refine ⟨hpop, fun e' => .keeps ?_ (by simp) id⟩
        by_cases he : e.peer = e'
        · subst he
          simp [ahead, Pair.hears, show (s.port e.peer).alive = false by simpa using halive]
        · simp [ahead, Pair.hears, hqueue, he]
  | flush e queued =>
      simp only [Pair.runEvent]
      split_ifs with hopened
      · exact h.flush hstack e hqueue hopened
      · refine ⟨hpop, fun e' => .keeps ?_ (by simp) id⟩
        by_cases he : e = e'
        · subst he
          simp [ahead, Pair.hears, show (s.port e).opened = false by simpa using hopened]
        · simp [ahead, Pair.hears, hqueue, he]
  | closePeer e =>
      have hsame : ∀ e', ahead e' { s with queue } = ahead e' s := fun e' => by
        simp [ahead, Pair.hears, hqueue]
      simp only [Pair.runEvent]
      split_ifs with halive
      · obtain ⟨hqueued, hcarries⟩ := hpop.close e.peer
        refine ⟨hqueued, fun e' => ?_⟩
        cases hcarries e' with
        | keeps hahead hposted hback => exact .keeps (hsame e' ▸ hahead) hposted hback
        | cuts hahead hposted hlost => exact .cuts (hsame e' ▸ hahead) hposted hlost
      · exact ⟨hpop, fun e' => .of_eq rfl rfl (by simp [hqueue])⟩

theorem ret (h : Queued s) (hs : s.ret = some (s', os)) :
    Queued s' ∧ ∀ e, Carries e os s s' := by
  have hpop : ∀ frame stack, s.stack = frame :: stack → Queued ({ s with stack } : Pair) :=
    fun frame stack hstack => ⟨h.backlog, h.flushed, fun e rest hm =>
      h.flushing e rest (by simp [hstack, show _ ∈ stack from hm]), h.inTurn⟩
  unfold Pair.ret at hs
  split at hs
  · cases hs
  · rename_i e stack hstack
    obtain ⟨rfl, rfl⟩ := Prod.mk.inj (Option.some.inj hs)
    exact ⟨hpop _ _ hstack, fun e' => .of_eq rfl (by simp [hstack]) rfl⟩
  · rename_i e rest stack hstack
    cases rest with
    | nil =>
        obtain ⟨rfl, rfl⟩ := Prod.mk.inj (Option.some.inj hs)
        exact ⟨hpop _ _ hstack, fun e' => .of_eq rfl (by simp [hstack]) rfl⟩
    | cons message rest =>
        obtain ⟨rfl, rfl⟩ := Prod.mk.inj (Option.some.inj hs)
        have hcall : ∀ e' rest', Frame.flush e rest = .flush e' rest' →
            (s.port e').started = true := by
          rintro e' rest' ⟨⟩
          exact h.flushing e (message :: rest) (by simp [hstack])
        refine ⟨(hpop _ _ hstack).call hcall, fun e' => .keeps ?_ (by simp) id⟩
        by_cases he : e = e'
        · simp [ahead, Pair.hears, hstack, he]
        · simp [ahead, Pair.hears, hstack, he]
  · rename_i e stack hstack
    obtain ⟨rfl, rfl⟩ := Prod.mk.inj (Option.some.inj hs)
    refine ⟨(hpop _ _ hstack).push (fun x _ e' message queued _ => by simp) (by simp),
      fun e' => .of_eq rfl ?_ ?_⟩
    · simp [hstack]
    · simp

/-- Every step. -/
theorem step {tr : List Obs} (h : Queued s) (hclear : StartsClear tr s a)
    (hs : Loopback.step s a = some (s', os)) : Queued s' ∧ ∀ e, Carries e os s s' := by
  cases a with
  | post e message =>
      obtain ⟨halive, rfl, rfl⟩ := Machine.taken_if hs
      exact h.post e message halive
  | start e =>
      obtain ⟨halive, rfl, rfl⟩ := Machine.taken_if hs
      exact h.start e halive hclear
  | close e =>
      obtain ⟨-, rfl, rfl⟩ := Machine.taken_if hs
      exact h.close e
  | destroy e =>
      obtain ⟨-, rfl, rfl⟩ := Machine.taken_if hs
      exact h.destroy e
  | turn =>
      simp only [Loopback.step] at hs
      split at hs
      · rename_i event queue hstack hqueue
        obtain ⟨hqueued, hcarries⟩ := h.turn hstack hqueue
        rw [Option.some.inj hs] at hqueued hcarries
        exact ⟨hqueued, hcarries⟩
      · cases hs
  | ret => exact h.ret hs

/-- An end that was not started emits nothing. -/
theorem started_of_received (h : Queued s) (hs : Loopback.step s a = some (s', os)) {e : End}
    {message : QByteArray} (hm : .messageReceived e message ∈ os) : (s.port e).started = true := by
  have hclose : ∀ (s : Pair) e', .messageReceived e message ∉ (s.close e').2 := by
    intro s e'
    unfold Pair.close
    split_ifs <;> simp
  have hflush : ∀ (s : Pair) e' queued, .messageReceived e message ∈ (s.flush e' queued).2 →
      e = e' := by
    intro s e' queued hm
    cases queued with
    | nil => simp [Pair.flush] at hm
    | cons first rest => exact (Obs.messageReceived.inj (List.mem_singleton.mp hm)).1
  cases a with
  | post e' message' =>
      obtain ⟨-, -, rfl⟩ := Machine.taken_if hs
      unfold Pair.post at hm
      split_ifs at hm <;> simp at hm
  | start e' =>
      obtain ⟨-, -, rfl⟩ := Machine.taken_if hs
      simp at hm
  | close e' =>
      obtain ⟨-, -, rfl⟩ := Machine.taken_if hs
      exact absurd hm (hclose s e')
  | destroy e' =>
      obtain ⟨-, -, rfl⟩ := Machine.taken_if hs
      simp at hm
  | turn =>
      simp only [Loopback.step] at hs
      split at hs
      · rename_i event queue hstack hqueue
        obtain rfl : (({ s with queue } : Pair).runEvent event).2 = os := by rw [Option.some.inj hs]
        cases event with
        | deliver e' message' =>
            simp only [Pair.runEvent, Pair.deliver] at hm
            split_ifs at hm with halive hopened hstarted <;> simp at hm
            obtain ⟨rfl, rfl⟩ := hm
            simpa using hstarted
        | flush e' queued =>
            simp only [Pair.runEvent] at hm
            split_ifs at hm
            · rw [hflush _ _ _ hm]
              exact (h.flushed e' queued (by simp [hqueue])).1
            · simp at hm
        | closePeer e' =>
            simp only [Pair.runEvent] at hm
            split_ifs at hm
            · exact absurd hm (hclose _ _)
            · simp at hm
      · cases hs
  | ret =>
      simp only [Loopback.step, Pair.ret] at hs
      split at hs
      · cases hs
      · obtain ⟨-, rfl⟩ := Prod.mk.inj (Option.some.inj hs)
        simp at hm
      · rename_i e' rest stack hstack
        obtain rfl : (({ s with stack } : Pair).flush e' rest).2 = os := by rw [Option.some.inj hs]
        rw [hflush _ _ _ hm]
        exact h.flushing e' rest (by simp [hstack])
      · obtain ⟨-, rfl⟩ := Prod.mk.inj (Option.some.inj hs)
        simp at hm

end Queued

/-- Ends are started by `start` only. -/
theorem step_unstarted (hs : Loopback.step s a = some (s', os)) (e : End) (ha : a ≠ .start e) :
    (s'.port e).started = (s.port e).started := by
  have hset : ∀ (s : Pair) e' (p : Port), p.started = (s.port e').started →
      ((s.setPort e' p).port e).started = (s.port e).started := by
    intro s e' p hp
    simp only [Pair.setPort_port, Function.update_apply]
    split_ifs with he
    · rw [hp, he]
    · rfl
  have hclose : ∀ (s : Pair) e', ((s.close e').1.port e).started = (s.port e).started := by
    intro s e'
    unfold Pair.close
    split_ifs
    · rfl
    · exact hset s e' _ rfl
  have hflush : ∀ (s : Pair) e' queued,
      ((s.flush e' queued).1.port e).started = (s.port e).started := by
    intro s e' queued
    cases queued <;> rfl
  cases a with
  | post e' message =>
      obtain ⟨-, rfl, -⟩ := Machine.taken_if hs
      unfold Pair.post
      split_ifs <;> rfl
  | start e' =>
      obtain ⟨-, rfl, -⟩ := Machine.taken_if hs
      have hne : e ≠ e' := fun he => ha (by rw [he])
      simp only [Pair.start]
      split_ifs
      · rfl
      · simp [Function.update_of_ne hne]
      · simp [Function.update_of_ne hne]
  | close e' =>
      obtain ⟨-, rfl, -⟩ := Machine.taken_if hs
      exact hclose s e'
  | destroy e' =>
      obtain ⟨-, rfl, -⟩ := Machine.taken_if hs
      exact hset s e' _ rfl
  | turn =>
      simp only [Loopback.step] at hs
      split at hs
      · rename_i event queue hstack hqueue
        obtain rfl : (({ s with queue } : Pair).runEvent event).1 = s' := by rw [Option.some.inj hs]
        cases event with
        | deliver e' message =>
            simp only [Pair.runEvent, Pair.deliver]
            split_ifs
            · rfl
            · exact hset _ _ _ rfl
            · rfl
            · rfl
        | flush e' queued =>
            simp only [Pair.runEvent]
            split_ifs
            · exact hflush _ _ _
            · rfl
        | closePeer e' =>
            simp only [Pair.runEvent]
            split_ifs
            · exact hclose _ _
            · rfl
      · cases hs
  | ret =>
      simp only [Loopback.step, Pair.ret] at hs
      split at hs
      · cases hs
      · obtain ⟨rfl, -⟩ := Prod.mk.inj (Option.some.inj hs)
        rfl
      · rename_i e' rest stack hstack
        obtain rfl : (({ s with stack } : Pair).flush e' rest).1 = s' := by rw [Option.some.inj hs]
        exact hflush _ _ _
      · obtain ⟨rfl, -⟩ := Prod.mk.inj (Option.some.inj hs)
        rfl

/-- Messages are posted by `post` only. -/
theorem step_unposted (hs : Loopback.step s a = some (s', os)) (ha : ∀ e message, a ≠ .post e message)
    (e : End) : posted e os = [] := by
  have hclose : ∀ (s : Pair) e', posted e (s.close e').2 = [] := by
    intro s e'
    unfold Pair.close
    split_ifs <;> rfl
  have hflush : ∀ (s : Pair) e' queued, posted e (s.flush e' queued).2 = [] := by
    intro s e' queued
    cases queued <;> rfl
  cases a with
  | post e' message => exact absurd rfl (ha e' message)
  | start e' =>
      obtain ⟨-, -, rfl⟩ := Machine.taken_if hs
      rfl
  | close e' =>
      obtain ⟨-, -, rfl⟩ := Machine.taken_if hs
      exact hclose s e'
  | destroy e' =>
      obtain ⟨-, -, rfl⟩ := Machine.taken_if hs
      rfl
  | turn =>
      simp only [Loopback.step] at hs
      split at hs
      · rename_i event queue hstack hqueue
        obtain rfl : (({ s with queue } : Pair).runEvent event).2 = os := by rw [Option.some.inj hs]
        cases event with
        | deliver e' message =>
            simp only [Pair.runEvent, Pair.deliver]
            split_ifs <;> rfl
        | flush e' queued =>
            simp only [Pair.runEvent]
            split_ifs
            · exact hflush _ _ _
            · rfl
        | closePeer e' =>
            simp only [Pair.runEvent]
            split_ifs
            · exact hclose _ _
            · rfl
      · cases hs
  | ret =>
      simp only [Loopback.step, Pair.ret] at hs
      split at hs
      · cases hs
      · obtain ⟨-, rfl⟩ := Prod.mk.inj (Option.some.inj hs)
        rfl
      · rename_i e' rest stack hstack
        obtain rfl : (({ s with stack } : Pair).flush e' rest).2 = os := by rw [Option.some.inj hs]
        exact hflush _ _ _
      · obtain ⟨-, rfl⟩ := Prod.mk.inj (Option.some.inj hs)
        rfl

/-! ### Runs -/

/-- What `e` emitted and is to emit is a prefix of what its peer posted, and all of it as long as
what the peer posts arrives. -/
structure Kept (tr : List Obs) (s : Pair) : Prop where
  queued : Queued s
  within : ∀ e, received e tr ++ ahead e s <+: posted e.peer tr
  whole : ∀ e, s.Joined e.peer → received e tr ++ ahead e s = posted e.peer tr

namespace Kept

variable {tr : List Obs}

theorem initial : Kept [] {} := ⟨Queued.initial, fun _ => List.prefix_rfl, fun _ _ => rfl⟩

theorem step (h : Kept tr s) (hclear : StartsClear tr s a)
    (hs : Loopback.step s a = some (s', os)) : Kept (tr ++ os) s' := by
  obtain ⟨hqueued, hcarries⟩ := h.queued.step hclear hs
  have heach : ∀ e, received e (tr ++ os) ++ ahead e s' <+: posted e.peer (tr ++ os) ∧
      (s'.Joined e.peer →
        received e (tr ++ os) ++ ahead e s' = posted e.peer (tr ++ os)) := by
    intro e
    rw [received_append, posted_append, List.append_assoc]
    cases hcarries e with
    | keeps hahead hposted hback =>
        rw [hahead, ← List.append_assoc]
        by_cases hjoined : s.Joined e.peer
        · rw [h.whole e hjoined]
          exact ⟨List.prefix_rfl, fun _ => rfl⟩
        · rw [Classical.not_not.mp (mt hposted hjoined), List.append_nil, List.append_nil]
          exact ⟨h.within e, fun hjoined' => absurd (hback hjoined') hjoined⟩
    | cuts hahead hposted hlost =>
        rw [hposted, List.append_nil]
        refine ⟨List.IsPrefix.trans ?_ (h.within e), fun hjoined => absurd hjoined hlost⟩
        exact (List.prefix_append_right_inj _).mpr hahead
  exact ⟨hqueued, fun e => (heach e).1, fun e => (heach e).2⟩

end Kept

end LogosViewRuntime.Loopback
