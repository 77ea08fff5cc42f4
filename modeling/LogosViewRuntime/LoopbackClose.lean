import LogosViewRuntime.LoopbackPort

/-! # The end of a loopback port

What the two ends report when one of them goes away.  A step leaves both ends as open and as alive
as they were, closes one end, or destroys one (`step_effect`), and from this follow the two
properties of runs that a reader of a port relies on.

* **The report.**  A port reports its own close at once and the close of its peer when the event
  the peer queued is run.  The event dies with the peer, and a peer destroyed while it is open
  queues none: a port that outlives its peer while it is open itself stays open for ever.  These
  `Orphaned` ports are the only ones that a pair at rest owes a report
  (`reported_iff_not_orphaned`).
* **Silence.**  `deliver` looks at `m_open` before each message and the backlog flush only before
  the first, so a slot that closes its own port in the middle of a flush receives the rest of the
  backlog after `closed()` (`silent_iff_flushes_open`). -/

namespace LogosViewRuntime.Loopback

open Reactive

namespace Pair

/-- The close of `e` is on its way to the peer. -/
def Closing (e : End) (s : Pair) : Prop := .close e ∈ s.stack ∨ .closePeer e ∈ s.queue

/-- The port whose backlog flush goes on when the slots return. -/
def flushing (s : Pair) : Option End :=
  match s.stack with
  | .flush e (_ :: _) :: _ => some e
  | _ => none

/-- No port function is under way and the event loop has nothing to do. -/
def AtRest (s : Pair) : Prop := s.stack = [] ∧ s.queue = []

end Pair

/-! ### What a step does to the ends -/

/-- Events and calls are those of living ports. -/
structure Living (s : Pair) : Prop where
  events : ∀ event ∈ s.queue, (s.port event.port).alive = true
  frames : ∀ frame ∈ s.stack, (s.port frame.port).alive = true

/-- Both ends are as alive and as open as before, and a close on its way to an open peer is not
lost. -/
structure Same (s s' : Pair) : Prop where
  living : Living s → Living s'
  alive : ∀ e, (s'.port e).alive = (s.port e).alive
  opened : ∀ e, (s'.port e).opened = (s.port e).opened
  closing : ∀ e, s.Closing e → (s.port e.peer).alive = true → (s.port e.peer).opened = true →
    s'.Closing e

/-- `e` is closed and its peer is to hear of it. -/
structure Closes (e : End) (s s' : Pair) : Prop where
  living : Living s → Living s'
  was : (s.port e).opened = true
  alive : ∀ e', (s'.port e').alive = (s.port e').alive
  opened : (s'.port e).opened = false
  peer : (s'.port e.peer).opened = (s.port e.peer).opened
  closing : s'.Closing e

theorem Same.refl (s : Pair) : Same s s where
  living h := h
  alive _ := rfl
  opened _ := rfl
  closing _ h _ _ := h

/-- Writing back a port that is as alive and as open as it was. -/
theorem Same.setPort (e : End) {p : Port} (s : Pair) (halive : p.alive = (s.port e).alive)
    (hopened : p.opened = (s.port e).opened) : Same s (s.setPort e p) := by
  have hsame : ∀ e', ((s.setPort e p).port e').alive = (s.port e').alive ∧
      ((s.setPort e p).port e').opened = (s.port e').opened := by
    intro e'
    rw [Pair.setPort_port]
    by_cases he : e' = e
    · rw [he, Function.update_self]
      exact ⟨halive, hopened⟩
    · rw [Function.update_of_ne he]
      exact ⟨rfl, rfl⟩
  refine ⟨fun h => ⟨fun event hm => ?_, fun frame hm => ?_⟩, fun e' => (hsame e').1,
    fun e' => (hsame e').2, fun _ h _ _ => h⟩
  · rw [(hsame _).1]
    exact h.events event hm
  · rw [(hsame _).1]
    exact h.frames frame hm

/-- A living port queues an event. -/
theorem Same.queue (s : Pair) {event : Event} (halive : (s.port event.port).alive = true) :
    Same s { s with queue := s.queue ++ [event] } where
  living h := ⟨fun event' hm => (List.mem_append.mp hm).elim (h.events event') fun hm => by
    rwa [List.mem_singleton.mp hm], h.frames⟩
  alive _ := rfl
  opened _ := rfl
  closing _ h _ _ := h.imp id fun hm => List.mem_append_left _ hm

/-- A living port calls its slots. -/
theorem Same.call (s : Pair) {frame : Frame} (halive : (s.port frame.port).alive = true) :
    Same s { s with stack := frame :: s.stack } where
  living h := ⟨h.events, List.forall_mem_cons.mpr ⟨halive, h.frames⟩⟩
  alive _ := rfl
  opened _ := rfl
  closing _ h _ _ := h.imp (fun hm => List.mem_cons_of_mem _ hm) id

theorem Same.trans {s s₁ s₂ : Pair} (h : Same s s₁) (h' : Same s₁ s₂) : Same s s₂ where
  living hl := h'.living (h.living hl)
  alive e := (h'.alive e).trans (h.alive e)
  opened e := (h'.opened e).trans (h.opened e)
  closing e hc ha ho := h'.closing e (h.closing e hc ha ho) ((h.alive _).trans ha)
    ((h.opened _).trans ho)

/-- The event loop takes an event that is not the close of an open peer. -/
theorem Same.pop {s : Pair} {event : Event} {queue : List Event} (hqueue : s.queue = event :: queue)
    (hevent : ∀ e, event = .closePeer e →
      (s.port e.peer).alive = false ∨ (s.port e.peer).opened = false) :
    Same s ({ s with queue } : Pair) where
  living h := ⟨fun event' hm => h.events event' (hqueue ▸ List.mem_cons_of_mem _ hm), h.frames⟩
  alive _ := rfl
  opened _ := rfl
  closing e hc ha ho := by
    refine hc.imp id fun hm => ?_
    rw [hqueue] at hm
    obtain he | hm := List.mem_cons.mp hm
    · obtain hdead | hclosed := hevent e he.symm
      · rw [hdead] at ha
        cases ha
      · rw [hclosed] at ho
        cases ho
    · exact hm

theorem Closes.close {e : End} {s : Pair} (halive : (s.port e).alive = true)
    (hopened : (s.port e).opened = true) : Closes e s (s.close e).1 := by
  have hpeer : e.peer ≠ e := by cases e <;> decide
  have hports : ∀ e', ((s.setPort e { s.port e with opened := false }).port e').alive =
      (s.port e').alive := by
    intro e'
    rw [Pair.setPort_port]
    by_cases he : e' = e
    · rw [he, Function.update_self]
    · rw [Function.update_of_ne he]
  simp only [Pair.close, hopened, Bool.not_true, Bool.false_eq_true, if_false]
  refine ⟨fun h => ⟨fun event hm => ?_, fun frame hm => ?_⟩, hopened, hports, ?_, ?_, ?_⟩
  · exact (hports _).trans (h.events event hm)
  · refine (hports _).trans ?_
    obtain rfl | hm := List.mem_cons.mp hm
    · exact halive
    · exact h.frames frame hm
  · simp
  · simp [Function.update_of_ne hpeer]
  · exact .inl List.mem_cons_self

/-- What a step does to the ends and what it emits. -/
inductive Effect (s : Pair) : Action → Pair × List Obs → Prop
  | quiet {a : Action} {s' : Pair} {os : List Obs} (hsame : Same s s')
      (hos : os = [] ∨ ∃ e message, os = [.posted e message])
      (hclose : ∀ e, a = .close e → (s.port e).opened = false) (hdestroy : ∀ e, a ≠ .destroy e) :
      Effect s a (s', os)
  | received {a : Action} {s' : Pair} (e : End) (message : QByteArray) (hsame : Same s s')
      (hopened : (s.port e).opened = true ∨ a = .ret ∧ s.flushing = some e)
      (ha : a = .turn ∨ a = .ret) : Effect s a (s', [.messageReceived e message])
  | closed {a : Action} {s' : Pair} (e : End) (hcloses : Closes e s s')
      (ha : a = .close e ∨ a = .turn ∧ (s.port e.peer).alive = true) : Effect s a (s', [.closed e])
  | destroyed (e : End) (hframes : ∀ frame ∈ s.stack, frame.port ≠ e) :
      Effect s (.destroy e) (s.destroy e, [])

variable {s s' : Pair} {os : List Obs} {a : Action}

theorem post_effect (e : End) (message : QByteArray) (halive : (s.port e).alive = true) :
    Effect s (.post e message) (s.post e message) := by
  unfold Pair.post
  split_ifs
  · exact .quiet (.refl s) (.inl rfl) (by simp) (by simp)
  · exact .quiet (.queue s halive) (.inr ⟨e, message, rfl⟩) (by simp) (by simp)

theorem start_effect (e : End) (halive : (s.port e).alive = true) :
    Effect s (.start e) (s.start e, []) := by
  have hset := Same.setPort e (p := { s.port e with started := true, queued := [] }) s rfl rfl
  simp only [Pair.start]
  split_ifs
  · exact .quiet (.refl s) (.inl rfl) (by simp) (by simp)
  · exact .quiet hset (.inl rfl) (by simp) (by simp)
  · exact .quiet (hset.trans (.queue _ ((hset.alive e).trans halive))) (.inl rfl) (by simp) (by simp)

theorem close_effect (e : End) (halive : (s.port e).alive = true) :
    Effect s (.close e) (s.close e) := by
  cases hopened : (s.port e).opened with
  | false =>
      rw [Pair.close, if_pos (by simp [hopened])]
      refine .quiet (.refl s) (.inl rfl) ?_ (by simp)
      rintro _ ⟨⟩
      exact hopened
  | true =>
      have hcloses := Closes.close halive hopened
      rw [Pair.close, if_neg (by simp [hopened])] at hcloses ⊢
      exact .closed e hcloses (.inl rfl)

theorem turn_effect (hliving : Living s) {event : Event} {queue : List Event}
    (hqueue : s.queue = event :: queue) :
    Effect s .turn (({ s with queue } : Pair).runEvent event) := by
  have halive := hliving.events event (by simp [hqueue])
  cases event with
  | deliver e message =>
      have hpop : Same s { s with queue } := .pop hqueue (by simp)
      simp only [Pair.runEvent, Pair.deliver]
      split_ifs with hpeer hopened hstarted
      · exact .quiet hpop (.inl rfl) (by simp) (by simp)
      · exact .quiet (hpop.trans (.setPort _ _ rfl rfl)) (.inl rfl) (by simp) (by simp)
      · exact .received e.peer message (hpop.trans (.call _ hpeer)) (.inl (by simpa using hopened))
          (.inl rfl)
      · exact .quiet hpop (.inl rfl) (by simp) (by simp)
  | flush e queued =>
      have hpop : Same s { s with queue } := .pop hqueue (by simp)
      simp only [Pair.runEvent]
      split_ifs with hopened
      · cases queued with
        | nil => exact .quiet hpop (.inl rfl) (by simp) (by simp)
        | cons message rest =>
            exact .received e message (hpop.trans (.call _ halive)) (.inl hopened) (.inl rfl)
      · exact .quiet hpop (.inl rfl) (by simp) (by simp)
  | closePeer e =>
      simp only [Pair.runEvent]
      split_ifs with hpeer
      · cases hopened : (s.port e.peer).opened with
        | false =>
            rw [Pair.close, if_pos (by simp [hopened])]
            refine .quiet (.pop hqueue ?_) (.inl rfl) (by simp) (by simp)
            rintro _ ⟨⟩
            exact .inr hopened
        | true =>
            have hcloses := Closes.close (s := { s with queue }) hpeer hopened
            rw [Pair.close, if_neg (by simp [hopened])] at hcloses ⊢
            refine .closed e.peer ?_ (.inr ⟨rfl, by rwa [End.peer_peer]⟩)
            exact { hcloses with
              living := fun h => hcloses.living
                ⟨fun event hm => h.events event (by simp [hqueue, show event ∈ queue from hm]),
                  h.frames⟩ }
      · refine .quiet (.pop hqueue ?_) (.inl rfl) (by simp) (by simp)
        rintro _ ⟨⟩
        exact .inl (by simpa using hpeer)

theorem ret_effect (hliving : Living s) (hs : s.ret = some (s', os)) : Effect s .ret (s', os) := by
  have hpop : ∀ frame stack, s.stack = frame :: stack → (∀ e, frame ≠ .close e) →
      Same s { s with stack } := by
    intro frame stack hstack hframe
    refine ⟨fun h => ⟨h.events, fun frame' hm => h.frames frame' ?_⟩, fun _ => rfl, fun _ => rfl,
      fun e hc _ _ => hc.imp (fun hm => ?_) id⟩
    · rw [hstack]
      exact List.mem_cons_of_mem _ hm
    · rw [hstack] at hm
      exact (List.mem_cons.mp hm).resolve_left (hframe e).symm
  unfold Pair.ret at hs
  split at hs
  · cases hs
  · rename_i e stack hstack
    obtain ⟨rfl, rfl⟩ := Prod.mk.inj (Option.some.inj hs)
    exact .quiet (hpop _ _ hstack (by simp)) (.inl rfl) (by simp) (by simp)
  · rename_i e rest stack hstack
    have halive := hliving.frames (.flush e rest) (by simp [hstack])
    cases rest with
    | nil =>
        obtain ⟨rfl, rfl⟩ := Prod.mk.inj (Option.some.inj hs)
        exact .quiet (hpop _ _ hstack (by simp)) (.inl rfl) (by simp) (by simp)
    | cons message rest =>
        obtain ⟨rfl, rfl⟩ := Prod.mk.inj (Option.some.inj hs)
        exact .received e message ((hpop _ _ hstack (by simp)).trans (.call _ halive))
          (.inr ⟨rfl, by rw [Pair.flushing, hstack]⟩) (.inr rfl)
  · rename_i e stack hstack
    have halive := hliving.frames (.close e) (by simp [hstack])
    obtain ⟨rfl, rfl⟩ := Prod.mk.inj (Option.some.inj hs)
    refine .quiet ⟨fun h => ⟨fun event hm => ?_, fun frame hm => h.frames frame ?_⟩, fun _ => rfl,
      fun _ => rfl, fun e' hc _ _ => ?_⟩ (.inl rfl) (by simp) (by simp)
    · obtain hm | hm := List.mem_append.mp hm
      · exact h.events event hm
      · obtain rfl := List.mem_singleton.mp hm
        exact halive
    · rw [hstack]
      exact List.mem_cons_of_mem _ hm
    -- the frame that is taken off is the close of `e`, which now is in the queue
    · obtain hm | hm := hc
      · rw [hstack] at hm
        obtain he | hm := List.mem_cons.mp hm
        · obtain rfl : e' = e := by simpa using he
          exact .inr (List.mem_append_right _ List.mem_cons_self)
        · exact .inl hm
      · exact .inr (List.mem_append_left _ hm)

theorem step_effect (hliving : Living s) (hs : step s a = some (s', os)) :
    Effect s a (s', os) := by
  cases a with
  | post e message =>
      obtain ⟨halive, rfl, rfl⟩ := Machine.taken_if hs
      exact post_effect e message halive
  | start e =>
      obtain ⟨halive, rfl, rfl⟩ := Machine.taken_if hs
      exact start_effect e halive
  | close e =>
      obtain ⟨halive, rfl, rfl⟩ := Machine.taken_if hs
      exact close_effect e halive
  | destroy e =>
      obtain ⟨⟨-, hframes⟩, rfl, rfl⟩ := Machine.taken_if hs
      exact .destroyed e hframes
  | turn =>
      simp only [step] at hs
      split at hs
      · rename_i event queue _ hqueue
        rw [← Option.some.inj hs]
        exact turn_effect hliving hqueue
      · cases hs
  | ret => exact ret_effect hliving hs

theorem step_living (hliving : Living s) (hs : step s a = some (s', os)) : Living s' := by
  cases step_effect hliving hs with
  | quiet hsame => exact hsame.living hliving
  | received _ _ hsame => exact hsame.living hliving
  | closed _ hcloses => exact hcloses.living hliving
  | destroyed e hframes =>
      have hport : ∀ e', e' ≠ e → ((s.destroy e).port e').alive = (s.port e').alive := by
        intro e' he
        simp [Pair.destroy, Function.update_of_ne he]
      refine ⟨fun event hm => ?_, fun frame hm => ?_⟩
      · obtain ⟨hm, hne⟩ := List.mem_filter.mp hm
        rw [hport _ (of_decide_eq_true hne)]
        exact hliving.events event hm
      · rw [hport _ (hframes frame hm)]
        exact hliving.frames frame hm

/-! ### What was reported -/

/-- The reports of closing, and the one that is under way for a peer that is still open. -/
structure Told (tr : List Obs) (s : Pair) : Prop where
  living : Living s
  count : ∀ e, tr.count (.closed e) = if (s.port e).opened then 0 else 1
  closing : ∀ e, (s.port e).opened = false → (s.port e).alive = true →
    (s.port e.peer).alive = true → (s.port e.peer).opened = true → s.Closing e

namespace Told

variable {tr : List Obs}

theorem initial : Told [] {} where
  living := ⟨by simp, by simp⟩
  count _ := rfl
  closing _ h := by cases h

/-- What was reported is what is closed. -/
theorem mem_iff (h : Told tr s) (e : End) : .closed e ∈ tr ↔ (s.port e).opened = false := by
  rw [← List.count_pos_iff, h.count e]
  cases (s.port e).opened <;> simp

theorem same (h : Told tr s) (hsame : Same s s') (hos : ∀ e, os.count (.closed e) = 0) :
    Told (tr ++ os) s' where
  living := hsame.living h.living
  count e := by rw [List.count_append, h.count e, hos e, hsame.opened e, Nat.add_zero]
  closing e hopened halive hpeer hpeerOpened := by
    rw [hsame.opened] at hopened hpeerOpened
    rw [hsame.alive] at halive hpeer
    exact hsame.closing e (h.closing e hopened halive hpeer hpeerOpened) hpeer hpeerOpened

theorem closes (h : Told tr s) {e : End} (hcloses : Closes e s s') :
    Told (tr ++ [.closed e]) s' where
  living := hcloses.living h.living
  count e' := by
    rw [List.count_append, h.count e']
    obtain rfl | rfl : e' = e ∨ e' = e.peer := by cases e <;> cases e' <;> decide
    · simp [hcloses.was, hcloses.opened]
    · have hne : Obs.closed e ≠ .closed e.peer := by cases e <;> decide
      simp [hcloses.peer, List.count_cons_of_ne hne]
  closing e' hopened _ _ hpeerOpened := by
    obtain rfl | rfl : e' = e ∨ e' = e.peer := by cases e <;> cases e' <;> decide
    · exact hcloses.closing
    · rw [End.peer_peer, hcloses.opened] at hpeerOpened
      cases hpeerOpened

theorem destroy (h : Told tr s) (e : End) (hliving : Living (s.destroy e)) :
    Told tr (s.destroy e) where
  living := hliving
  count e' := by
    rw [h.count e']
    by_cases he : e' = e
    · simp [Pair.destroy, he]
    · simp [Pair.destroy, Function.update_of_ne he]
  closing e' _ halive hpeer _ := by
    have hdead : ((s.destroy e).port e).alive = false := by simp [Pair.destroy]
    obtain rfl | rfl : e' = e ∨ e'.peer = e := by cases e <;> cases e' <;> decide
    · rw [hdead] at halive
      cases halive
    · rw [hdead] at hpeer
      cases hpeer

theorem step (h : Told tr s) (hs : Loopback.step s a = some (s', os)) : Told (tr ++ os) s' := by
  have hliving := step_living h.living hs
  cases step_effect h.living hs with
  | quiet hsame hos =>
      refine h.same hsame fun e => ?_
      obtain rfl | ⟨_, _, rfl⟩ := hos <;> rfl
  | received e message hsame => exact h.same hsame fun e' => rfl
  | closed e hcloses => exact h.closes hcloses
  | destroyed e =>
      rw [List.append_nil]
      exact h.destroy e hliving

end Told

theorem run_told {G : List Obs → Pair → Action → Prop} {tr : List Obs} (h : machine.Run G tr s) :
    Told tr s := h.invariant .initial fun ht _ hs => ht.step hs

/-! ### Ports that outlive their peer -/

abbrev Step := Machine.Taken Pair Action Obs

/-- The peer of `e` was destroyed while `e` was open, and `e` was not closed or destroyed since. -/
def Orphaned (e : End) (h : List Step) : Prop :=
  Machine.Since (fun m => m.label = .destroy e.peer ∧ (m.before.port e).alive = true ∧
      (m.before.port e).opened = true)
    (fun m => m.label ≠ .close e ∧ m.label ≠ .destroy e) h

/-- The reports of a run with its steps in view, and the ports that are orphaned. -/
structure Accounted (h : List Step) (s : Pair) : Prop where
  told : Told (h.flatMap (·.os)) s
  orphaned : ∀ e, Orphaned e h ↔
    (s.port e).alive = true ∧ (s.port e).opened = true ∧ (s.port e.peer).alive = false

theorem Accounted.initial : Accounted [] {} where
  told := .initial
  orphaned e := iff_of_false (Machine.since_nil _ _) (by simp)

theorem Accounted.step {h : List Step} (hi : Accounted h s) (hs : Loopback.step s a = some (s', os)) :
    Accounted (h ++ [⟨s, a, os, s'⟩]) s' := by
  have htold := hi.told.step hs
  refine ⟨by simpa using htold, fun e => ?_⟩
  rw [Orphaned, Machine.since_snoc, ← Orphaned, hi.orphaned e]
  cases step_effect hi.told.living hs with
  | quiet hsame hos hclose hdestroy =>
      rw [hsame.alive, hsame.opened, hsame.alive]
      constructor
      · rintro (⟨hlabel, -⟩ | ⟨horphaned, -⟩)
        · exact absurd hlabel (hdestroy _)
        · exact horphaned
      · rintro ⟨halive, hopened, hpeer⟩
        refine .inr ⟨⟨halive, hopened, hpeer⟩, fun hlabel => ?_, hdestroy e⟩
        rw [hclose e hlabel] at hopened
        cases hopened
  | received e' message hsame hopened ha =>
      rw [hsame.alive, hsame.opened, hsame.alive]
      obtain rfl | rfl := ha <;> simp
  | closed e' hcloses ha =>
      rw [hcloses.alive, hcloses.alive]
      obtain rfl | rfl : e = e' ∨ e = e'.peer := by cases e <;> cases e' <;> decide
      · obtain rfl | ⟨rfl, hpeer⟩ := ha
        · simp [hcloses.opened]
        · simp [hcloses.opened, hpeer]
      · rw [hcloses.peer]
        obtain rfl | ⟨rfl, -⟩ := ha
        · have hne : e' ≠ e'.peer := by cases e' <;> decide
          simp [hne]
        · simp
  | destroyed e' =>
      obtain rfl | rfl : e' = e ∨ e' = e.peer := by cases e <;> cases e' <;> decide
      · have hne : e' ≠ e'.peer := by cases e' <;> decide
        simp [Pair.destroy, hne]
      · have hne : e ≠ e.peer := by cases e <;> decide
        simp only [Pair.destroy, Pair.setPort_port, Function.update_of_ne hne, Function.update_self]
        constructor
        · rintro (⟨-, halive, hopened⟩ | ⟨⟨halive, hopened, -⟩, -⟩)
          · exact ⟨halive, hopened, trivial⟩
          · exact ⟨halive, hopened, trivial⟩
        · rintro ⟨halive, hopened, -⟩
          exact .inl ⟨trivial, halive, hopened⟩

theorem run_accounted {G : List Step → Pair → Action → Prop} {h : List Step}
    (hrun : machine.shown.Run G h s) : Accounted h s := by
  refine hrun.invariant (I := Accounted) .initial fun hi _ hs => ?_
  obtain ⟨os, hos, rfl⟩ := Machine.shown_step.mp hs
  exact hi.step hos

/-- No port reports its close twice, and at rest a living port that is not open has reported it
once, unless it is orphaned. -/
theorem reported_iff_not_orphaned {h : List Step} (hrun : machine.shown.Run Machine.always h s) :
    (∀ e, (h.flatMap (·.os)).count (.closed e) ≤ 1) ∧ (s.AtRest → ∀ e,
      ((s.port e).alive = true → s.isOpen e = false → (h.flatMap (·.os)).count (.closed e) = 1) ↔
        ¬ Orphaned e h) := by
  obtain ⟨htold, horphaned⟩ := run_accounted hrun
  refine ⟨fun e => ?_, fun hrest e => ?_⟩
  · rw [htold.count e]
    split_ifs <;> decide
  · rw [horphaned e, htold.count e]
    constructor
    · rintro hreported ⟨halive, hopened, hpeer⟩
      have hone := hreported halive (by simp [Pair.isOpen, hpeer])
      rw [hopened] at hone
      cases hone
    · intro hnot halive hclosed
      cases hopened : (s.port e).opened with
      | false => rfl
      | true =>
          exfalso
          have hpeer : (s.port e.peer).alive = true := by
            by_contra hdead
            exact hnot ⟨halive, hopened, by simpa using hdead⟩
          have hpeerClosed : (s.port e.peer).opened = false := by
            simpa [Pair.isOpen, hopened, hpeer] using hclosed
          -- so the peer closed itself and its report cannot be under way any more
          have hclosing := htold.closing e.peer hpeerClosed hpeer
            (by rwa [End.peer_peer]) (by rwa [End.peer_peer])
          rw [Pair.Closing, hrest.1, hrest.2] at hclosing
          simp at hclosing

/-- The closing end is destroyed before the event it queued is run: the other end, alive and not
open, reports nothing. -/
theorem destroyed_end_is_not_reported :
    ∃ tr s, machine.Run Machine.always tr s ∧ s.AtRest ∧ (s.port .a).alive = true ∧
      s.isOpen .a = false ∧ tr.count (.closed .a) = 0 := by
  have h := Machine.exec_run (M := machine) (G := Machine.always) [.close .b, .ret, .destroy .b] rfl
  exact ⟨_, _, h, ⟨rfl, rfl⟩, rfl, rfl, rfl⟩

/-- Both ends living on, one close is reported once at each of them. -/
theorem close_is_reported_at_both_ends :
    ∃ (h : List Step) (s : Pair), machine.shown.Run Machine.always h s ∧ s.AtRest ∧
      ∀ e, s.isOpen e = false ∧ (h.flatMap (·.os)).count (.closed e) = 1 := by
  have h := Machine.exec_run (M := machine.shown) (G := Machine.always)
    [.close .b, .ret, .turn, .ret, .turn] rfl
  refine ⟨_, _, h, ⟨rfl, rfl⟩, fun e => ⟨by cases e <;> rfl, ?_⟩⟩
  refine (((reported_iff_not_orphaned h).2 ⟨rfl, rfl⟩ e).mpr fun horphaned => ?_) ?_ ?_
  · have hdead := (((run_accounted h).orphaned e).mp horphaned).2.2
    cases e <;> cases hdead
  · cases e <;> rfl
  · cases e <;> rfl

/-! ### Silence after the report -/

/-- Nothing is received by a port that has reported its close. -/
def Silent (tr : List Obs) : Prop :=
  Machine.Each (fun before o => ∀ e message, o = .messageReceived e message → .closed e ∉ before) tr

/-- A backlog flush goes on only while its port is open. -/
def FlushesOpen (_ : List Obs) (s : Pair) : Action → Prop
  | .ret => ∀ e ∈ s.flushing, (s.port e).opened = true
  | _ => True

instance (tr : List Obs) (s : Pair) : (a : Action) → Decidable (FlushesOpen tr s a)
  | .ret => inferInstanceAs (Decidable (∀ e ∈ s.flushing, (s.port e).opened = true))
  | .post .. | .start _ | .close _ | .destroy _ | .turn => inferInstanceAs (Decidable True)

/-- The flush goes on with its next message. -/
theorem ret_flushing {e : End} (hflushing : s.flushing = some e) (hs : step s .ret = some (s', os)) :
    ∃ message, os = [.messageReceived e message] := by
  unfold Pair.flushing at hflushing
  split at hflushing
  · rename_i e' message rest stack hstack
    obtain rfl := Option.some.inj hflushing
    simp only [step, Pair.ret, hstack, Pair.flush, Option.some.injEq, Prod.mk.injEq] at hs
    exact ⟨message, hs.2.symm⟩
  · cases hflushing

theorem silent_step {tr : List Obs} (htold : Told tr s) (hsilent : Silent tr)
    (hs : step s a = some (s', os)) : Silent (tr ++ os) ↔ FlushesOpen tr s a := by
  have hreceived : ∀ e message, Silent (tr ++ [.messageReceived e message]) ↔
      (s.port e).opened = true := by
    intro e message
    have hmem := htold.mem_iff e
    rw [Silent, Machine.each_snoc, ← Silent]
    constructor
    · rintro ⟨-, hnot⟩
      have hclosed := hnot e message rfl
      rw [hmem] at hclosed
      simpa using hclosed
    · intro hopened
      refine ⟨hsilent, ?_⟩
      rintro _ _ ⟨⟩
      rw [hmem, hopened]
      decide
  have hsnoc : ∀ o, (∀ e message, o ≠ Obs.messageReceived e message) → Silent (tr ++ [o]) :=
    fun o ho => Machine.each_snoc.mpr ⟨hsilent, fun e message he => absurd he (ho e message)⟩
  by_cases hflush : ∃ e, a = .ret ∧ s.flushing = some e
  · obtain ⟨e, rfl, hflushing⟩ := hflush
    obtain ⟨message, rfl⟩ := ret_flushing hflushing hs
    rw [hreceived]
    have hcondition : FlushesOpen tr s .ret ↔ ∀ e ∈ s.flushing, (s.port e).opened = true := .rfl
    rw [hcondition, hflushing]
    simp
  · have hcondition : FlushesOpen tr s a := by
      cases a with
      | ret =>
          intro e he
          exact absurd ⟨e, rfl, he⟩ hflush
      | post | start | close | destroy | turn => trivial
    refine iff_of_true ?_ hcondition
    cases step_effect htold.living hs with
    | quiet hsame hos =>
        obtain rfl | ⟨_, _, rfl⟩ := hos
        · rwa [List.append_nil]
        · exact hsnoc _ (by simp)
    | received e message hsame hopened =>
        refine (hreceived e message).mpr (hopened.resolve_right fun hret => ?_)
        exact hflush ⟨e, hret⟩
    | closed e => exact hsnoc _ (by simp)
    | destroyed e => simpa using hsilent

/-- A port receives nothing after it has reported its close, at every moment of a run, if and only
if it is still open whenever the slots of a flushed message return with more of the backlog left. -/
theorem silent_iff_flushes_open (tr : List Obs) (s : Pair) :
    (machine.Run FlushesOpen tr s → Silent tr) ∧
      (machine.Run (machine.keeps fun tr _ => Silent tr) tr s → machine.Run FlushesOpen tr s) := by
  obtain ⟨hsilent, hflushes⟩ := Machine.Run.exact_always (M := machine) (C := FlushesOpen)
    (P := fun tr _ => Silent tr) (Machine.each_nil _) fun hrun hsilent hs =>
      silent_step (run_told hrun) hsilent hs
  exact ⟨hsilent tr s, hflushes tr s⟩

/-- A backlog of two, and the slot of its first message closes the port. -/
theorem closed_port_receives_its_backlog :
    ∃ tr s, machine.Run Machine.always tr s ∧ ¬ Silent tr := by
  have h := Machine.exec_run (M := machine) (G := Machine.always)
    [.post .a [1], .post .a [2], .turn, .turn, .start .b, .turn, .close .b, .ret, .ret] rfl
  refine ⟨_, _, h, fun hsilent => ?_⟩
  exact hsilent [.posted .a [1], .posted .a [2], .messageReceived .b [1], .closed .b]
    (.messageReceived .b [2]) [] rfl .b [2] rfl (by decide)

/-- Closed while its messages are in flight, the port receives none of them. -/
theorem closed_port_drops_what_is_in_flight :
    ∃ tr s, machine.Run FlushesOpen tr s ∧ .closed .b ∈ tr ∧ Silent tr := by
  have h := Machine.exec_run (M := machine) (G := FlushesOpen)
    [.start .b, .post .a [1], .post .a [2], .turn, .close .b, .ret, .ret, .turn] rfl
  exact ⟨_, _, h, by decide, (silent_iff_flushes_open _ _).1 h⟩

end LogosViewRuntime.Loopback
