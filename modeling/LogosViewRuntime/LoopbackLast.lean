import LogosViewRuntime.LoopbackClose
import LogosViewRuntime.LoopbackPrefix

/-! # The last message of a loopback port

A `close` is queued behind what its end posted, and nothing is posted after it.  So an end that was
started before its peer closed has emitted everything when it emits `closed` for its peer
(`last_close`). -/

namespace LogosViewRuntime.Loopback

open Reactive

variable {s s' : Pair} {os : List Obs} {a : Action}

/-- A first `start` finds the peer open. -/
def StartsOpen (_ : List Obs) (s : Pair) : Action → Prop
  | .start e => (s.port e).started = false → (s.port e.peer).opened = true
  | _ => True

instance (tr : List Obs) (s : Pair) : (a : Action) → Decidable (StartsOpen tr s a)
  | .start e => inferInstanceAs (Decidable ((s.port e).started = false →
      (s.port e.peer).opened = true))
  | .post .. | .close _ | .destroy _ | .turn | .ret => inferInstanceAs (Decidable True)

/-- Nothing for the peer comes after a close. -/
def Final (x y : Event) : Prop := ∀ e, x = .closePeer e → inFlight e.peer [y] = []

/-- The close of an end comes after everything it posted. -/
structure Closed (s : Pair) : Prop where
  living : Living s
  closed : ∀ e, s.Closing e → (s.port e).opened = false
  final : s.queue.Pairwise Final

namespace Closed

theorem initial : Closed {} := ⟨⟨by simp, by simp⟩, by simp [Pair.Closing], .nil⟩

/-- The ends stay as open as they are, or one that was open is closed. -/
theorem step_opened (hs : Loopback.step s a = some (s', os)) (hliving : Living s) (e : End)
    (hclosed : (s.port e).opened = false) : (s'.port e).opened = false := by
  cases step_effect hliving hs with
  | quiet hsame => rwa [hsame.opened]
  | received _ _ hsame => rwa [hsame.opened]
  | closed e' hcloses =>
      by_cases he : e = e'
      · rw [he]
        exact hcloses.opened
      · rw [End.peer_eq_of_ne he, hcloses.peer, ← End.peer_eq_of_ne he]
        exact hclosed
  | destroyed e' =>
      simp only [Pair.destroy, Pair.setPort_port, Function.update_apply]
      split_ifs with he
      · rwa [← he]
      · exact hclosed

/-- Why a lambda is queued. -/
inductive Cause (s : Pair) (a : Action) : Event → Prop
  | posted {e : End} (message : QByteArray) (hopened : (s.port e).opened = true) :
      Cause s a (.deliver e message)
  | started {e : End} (queued : List QByteArray) (hlabel : a = .start e)
      (hstarted : (s.port e).started = false) : Cause s a (.flush e queued)
  | closed {e : End} (hstack : .close e ∈ s.stack) : Cause s a (.closePeer e)

/-- At most one lambda is queued, and nothing else changes the order of the queue. -/
theorem step_queue (hs : Loopback.step s a = some (s', os)) :
    s'.queue.Sublist s.queue ∨ ∃ event, s'.queue = s.queue ++ [event] ∧ Cause s a event := by
  cases a with
  | post e message =>
      obtain ⟨-, rfl, -⟩ := Machine.taken_if hs
      unfold Pair.post
      split_ifs with hopen
      · exact .inl (.refl _)
      · have hopen : s.isOpen e = true := by simpa using hopen
        simp only [Pair.isOpen, Bool.and_eq_true] at hopen
        exact .inr ⟨_, rfl, .posted message hopen.1.1⟩
  | start e =>
      obtain ⟨-, rfl, -⟩ := Machine.taken_if hs
      simp only [Pair.start]
      split_ifs with hstarted
      · exact .inl (.refl _)
      · exact .inl (.refl _)
      · exact .inr ⟨_, rfl, .started _ rfl (by simpa using hstarted)⟩
  | close e =>
      obtain ⟨-, rfl, -⟩ := Machine.taken_if hs
      unfold Pair.close
      split_ifs <;> exact .inl (.refl _)
  | destroy e =>
      obtain ⟨-, rfl, -⟩ := Machine.taken_if hs
      exact .inl List.filter_sublist
  | turn =>
      simp only [Loopback.step] at hs
      split at hs
      · rename_i event queue hstack hqueue
        left
        rw [hqueue]
        obtain rfl : (({ s with queue } : Pair).runEvent event).1 = s' := by rw [Option.some.inj hs]
        have hsame : (({ s with queue } : Pair).runEvent event).1.queue = queue := by
          cases event with
          | deliver e message =>
              simp only [Pair.runEvent, Pair.deliver]
              split_ifs <;> rfl
          | flush e queued =>
              simp only [Pair.runEvent]
              split_ifs
              · cases queued <;> rfl
              · rfl
          | closePeer e =>
              simp only [Pair.runEvent, Pair.close]
              split_ifs <;> rfl
        rw [hsame]
        exact List.sublist_cons_self _ _
      · cases hs
  | ret =>
      simp only [Loopback.step, Pair.ret] at hs
      split at hs
      · cases hs
      · obtain ⟨rfl, -⟩ := Prod.mk.inj (Option.some.inj hs)
        exact .inl (.refl _)
      · rename_i e rest stack hstack
        obtain rfl : (({ s with stack } : Pair).flush e rest).1 = s' := by rw [Option.some.inj hs]
        cases rest <;> exact .inl (.refl _)
      · rename_i e stack hstack
        obtain ⟨rfl, -⟩ := Prod.mk.inj (Option.some.inj hs)
        exact .inr ⟨_, rfl, .closed (by simp [hstack])⟩

/-- Slots of `closed` are called by an end that is closed. -/
theorem step_stack (hs : Loopback.step s a = some (s', os)) (e : End) (hm : .close e ∈ s'.stack) :
    .close e ∈ s.stack ∨ (s'.port e).opened = false := by
  have hclose : ∀ (s : Pair) e', .close e ∈ (s.close e').1.stack →
      .close e ∈ s.stack ∨ ((s.close e').1.port e).opened = false := by
    intro s e'
    unfold Pair.close
    split_ifs
    · exact .inl
    · intro hm
      obtain he | hm := List.mem_cons.mp hm
      · obtain rfl := Frame.close.inj he
        exact .inr (by simp)
      · exact .inl hm
  have hflush : ∀ (s : Pair) e' queued, .close e ∈ (s.flush e' queued).1.stack →
      .close e ∈ s.stack := by
    intro s e' queued
    cases queued with
    | nil => exact id
    | cons message rest => exact fun hm => (List.mem_cons.mp hm).resolve_left (by simp)
  cases a with
  | post e' message =>
      obtain ⟨-, rfl, -⟩ := Machine.taken_if hs
      unfold Pair.post at hm
      split_ifs at hm <;> exact .inl hm
  | start e' =>
      obtain ⟨-, rfl, -⟩ := Machine.taken_if hs
      simp only [Pair.start] at hm
      split_ifs at hm <;> exact .inl hm
  | close e' =>
      obtain ⟨-, rfl, -⟩ := Machine.taken_if hs
      exact hclose s e' hm
  | destroy e' =>
      obtain ⟨-, rfl, -⟩ := Machine.taken_if hs
      exact .inl hm
  | turn =>
      simp only [Loopback.step] at hs
      split at hs
      · rename_i event queue hstack hqueue
        obtain rfl : (({ s with queue } : Pair).runEvent event).1 = s' := by rw [Option.some.inj hs]
        cases event with
        | deliver e' message =>
            simp only [Pair.runEvent, Pair.deliver] at hm
            split_ifs at hm
            · exact .inl hm
            · exact .inl hm
            · exact .inl ((List.mem_cons.mp hm).resolve_left (by simp))
            · exact .inl hm
        | flush e' queued =>
            simp only [Pair.runEvent] at hm
            split_ifs at hm
            · exact .inl (hflush { s with queue } _ _ hm)
            · exact .inl hm
        | closePeer e' =>
            simp only [Pair.runEvent] at hm ⊢
            split_ifs at hm ⊢
            · exact hclose _ _ hm
            · exact .inl hm
      · cases hs
  | ret =>
      simp only [Loopback.step, Pair.ret] at hs
      split at hs
      · cases hs
      · rename_i e' stack hstack
        obtain ⟨rfl, -⟩ := Prod.mk.inj (Option.some.inj hs)
        exact .inl (by simp [hstack, show _ ∈ stack from hm])
      · rename_i e' rest stack hstack
        obtain rfl : (({ s with stack } : Pair).flush e' rest).1 = s' := by rw [Option.some.inj hs]
        exact .inl (by simp [hstack, show _ ∈ stack from hflush _ _ _ hm])
      · rename_i e' stack hstack
        obtain ⟨rfl, -⟩ := Prod.mk.inj (Option.some.inj hs)
        exact .inl (by simp [hstack, show _ ∈ stack from hm])

theorem step {tr : List Obs} (h : Closed s) (hopen : StartsOpen tr s a)
    (hs : Loopback.step s a = some (s', os)) : Closed s' := by
  have hkept := step_opened hs h.living
  refine ⟨step_living h.living hs, fun e hclosing => ?_, ?_⟩
  · obtain hm | hm := hclosing
    · obtain hm | hclosed := step_stack hs e hm
      · exact hkept e (h.closed e (.inl hm))
      · exact hclosed
    · obtain hsub | ⟨event, hqueue, hcause⟩ := step_queue hs
      · exact hkept e (h.closed e (.inr (hsub.subset hm)))
      · rw [hqueue] at hm
        obtain hm | hm := List.mem_append.mp hm
        · exact hkept e (h.closed e (.inr hm))
        · obtain rfl := List.mem_singleton.mp hm
          cases hcause with
          | closed hstack => exact hkept e (h.closed e (.inl hstack))
  · obtain hsub | ⟨event, hqueue, hcause⟩ := step_queue hs
    · exact h.final.sublist hsub
    · rw [hqueue]
      refine List.pairwise_append.mpr ⟨h.final, List.pairwise_singleton .., fun x hx y hy e he => ?_⟩
      rw [List.mem_singleton.mp hy]
      have hclosed := h.closed e (.inr (he ▸ hx))
      cases hcause with
      | posted message hopened =>
          rename_i e'
          have hne : e' ≠ e := by
            rintro rfl
            rw [hclosed] at hopened
            cases hopened
          simp [End.peer_eq_iff, hne]
      | started queued hlabel hstarted =>
          rename_i e'
          have hne : e' ≠ e.peer := by
            rintro rfl
            subst hlabel
            have hopened := hopen hstarted
            rw [End.peer_peer, hclosed] at hopened
            cases hopened
          simp [hne]
      | closed => rfl

end Closed

/-- A started end that reports the close of its peer has emitted everything its peer posted. -/
theorem last_close {tr : List Obs} {e : End} (hk : Kept tr s) (hc : Closed s)
    (hstarted : (s.port e).started = true) (hs : Loopback.step s .turn = some (s', os))
    (hm : .closed e ∈ os) : received e tr = posted e.peer tr := by
  simp only [Loopback.step] at hs
  split at hs
  · rename_i event queue hstack hqueue
    have hos : (({ s with queue } : Pair).runEvent event).2 = os := by rw [Option.some.inj hs]
    cases event with
    | deliver e' message =>
        simp only [Pair.runEvent, Pair.deliver] at hos
        split_ifs at hos <;> simp [← hos] at hm
    | flush e' queued =>
        simp only [Pair.runEvent] at hos
        split_ifs at hos
        · cases queued <;> simp [← hos, Pair.flush] at hm
        · simp [← hos] at hm
    | closePeer e' =>
        simp only [Pair.runEvent, Pair.close] at hos
        split_ifs at hos with halive hopened
        · simp [← hos] at hm
        · obtain rfl : e = e'.peer := by simpa [← hos] using hm
          have hlast : inFlight e'.peer queue = [] := by
            have hfinal := hqueue ▸ hc.final
            refine List.flatMap_eq_nil_iff.mpr fun event hevent => ?_
            simpa [inFlight] using (List.pairwise_cons.mp hfinal).1 event hevent e' rfl
          have hjoined : s.Joined e' := by
            refine ⟨hc.living.events (.closePeer e') (by simp [hqueue]), ?_⟩
            simpa [Pair.hears, halive] using hopened
          have hwhole := hk.whole e'.peer (by rwa [End.peer_peer])
          rw [← hwhole, ahead, hstack, hqueue]
          simp [hk.queued.backlog _ hstarted, hlast]
        · simp [← hos] at hm
  · cases hs

end LogosViewRuntime.Loopback
