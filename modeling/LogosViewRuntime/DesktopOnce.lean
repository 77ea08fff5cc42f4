import LogosViewRuntime.DesktopCall

/-! # At most once on both sides

The observations of one desktop call are a path of the one-shot automaton whose answer settles
and fires in one breath.  Where the path stands is read off the call itself (`Call.phase`): the
latch says whether it is over, `sent` whether it may still be sent. -/

namespace LogosViewRuntime.Desktop

open Reactive OneShot

/-! ### One call in a run -/

/-- What an observation means for one call. -/
def lifeEvents (id : ℕ) : Obs → List (Event String)
  | .called i => if i = id then [.issue] else []
  | .timerFired _ => []
  | .invokeRemoteMethodAsync i _ _ _ => if i = id then [.send] else []
  | .invoked i payload => if i = id then [.settle payload, .fire payload] else []

def lifeOf (id : ℕ) (tr : List Obs) : List (Event String) := tr.flatMap (lifeEvents id)

/-- The payloads the callback of a call was invoked with. -/
def invocations (id : ℕ) (tr : List Obs) : List String := tr.filterMap fun
  | .invoked i payload => if i = id then some payload else none
  | _ => none

/-- How often the remote method of a call was sent. -/
def remoteSends (id : ℕ) (tr : List Obs) : ℕ := tr.countP fun
  | .invokeRemoteMethodAsync i _ _ _ => i = id
  | _ => false

@[simp] theorem lifeOf_append (id : ℕ) (tr os : List Obs) :
    lifeOf id (tr ++ os) = lifeOf id tr ++ lifeOf id os := List.flatMap_append

theorem fires_lifeOf (id : ℕ) (tr : List Obs) : fires (lifeOf id tr) = invocations id tr := by
  apply fires_flatMap
  intro o
  cases o with
  | called i | invokeRemoteMethodAsync i _ _ _ | invoked i payload =>
      by_cases h : i = id <;> simp [lifeEvents, h, fires]
  | timerFired i => rfl

theorem sends_lifeOf (id : ℕ) (tr : List Obs) : sends (lifeOf id tr) = remoteSends id tr := by
  apply sends_flatMap
  intro o
  cases o with
  | called i | invokeRemoteMethodAsync i _ _ _ | invoked i payload =>
      by_cases h : i = id <;> simp [lifeEvents, h, sends]
  | timerFired i => rfl

/-! ### The invariant -/

/-- Where a call stands; a latched call without a callable callback tells nobody. -/
def Call.phase (call : Call) : Phase String :=
  if call.fired ∧ call.callback.isCallable = true then .finished else .waiting call.sent

/-- The books of one call: what is still held for it and how far its path got. -/
structure Latched (id : ℕ) (tr : List Obs) (call : Call) : Prop where
  path : Path .fresh (lifeOf id tr) call.phase
  answered : call.timer = none → call.fired = true
  elapsed : .timerFired id ∈ tr → call.timer = none
  unsent : call.awaited = true → call.sent = false

structure Once (tr : List Obs) (s : Bridge) : Prop where
  unborn : ∀ id, s.calls[id]? = none → lifeOf id tr = [] ∧ .timerFired id ∉ tr
  latched : ∀ id call, s.calls[id]? = some call → Latched id tr call

/-- Observations of the call `id` and of no other. -/
def Of (id : ℕ) (os : List Obs) : Prop :=
  ∀ j ≠ id, lifeOf j os = [] ∧ .timerFired j ∉ os

namespace Latched

variable {id : ℕ} {tr os : List Obs} {call call' : Call}

theorem frame (h : Latched id tr call) (hlife : lifeOf id os = []) (htimer : .timerFired id ∉ os) :
    Latched id (tr ++ os) call where
  path := by rw [lifeOf_append, hlife, List.append_nil]; exact h.path
  answered := h.answered
  elapsed hm := h.elapsed ((List.mem_append.mp hm).resolve_right htimer)
  unsent := h.unsent

/-- An answer moves a waiting call to its end, and an answered one nowhere. -/
theorem answer (hpath : Path .fresh (lifeOf id tr) call.phase)
    (helapsed : .timerFired id ∈ tr → call.timer = none)
    (hunsent : call.awaited = true → call.sent = false) (payload : String) :
    Latched id (tr ++ (call.invokeCallback id payload).2) (call.invokeCallback id payload).1 := by
  unfold Call.invokeCallback
  split_ifs with hfired hcallable
  · rw [List.append_nil]
    exact ⟨hpath, fun _ => hfired, helapsed, hunsent⟩
  · refine ⟨?_, fun _ => rfl, fun hm => helapsed (by simpa using hm), hunsent⟩
    rw [Call.phase, if_neg (by simp [hfired])] at hpath
    rw [lifeOf_append, show lifeOf id [.invoked id payload] = [.settle payload, .fire payload] by
      simp [lifeOf, lifeEvents], Call.phase, if_pos ⟨rfl, hcallable⟩]
    exact hpath.append (.cons (.settle _ _) (.cons (.fire _) (.nil _)))
  · refine ⟨?_, fun _ => rfl, fun hm => helapsed (by simpa using hm), hunsent⟩
    rw [Call.phase, if_neg (by simp [hfired])] at hpath
    simpa [Call.phase, hcallable] using hpath

theorem timeout (h : Latched id tr call) :
    Latched id (tr ++ (call.timeout id).2) (call.timeout id).1 := by
  have hpath : Path .fresh (lifeOf id (tr ++ [.timerFired id])) { call with timer := none }.phase := by
    rw [lifeOf_append, show lifeOf id [.timerFired id] = [] from rfl, List.append_nil]
    exact h.path
  have := answer hpath (fun _ => rfl) h.unsent
    (makeErrorPayload "timeout" call.module call.method)
  rwa [List.append_assoc] at this

theorem objectAvailable (h : Latched id tr call) (hawaited : call.awaited = true)
    (alive ready : Bool) :
    Latched id (tr ++ (call.objectAvailable id alive ready).2)
      (call.objectAvailable id alive ready).1 := by
  have hheld : Latched id tr { call with awaited := false } :=
    ⟨h.path, h.answered, h.elapsed, nofun⟩
  simp only [Call.objectAvailable]
  split_ifs with halive hfired hready
  · rwa [List.append_nil]
  · rwa [List.append_nil]
  · exact answer hheld.path hheld.elapsed nofun _
  · -- the latch is open and the method was never sent: it is sent now
    simp only [Call.dispatch, halive, Bool.false_eq_true, if_false]
    have hpath := h.path
    rw [Call.phase, if_neg (by simp [hfired]), h.unsent hawaited] at hpath
    refine ⟨?_, h.answered, fun hm => h.elapsed (by simpa using hm), nofun⟩
    rw [lifeOf_append, Call.phase, if_neg (by simp [hfired])]
    simpa [lifeOf, lifeEvents] using hpath.snoc .send

theorem reply (h : Latched id tr call) (serializeResult : QVariant → String)
    (error : Option String) (result : QVariant) :
    Latched id (tr ++ (call.reply serializeResult id error result).2)
      (call.reply serializeResult id error result).1 := by
  unfold Call.reply
  split <;> exact answer h.path h.elapsed h.unsent _

theorem begin {s : Bridge} (hlife : lifeOf id tr = []) (htimer : .timerFired id ∉ tr)
    (client : Bool) (timeoutMs : ℤ) (module method : String) (args : List QVariant)
    (callback : QJSValue) :
    Latched id (tr ++ .called id :: (s.begin id client timeoutMs { module, method, args, callback }).2)
      (s.begin id client timeoutMs { module, method, args, callback }).1 := by
  have hpath : Path .fresh (lifeOf id (tr ++ [.called id])) (.waiting false) := by
    rw [lifeOf_append, hlife, show lifeOf id [.called id] = [.issue] by simp [lifeOf, lifeEvents]]
    exact .cons .issue (.nil _)
  have helapsed : .timerFired id ∉ tr ++ [.called id] := by simpa using htimer
  rw [List.append_cons]
  simp only [Bridge.begin]
  split_ifs
  · exact answer hpath (fun hm => absurd hm helapsed) (fun _ => rfl) _
  · exact answer hpath (fun hm => absurd hm helapsed) (fun _ => rfl) _
  · exact answer hpath (fun hm => absurd hm helapsed) (fun _ => rfl) _
  · rw [List.append_nil]
    exact ⟨hpath, nofun, fun hm => absurd hm helapsed, fun _ => rfl⟩
  · rw [List.append_nil]
    exact ⟨hpath, nofun, fun hm => absurd hm helapsed, fun _ => rfl⟩

end Latched

/-! ### No lambda speaks for another call -/

theorem of_invokeCallback (id : ℕ) (payload : String) (call : Call) :
    Of id (call.invokeCallback id payload).2 := by
  unfold Call.invokeCallback
  intro j hj
  split_ifs <;> simp [lifeOf, lifeEvents, Ne.symm hj]

theorem Of.cons {id : ℕ} {o : Obs} {os : List Obs} (ho : Of id [o]) (h : Of id os) :
    Of id (o :: os) := fun j hj => by
  obtain ⟨hl, ht⟩ := ho j hj
  obtain ⟨hl', ht'⟩ := h j hj
  rw [← List.singleton_append, lifeOf_append, hl, hl']
  simp_all

theorem of_timeout (id : ℕ) (call : Call) : Of id (call.timeout id).2 :=
  .cons (fun j hj => by simp [lifeOf, lifeEvents, hj]) (of_invokeCallback id _ _)

theorem of_objectAvailable (id : ℕ) (alive ready : Bool) (call : Call) :
    Of id (call.objectAvailable id alive ready).2 := by
  simp only [Call.objectAvailable, Call.dispatch]
  split_ifs
  · exact fun _ _ => ⟨rfl, List.not_mem_nil⟩
  · exact fun _ _ => ⟨rfl, List.not_mem_nil⟩
  · exact of_invokeCallback id _ _
  · exact fun j hj => by simp [lifeOf, lifeEvents, Ne.symm hj]

theorem of_reply (serializeResult : QVariant → String) (id : ℕ) (error : Option String)
    (result : QVariant) (call : Call) : Of id (call.reply serializeResult id error result).2 := by
  unfold Call.reply
  split <;> exact of_invokeCallback id _ _

theorem of_begin (id : ℕ) (client : Bool) (timeoutMs : ℤ) (call : Call) (s : Bridge) :
    Of id (.called id :: (s.begin id client timeoutMs call).2) := by
  refine .cons (fun j hj => by simp [lifeOf, lifeEvents, Ne.symm hj]) ?_
  simp only [Bridge.begin]
  split_ifs
  · exact of_invokeCallback id _ _
  · exact of_invokeCallback id _ _
  · exact of_invokeCallback id _ _
  · exact fun _ _ => ⟨rfl, List.not_mem_nil⟩
  · exact fun _ _ => ⟨rfl, List.not_mem_nil⟩

/-! ### Every step -/

variable {tr os : List Obs} {s s' : Bridge}

/-- A lambda runs for a call that is there and still refers to it. -/
theorem runLambda_eq_some {id : ℕ} {held : Call → Bool} {body : Call → Call × List Obs}
    (hs : s.runLambda id held body = some (s', os)) : ∃ call, s.calls[id]? = some call ∧
      held call = true ∧ s' = { s with calls := s.calls.set id (body call).1 } ∧
      os = (body call).2 := by
  unfold Bridge.runLambda at hs
  split at hs
  · cases hs
  · rename_i call hcall
    split_ifs at hs with hheld
    obtain ⟨rfl, rfl⟩ := Prod.mk.inj (Option.some.inj hs)
    exact ⟨call, hcall, hheld, rfl, rfl⟩

namespace Once

theorem initial (logosAPI : Bool) : Once [] { logosAPI } where
  unborn _ _ := ⟨rfl, List.not_mem_nil⟩
  latched _ _ h := by cases h

/-- A step that only concerns the call `id`. -/
theorem touch (h : Once tr s) {id : ℕ} (hos : Of id os)
    (hother : ∀ j ≠ id, s'.calls[j]? = s.calls[j]?)
    (hself : ∃ call, s'.calls[id]? = some call ∧ Latched id (tr ++ os) call) :
    Once (tr ++ os) s' := by
  obtain ⟨call, hcall, hlatched⟩ := hself
  constructor
  · intro j hj
    have hne : j ≠ id := fun he => by simp [he, hcall] at hj
    obtain ⟨hl, ht⟩ := h.unborn j (hother j hne ▸ hj)
    obtain ⟨hl', ht'⟩ := hos j hne
    exact ⟨by rw [lifeOf_append, hl, hl', List.append_nil], by simp [ht, ht']⟩
  · intro j call' hj
    by_cases hne : j = id
    · subst hne
      obtain rfl := Option.some.inj (hcall.symm.trans hj)
      exact hlatched
    · exact (h.latched j call' (hother j hne ▸ hj)).frame (hos j hne).1 (hos j hne).2

theorem callModuleAsync (h : Once tr s) (module method : String) (args : List QVariant)
    (callback : QJSValue) (timeoutMs : ℤ) (client : Bool) :
    Once (tr ++ (s.callModuleAsync module method args callback timeoutMs client).2)
      (s.callModuleAsync module method args callback timeoutMs client).1 := by
  obtain ⟨hlife, htimer⟩ := h.unborn s.calls.length (List.getElem?_eq_none le_rfl)
  refine h.touch (of_begin s.calls.length client timeoutMs _ s) (fun j hj => ?_)
    ⟨_, ?_, Latched.begin hlife htimer client timeoutMs module method args callback⟩
  · obtain hlt | hge := Nat.lt_or_ge j s.calls.length
    · exact List.getElem?_append_left hlt
    · rw [List.getElem?_eq_none (l := s.calls) hge, List.getElem?_eq_none]
      simp only [Bridge.callModuleAsync, List.length_append, List.length_singleton]
      omega
  · simp [Bridge.callModuleAsync]

theorem runLambda (h : Once tr s) {id : ℕ} {held : Call → Bool} {body : Call → Call × List Obs}
    (hs : s.runLambda id held body = some (s', os))
    (hof : ∀ call, Of id (body call).2)
    (hbody : ∀ call, held call = true → Latched id tr call →
      Latched id (tr ++ (body call).2) (body call).1) : Once (tr ++ os) s' := by
  obtain ⟨call, hcall, hheld, rfl, rfl⟩ := runLambda_eq_some hs
  have hlt : id < s.calls.length := (List.getElem?_eq_some_iff.mp hcall).1
  refine h.touch (hof call) (fun j hj => ?_) ⟨(body call).1, ?_, hbody call hheld
    (h.latched id call hcall)⟩
  · exact List.getElem?_set_ne (Ne.symm hj)
  · exact List.getElem?_set_self hlt

theorem step {serializeResult : QVariant → String} {a : Action} (h : Once tr s)
    (hs : step serializeResult s a = some (s', os)) : Once (tr ++ os) s' := by
  cases a with
  | callModuleAsync module method args callback timeoutMs client =>
      obtain ⟨-, rfl, rfl⟩ := Machine.taken_if hs
      exact h.callModuleAsync module method args callback timeoutMs client
  | timeout id => exact h.runLambda hs (of_timeout id) fun _ _ hl => hl.timeout
  | objectAvailable id ready =>
      exact h.runLambda hs (of_objectAvailable id s.alive ready) fun _ hawaited hl =>
        hl.objectAvailable hawaited s.alive ready
  | reply id error result =>
      exact h.runLambda hs (of_reply serializeResult id error result) fun _ _ hl =>
        hl.reply serializeResult error result
  | setViewModuleSocket module =>
      obtain ⟨-, rfl, rfl⟩ := Machine.taken_if hs
      rw [List.append_nil]
      exact ⟨h.unborn, h.latched⟩
  | destroy =>
      obtain ⟨-, rfl, rfl⟩ := Machine.taken_if hs
      rw [List.append_nil]
      exact ⟨h.unborn, h.latched⟩

end Once

theorem run_once {serializeResult : QVariant → String} {logosAPI : Bool} {tr : List Obs}
    {s : Bridge} (h : (machine serializeResult logosAPI).Run Machine.always tr s) : Once tr s :=
  h.invariant (Once.initial logosAPI) fun ho _ hs => ho.step hs

theorem cancel_notMem (id : ℕ) (tr : List Obs) : .cancel ∉ lifeOf id tr := by
  simp only [lifeOf, List.mem_flatMap, not_exists, not_and]
  intro o _ hm
  cases o with
  | timerFired i => cases hm
  | called i | invokeRemoteMethodAsync i _ _ _ | invoked i payload =>
      simp only [lifeEvents] at hm
      split_ifs at hm <;> simp at hm

/-- A callable call whose timer fired, or that never needed one, has been answered. -/
theorem Latched.invoked {id : ℕ} {tr : List Obs} {call : Call} (h : Latched id tr call)
    (hcallable : call.callback.isCallable = true) (htimer : call.timer = none) :
    (invocations id tr).length = 1 := by
  have hpath := h.path
  rw [Call.phase, if_pos ⟨h.answered htimer, hcallable⟩] at hpath
  rw [← fires_lifeOf]
  exact hpath.fired nofun (cancel_notMem id tr)

/-- The part of a run that concerns one call is a path. -/
theorem Once.path {tr : List Obs} {s : Bridge} (h : Once tr s) (id : ℕ) :
    ∃ phase, Path .fresh (lifeOf id tr) phase := by
  cases hcall : s.calls[id]? with
  | none => exact ⟨.fresh, (h.unborn id hcall).1 ▸ .nil _⟩
  | some call => exact ⟨call.phase, (h.latched id call hcall).path⟩

/-- **Desktop `callModuleAsync` is at-most-once on both sides.**  In every run each call's
callback is invoked at most once and its method sent at most once, and not after the callback; an
armed timer of a living bridge can fire, and once it has fired, or if the call never armed it, a
callable callback has been invoked exactly once. -/
theorem desktop_call_once {serializeResult : QVariant → String} {logosAPI : Bool} {tr : List Obs}
    {s : Bridge} (h : (machine serializeResult logosAPI).Run Machine.always tr s) (id : ℕ) :
    (invocations id tr).length ≤ 1 ∧ remoteSends id tr ≤ 1 ∧
    (∀ payload t₁ t₂, tr = t₁ ++ .invoked id payload :: t₂ → remoteSends id t₂ = 0) ∧
    ∀ call, s.calls[id]? = some call →
      (s.alive = true → call.timer ≠ none →
        ∃ s' os, (machine serializeResult logosAPI).step s (.timeout id) = some (s', os) ∧
          .timerFired id ∈ os) ∧
      (.timerFired id ∈ tr ∨ call.timer = none → call.callback.isCallable = true →
        (invocations id tr).length = 1) := by
  have ho := run_once h
  obtain ⟨phase, hpath⟩ := ho.path id
  refine ⟨?_, ?_, fun payload t₁ t₂ htr => ?_, fun call hcall => ⟨fun halive htimer => ?_,
    fun htimer hcallable => ?_⟩⟩
  · rw [← fires_lifeOf]
    exact hpath.fires_length_le
  · rw [← sends_lifeOf]
    exact hpath.sends_le
  · have hlife : lifeOf id tr =
        (lifeOf id t₁ ++ [.settle payload]) ++ .fire payload :: lifeOf id t₂ := by
      rw [htr, lifeOf_append]
      simp [lifeOf, lifeEvents]
    rw [hlife] at hpath
    rw [← sends_lifeOf]
    exact hpath.no_send_after_fire
  · have hheld : (s.alive && call.timer.isSome) = true := by
      simp [halive, Option.isSome_iff_ne_none, htimer]
    refine ⟨{ s with calls := s.calls.set id (call.timeout id).1 }, (call.timeout id).2, ?_,
      List.mem_cons_self⟩
    simp only [machine, step, Bridge.runLambda, hcall]
    rw [if_pos hheld]
  · have hl := ho.latched id call hcall
    exact hl.invoked hcallable (htimer.elim hl.elapsed fun ht => ht)

/-- The deadline fires first; the module that appears afterwards is not called. -/
theorem desktop_call_once_after_timeout :
    ∃ tr s, (machine (fun _ => "") true).Run Machine.always tr s ∧ remoteSends 0 tr = 0 ∧
      (invocations 0 tr).length = 1 := by
  have h := Machine.exec_run (M := machine (fun _ => "") true) (G := Machine.always)
    [.callModuleAsync "wallet" "send" [.int 5] ⟨1, true⟩ 200 true, .timeout 0,
      .objectAvailable 0 true] rfl
  exact ⟨_, _, h, rfl, ((desktop_call_once h 0).2.2.2 _ rfl).2 (.inr rfl) rfl⟩

end LogosViewRuntime.Desktop
