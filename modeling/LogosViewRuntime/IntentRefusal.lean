import LogosViewRuntime.IntentBridge
import LogosViewRuntime.Lib.Stock

/-! # A bridge without a router

A view must not be able to tell it from a shell that has no matching provider.  There the router
answers each request with `unavailable` before `routeIntent` returns, and does nothing else.

* `used` is a bridge in the hands of its view, its engines and the event loop.  The router's code is
  part of the step that calls it, so only callbacks are on the stack between two steps.
* `unrouted` is what the two bridges have in common, and `told` what only the router gets. -/

namespace LogosViewRuntime.Intent

open Reactive

/-! ### The two shells -/

/-- What is done to a bridge, except by its router. -/
inductive Use where
  | request (requestId intent : String) (params : QVariantMap) (callback : QJSValue)
  | respond (requestId : String) (ok : Bool) (data : QVariant) (error : String)
  | abandonPendingIntents (requestIds : List String)
  | destroy
  | turn
  | ret
  | bindEngine (engine : Option EngineId)
  | destroyEngine (engine : EngineId)

def Use.action : Use → Action
  | .request requestId intent params callback => .request requestId intent params callback
  | .respond requestId ok data error => .respond requestId ok data error
  | .abandonPendingIntents requestIds => .abandonPendingIntents requestIds
  | .destroy => .destroy
  | .turn => .turn
  | .ret => .ret
  | .bindEngine engine => .bindEngine engine
  | .destroyEngine engine => .destroyEngine engine

def refusal : QVariantMap := makeEnvelope false .invalid errUnavailable

/-- The router's code, if the router was called. -/
def Bridge.refuse (s : Bridge) : Bridge × List Obs :=
  match s.stack with
  | .request _ requestId :: _ =>
      let done := s.deliverIntentResult requestId refusal
      (done.1.ret.getD done.1, done.2)
  | .respond .. :: _ | .abandonPendingIntents _ :: _ | .destructor _ :: _ => (s.ret.getD s, [])
  | .turn _ :: _ | [] => (s, [])

/-- A bridge with a router that refuses everything, or with none. -/
def used (toVariant : QJSValue → QVariant) (router : Option RouterId) : Machine Bridge Use Obs where
  init := { intentRouter := router }
  step s use := (step toVariant s use.action).map fun done =>
    let refused := done.1.refuse
    (refused.1, done.2 ++ refused.2)

/-- What a router is told. -/
def Obs.told : Obs → Bool
  | .routeIntent .. | .routeIntentResponse .. | .intentsAbandoned .. | .bridgeDestroyed _ => true
  | .requested .. | .delivered .. | .answered _ | .abandoned | .invoked .. | .destroyed => false

def untold (os : List Obs) : List Obs := os.filter fun o => !o.told

/-- A step without what the router was told. -/
def Use.seen (taken : Use × List Obs) : Use × List Obs := (taken.1, untold taken.2)

def Bridge.unrouted (s : Bridge) : Bridge := { s with intentRouter := none }

/-- Between two steps. -/
structure Rests (router : RouterId) (s : Bridge) : Prop where
  router : s.intentRouter = some router ∨ s.life = .gone
  stack : ∀ frame ∈ s.stack, ∃ requestId, frame = .turn requestId

variable {toVariant : QJSValue → QVariant} {router : RouterId} {s s' : Bridge} {os : List Obs}

/-! ### What a delivery does -/

/-- The invocation that is queued for a result. -/
def Bridge.posted (requestId : String) (envelope : QVariantMap) (s : Bridge) : List QueuedResult :=
  match s.pendingIntents.lookup requestId with
  | some pending =>
      if pending.callback.isCallable && !s.engineIsNull pending.engine
      then [⟨requestId, envelope, pending⟩] else []
  | none => []

theorem deliverIntentResult_eq (requestId : String) (envelope : QVariantMap) (s : Bridge) :
    s.deliverIntentResult requestId envelope =
      ({ s with
          pendingIntents := s.pendingIntents.erase requestId
          queue := s.queue ++ s.posted requestId envelope },
        .delivered requestId envelope ::
          if requestId ∈ s.pendingIntents then [.answered requestId] else []) := by
  unfold Bridge.deliverIntentResult Bridge.posted
  cases hlookup : s.pendingIntents.lookup requestId with
  | none =>
      have hmem : requestId ∉ s.pendingIntents := AList.lookup_eq_none.mp hlookup
      dsimp only
      rw [Stock.erase_of_lookup_none hlookup, List.append_nil, if_neg hmem]
  | some pending =>
      have hmem : requestId ∈ s.pendingIntents := AList.lookup_isSome.mp (by simp [hlookup])
      have hnull : ({ s with pendingIntents := s.pendingIntents.erase requestId }).engineIsNull
          pending.engine = s.engineIsNull pending.engine := by
        cases pending.engine <;> rfl
      dsimp only
      rw [if_pos hmem, hnull]
      cases pending.callback.isCallable with
      | false => simp
      | true => cases s.engineIsNull pending.engine <;> simp

theorem posted_unrouted (requestId : String) (envelope : QVariantMap) (s : Bridge) :
    s.unrouted.posted requestId envelope = s.posted requestId envelope := by
  have hnull : ∀ engine, s.unrouted.engineIsNull engine = s.engineIsNull engine := by
    intro engine
    cases engine <;> rfl
  have hpending : s.unrouted.pendingIntents = s.pendingIntents := rfl
  simp only [Bridge.posted, hpending, hnull]

/-- A result is delivered without the router. -/
theorem deliver_unrouted (requestId : String) (envelope : QVariantMap) (s : Bridge) :
    s.unrouted.deliverIntentResult requestId envelope =
      ((s.deliverIntentResult requestId envelope).1.unrouted,
        (s.deliverIntentResult requestId envelope).2) := by
  rw [deliverIntentResult_eq, deliverIntentResult_eq, posted_unrouted]
  rfl

/-! ### Nothing is on the stack for long -/

theorem refuse_of_turns (h : ∀ frame ∈ s.stack, ∃ requestId, frame = .turn requestId) :
    s.refuse = (s, []) := by
  unfold Bridge.refuse
  cases hstack : s.stack with
  | nil => rfl
  | cons frame rest =>
      obtain ⟨requestId, rfl⟩ := h frame (by rw [hstack]; exact List.mem_cons_self)
      rfl

/-- The router refuses a request and returns into it. -/
theorem refuse_request (router : RouterId) (requestId : String) (s : Bridge) :
    ({ s with stack := .request router requestId :: s.stack }).refuse =
      s.deliverIntentResult requestId refusal := by
  dsimp only [Bridge.refuse]
  rw [deliverIntentResult_eq, deliverIntentResult_eq]
  rfl

theorem runQueued_unrouted (q : QueuedResult) (s : Bridge) :
    s.unrouted.runQueued q = ((s.runQueued q).1.unrouted, (s.runQueued q).2) := by
  have hnull : s.unrouted.engineIsNull q.pending.engine = s.engineIsNull q.pending.engine := by
    cases q.pending.engine <;> rfl
  have hgeneration : s.unrouted.intentGeneration = s.intentGeneration := rfl
  unfold Bridge.runQueued
  rw [hnull, hgeneration]
  split_ifs <;> rfl

/-- A turn leaves a callback on the stack, or nothing, and the router is told nothing. -/
theorem runQueued_cases (q : QueuedResult) (s : Bridge) :
    s.runQueued q = (s, []) ∨
      s.runQueued q = ({ s with stack := .turn q.requestId :: s.stack },
        [.invoked q.requestId q.envelope (.turn q.requestId :: s.stack)]) := by
  unfold Bridge.runQueued
  split_ifs
  · exact .inl rfl
  · exact .inl rfl
  · exact .inl rfl
  · exact .inr rfl

theorem turns_runQueued {q : QueuedResult}
    (h : ∀ frame ∈ s.stack, ∃ requestId, frame = .turn requestId) :
    ∀ frame ∈ (s.runQueued q).1.stack, ∃ requestId, frame = .turn requestId := by
  obtain he | he := runQueued_cases q s
  · rw [he]
    exact h
  · rw [he]
    intro frame hframe
    obtain rfl | hframe := List.mem_cons.mp hframe
    · exact ⟨q.requestId, rfl⟩
    · exact h frame hframe

theorem untold_delivered (requestId : String) (envelope : QVariantMap) (s : Bridge) :
    untold (s.deliverIntentResult requestId envelope).2 =
      (s.deliverIntentResult requestId envelope).2 := by
  rw [deliverIntentResult_eq]
  dsimp only [untold]
  split_ifs <;> rfl

/-! ### Every step -/

/-- What the two bridges do. -/
def Agree (toVariant : QJSValue → QVariant) (router : RouterId) (s : Bridge) (use : Use) : Prop :=
  (used toVariant none).step s.unrouted use =
    ((used toVariant (some router)).step s use).map fun done => (done.1.unrouted, untold done.2)

/-- A step of both after which no router code is left to run. -/
theorem agree_of_turns {use : Use} {r : Bridge × List Obs}
    (hstep : Intent.step toVariant s use.action = some r)
    (hunrouted : Intent.step toVariant s.unrouted use.action =
      some (r.1.unrouted, untold r.2))
    (hstack : ∀ frame ∈ r.1.stack, ∃ requestId, frame = .turn requestId) :
    Agree toVariant router s use := by
  have hrefuse := refuse_of_turns hstack
  have hrefuse' : r.1.unrouted.refuse = (r.1.unrouted, []) := refuse_of_turns hstack
  simp only [Agree, used, hstep, hunrouted, Option.map_some, hrefuse, hrefuse', List.append_nil]

/-- A step that neither can take. -/
theorem agree_of_none {use : Use} (hstep : Intent.step toVariant s use.action = none)
    (hunrouted : Intent.step toVariant s.unrouted use.action = none) :
    Agree toVariant router s use := by
  simp only [Agree, used, hstep, hunrouted, Option.map_none]

theorem agree_request (h : Rests router s) (requestId intent : String) (params : QVariantMap)
    (callback : QJSValue) :
    Agree toVariant router s (.request requestId intent params callback) := by
  by_cases hgone : s.life = .gone
  · exact agree_of_none (if_pos hgone) (if_pos hgone)
  · have hrouter := h.router.resolve_right hgone
    have hshell : s.request requestId intent params callback =
        ({ s.record requestId callback with
            stack := .request router requestId :: (s.record requestId callback).stack },
          [.requested requestId callback s.jsEngine,
            .routeIntent router requestId intent params]) := by
      simp only [Bridge.request, hrouter]
    have hplain : s.unrouted.request requestId intent params callback =
        (((s.record requestId callback).deliverIntentResult requestId refusal).1.unrouted,
          .requested requestId callback s.jsEngine ::
            ((s.record requestId callback).deliverIntentResult requestId refusal).2) := by
      have hdeliver := deliver_unrouted requestId refusal (s.record requestId callback)
      exact congrArg (fun done : Bridge × List Obs =>
        (done.1, .requested requestId callback s.jsEngine :: done.2)) hdeliver
    have hrefuse : ({ s.record requestId callback with
        stack := .request router requestId :: (s.record requestId callback).stack }).refuse =
          (s.record requestId callback).deliverIntentResult requestId refusal :=
      refuse_request router requestId _
    have hturns : ∀ frame ∈ ((s.record requestId callback).deliverIntentResult requestId
        refusal).1.unrouted.stack, ∃ requestId, frame = .turn requestId := by
      rw [deliverIntentResult_eq]
      exact h.stack
    have hnone := refuse_of_turns hturns
    have huntold : untold ([.requested requestId callback s.jsEngine,
        .routeIntent router requestId intent params] ++
          ((s.record requestId callback).deliverIntentResult requestId refusal).2) =
        .requested requestId callback s.jsEngine ::
          ((s.record requestId callback).deliverIntentResult requestId refusal).2 :=
      congrArg (List.cons _) (untold_delivered requestId refusal _)
    have hgone' : s.unrouted.life ≠ .gone := hgone
    simp only [Agree, used, Use.action, Intent.step, if_neg hgone, if_neg hgone', hshell, hplain,
      Option.map_some, hrefuse, hnone, List.append_nil, huntold]

theorem agree_respond (h : Rests router s) (requestId : String) (ok : Bool) (data : QVariant)
    (error : String) : Agree toVariant router s (.respond requestId ok data error) := by
  by_cases hgone : s.life = .gone
  · exact agree_of_none (if_pos hgone) (if_pos hgone)
  · have hrouter := h.router.resolve_right hgone
    have hgone' : s.unrouted.life ≠ .gone := hgone
    have hnone : s.unrouted.refuse = (s.unrouted, []) := refuse_of_turns h.stack
    have hplain : s.unrouted.respond toVariant requestId ok data error = (s.unrouted, []) := rfl
    simp only [Agree, used, Use.action, Intent.step, if_neg hgone, if_neg hgone', hplain,
      Option.map_some, hnone, List.append_nil]
    simp only [Bridge.respond, hrouter]
    rfl

theorem agree_abandonPendingIntents (h : Rests router s) (requestIds : List String) :
    Agree toVariant router s (.abandonPendingIntents requestIds) := by
  by_cases hrefused : s.life = .gone ∨ ¬ requestIds.Perm s.pendingIntents.keys
  · exact agree_of_none (if_pos hrefused) (if_pos hrefused)
  · have hrouter := h.router.resolve_right (not_or.mp hrefused).1
    have hrefused' : ¬ (s.unrouted.life = .gone ∨
        ¬ requestIds.Perm s.unrouted.pendingIntents.keys) := hrefused
    by_cases hkeys : s.pendingIntents.keys = []
    · have hkeys' : s.unrouted.pendingIntents.keys = [] := hkeys
      refine agree_of_turns (r := s.abandonPendingIntents requestIds) (if_neg hrefused) ?_ ?_
      · simp only [Use.action, Intent.step, if_neg hrefused', Bridge.abandonPendingIntents,
          if_pos hkeys, if_pos hkeys']
        rfl
      · simp only [Bridge.abandonPendingIntents, if_pos hkeys]
        exact h.stack
    · have hkeys' : s.unrouted.pendingIntents.keys ≠ [] := hkeys
      have hplain : s.unrouted.abandonPendingIntents requestIds =
          ({ s.unrouted with
              intentGeneration := (s.intentGeneration + 1) % 2 ^ 64
              pendingIntents := ∅ }, [.abandoned]) := by
        simp only [Bridge.abandonPendingIntents, if_neg hkeys']
        rfl
      have hnone : ({ s.unrouted with
          intentGeneration := (s.intentGeneration + 1) % 2 ^ 64
          pendingIntents := ∅ } : Bridge).refuse = _ := refuse_of_turns h.stack
      simp only [Agree, used, Use.action, Intent.step, if_neg hrefused, if_neg hrefused', hplain,
        Option.map_some, hnone, List.append_nil]
      simp only [Bridge.abandonPendingIntents, if_neg hkeys, hrouter]
      rfl

theorem agree_destroy (h : Rests router s) : Agree toVariant router s .destroy := by
  by_cases halive : s.life = .alive ∧ s.stack = []
  · have hrouter := h.router.resolve_right (by rw [halive.1]; simp)
    have halive' : s.unrouted.life = .alive ∧ s.unrouted.stack = [] := halive
    have hplain : s.unrouted.destroy =
        ({ s.unrouted with life := .destroying, pendingIntents := ∅ }.vanish, [.destroyed]) := rfl
    have hnone : ({ s.unrouted with life := .destroying, pendingIntents := ∅ }.vanish).refuse = _ :=
      refuse_of_turns h.stack
    simp only [Agree, used, Use.action, Intent.step, if_pos halive, if_pos halive', hplain,
      Option.map_some, hnone, List.append_nil]
    simp only [Bridge.destroy, hrouter]
    rfl
  · exact agree_of_none (if_neg halive) (if_neg halive)

theorem step_turn {q : QueuedResult} {rest : List QueuedResult} (hstack : s.stack = [])
    (hqueue : s.queue = q :: rest) :
    Intent.step toVariant s .turn = some ({ s with queue := rest }.runQueued q) := by
  cases s
  cases hstack
  cases hqueue
  rfl

theorem agree_turn (h : Rests router s) : Agree toVariant router s .turn := by
  cases hstack : s.stack with
  | cons frame rest =>
      have hunrouted : s.unrouted.stack = frame :: rest := hstack
      exact agree_of_none (by simp only [Use.action, Intent.step, hstack])
        (by simp only [Use.action, Intent.step, hunrouted])
  | nil =>
      have hunrouted : s.unrouted.stack = [] := hstack
      cases hqueue : s.queue with
      | nil =>
          have hqueue' : s.unrouted.queue = [] := hqueue
          exact agree_of_none (by simp only [Use.action, Intent.step, hstack, hqueue])
            (by simp only [Use.action, Intent.step, hunrouted, hqueue'])
      | cons q rest =>
          have hqueue' : s.unrouted.queue = q :: rest := hqueue
          have hrun := runQueued_unrouted q { s with queue := rest }
          refine agree_of_turns (step_turn hstack hqueue) ?_ ?_
          · refine (step_turn hunrouted hqueue').trans (congrArg some (hrun.trans ?_))
            obtain he | he := runQueued_cases q { s with queue := rest }
            · rw [he]
              rfl
            · rw [he]
              rfl
          · exact turns_runQueued h.stack

theorem agree_ret (h : Rests router s) : Agree toVariant router s .ret := by
  cases hstack : s.stack with
  | nil =>
      have hunrouted : s.unrouted.stack = [] := hstack
      exact agree_of_none
        (by simp only [Use.action, Intent.step, Bridge.ret, hstack, Option.map_none])
        (by simp only [Use.action, Intent.step, Bridge.ret, hunrouted, Option.map_none])
  | cons frame rest =>
      have hunrouted : s.unrouted.stack = frame :: rest := hstack
      obtain ⟨requestId, rfl⟩ := h.stack frame (by rw [hstack]; exact List.mem_cons_self)
      refine agree_of_turns (r := ({ s with stack := rest }, [])) ?_ ?_ fun frame hframe => ?_
      · simp only [Use.action, Intent.step, Bridge.ret, hstack, Option.map_some]
      · simp only [Use.action, Intent.step, Bridge.ret, hunrouted, Option.map_some]
        rfl
      · exact h.stack frame (by rw [hstack]; exact List.mem_cons_of_mem _ hframe)

theorem agree_bindEngine (h : Rests router s) (engine : Option EngineId) :
    Agree toVariant router s (.bindEngine engine) := by
  have hnull : s.unrouted.engineIsNull engine = s.engineIsNull engine := by
    cases engine <;> rfl
  by_cases hrefused : s.engineIsNull engine = true ∧ engine ≠ none
  · exact agree_of_none (if_pos hrefused) (by
      simp only [Use.action, Intent.step, hnull, if_pos hrefused])
  · refine agree_of_turns (r := ({ s with jsEngine := engine }, [])) (if_neg hrefused) ?_ h.stack
    simp only [Use.action, Intent.step, hnull, if_neg hrefused]
    rfl

/-- **Every step** of the two bridges is the same to the view. -/
theorem step_agree (h : Rests router s) (use : Use) : Agree toVariant router s use := by
  cases use with
  | request requestId intent params callback =>
      exact agree_request h requestId intent params callback
  | respond requestId ok data error => exact agree_respond h requestId ok data error
  | abandonPendingIntents requestIds => exact agree_abandonPendingIntents h requestIds
  | destroy => exact agree_destroy h
  | turn => exact agree_turn h
  | ret => exact agree_ret h
  | bindEngine engine => exact agree_bindEngine h engine
  | destroyEngine engine => exact agree_of_turns rfl rfl h.stack

theorem Rests.refuse (h : Rests router s) : Rests router s.refuse.1 := by
  rw [refuse_of_turns h.stack]
  exact h

/-- The router has returned when a step is over, and is there until the bridge is gone. -/
theorem Rests.step (h : Rests router s) {use : Use}
    (hs : (used toVariant (some router)).step s use = some (s', os)) : Rests router s' := by
  obtain ⟨done, hstep, he⟩ := Option.map_eq_some_iff.mp hs
  obtain ⟨rfl, -⟩ := Prod.mk.inj he
  cases use with
  | request requestId intent params callback =>
      obtain ⟨hgone, hdone, -⟩ := Machine.taken_unless hstep
      have hrouter := h.router.resolve_right hgone
      have hrefuse : done.1.refuse =
          (s.record requestId callback).deliverIntentResult requestId refusal := by
        rw [← hdone]
        simp only [Bridge.request, hrouter]
        exact refuse_request router requestId _
      rw [hrefuse, deliverIntentResult_eq]
      exact ⟨.inl hrouter, h.stack⟩
  | respond requestId ok data error =>
      obtain ⟨hgone, hdone, -⟩ := Machine.taken_unless hstep
      have hrouter := h.router.resolve_right hgone
      rw [← hdone]
      simp only [Bridge.respond, hrouter]
      exact ⟨.inl rfl, h.stack⟩
  | abandonPendingIntents requestIds =>
      obtain ⟨hrefused, hdone, -⟩ := Machine.taken_unless hstep
      have hrouter := h.router.resolve_right (not_or.mp hrefused).1
      rw [← hdone]
      by_cases hkeys : s.pendingIntents.keys = []
      · simp only [Bridge.abandonPendingIntents, if_pos hkeys]
        exact Rests.refuse ⟨h.router, h.stack⟩
      · simp only [Bridge.abandonPendingIntents, if_neg hkeys, hrouter]
        exact ⟨.inl rfl, h.stack⟩
  | destroy =>
      obtain ⟨halive, hdone, -⟩ := Machine.taken_if hstep
      have hrouter := h.router.resolve_right (by rw [halive.1]; simp)
      rw [← hdone]
      simp only [Bridge.destroy, hrouter]
      exact ⟨.inr rfl, h.stack⟩
  | turn =>
      cases hstack : s.stack with
      | cons frame rest => simp only [Use.action, Intent.step, hstack, reduceCtorEq] at hstep
      | nil =>
          cases hqueue : s.queue with
          | nil => simp only [Use.action, Intent.step, hstack, hqueue, reduceCtorEq] at hstep
          | cons q rest =>
              obtain rfl := Option.some.inj ((step_turn hstack hqueue).symm.trans hstep)
              refine Rests.refuse ⟨?_, turns_runQueued h.stack⟩
              obtain he | he := runQueued_cases q { s with queue := rest }
              · rw [he]
                exact h.router
              · rw [he]
                exact h.router
  | ret =>
      cases hstack : s.stack with
      | nil => simp only [Use.action, Intent.step, Bridge.ret, hstack, Option.map_none,
          reduceCtorEq] at hstep
      | cons frame rest =>
          obtain ⟨requestId, rfl⟩ := h.stack frame (by rw [hstack]; exact List.mem_cons_self)
          simp only [Use.action, Intent.step, Bridge.ret, hstack, Option.map_some] at hstep
          obtain rfl := Option.some.inj hstep
          refine Rests.refuse ⟨h.router, fun frame hframe => ?_⟩
          exact h.stack frame (by rw [hstack]; exact List.mem_cons_of_mem _ hframe)
  | bindEngine engine =>
      obtain ⟨-, hdone, -⟩ := Machine.taken_unless hstep
      rw [← hdone]
      exact Rests.refuse ⟨h.router, h.stack⟩
  | destroyEngine engine =>
      obtain rfl := Option.some.inj hstep
      exact Rests.refuse ⟨h.router, h.stack⟩

/-! ### What callbacks get -/

/-- What is in a queue was there before or is a refusal. -/
def Refuses (s s' : Bridge) : Prop := ∀ q ∈ s'.queue, q ∈ s.queue ∨ q.envelope = refusal

theorem Refuses.same (h : s'.queue = s.queue) : Refuses s s' := by
  intro q hq
  rw [h] at hq
  exact .inl hq

theorem refuses_deliver (requestId : String) (s : Bridge) :
    Refuses s (s.deliverIntentResult requestId refusal).1 := by
  rw [deliverIntentResult_eq]
  intro q hq
  obtain hq | hq := List.mem_append.mp hq
  · exact .inl hq
  · unfold Bridge.posted at hq
    split at hq
    · split_ifs at hq with hruns
      · obtain rfl := List.mem_singleton.mp hq
        exact .inr rfl
      · cases hq
    · cases hq

theorem refuses_ret (s : Bridge) : Refuses s (s.ret.getD s) := by
  unfold Bridge.ret
  split
  · exact .same rfl
  · intro q hq
    cases hq
  · exact .same rfl

theorem refuses_refuse (s : Bridge) : Refuses s s.refuse.1 := by
  unfold Bridge.refuse
  split
  · rename_i requestId _ _
    intro q hq
    obtain hq | hq := refuses_ret _ q hq
    · exact refuses_deliver _ _ q hq
    · exact .inr hq
  · exact refuses_ret s
  · exact refuses_ret s
  · exact refuses_ret s
  · exact .same rfl
  · exact .same rfl

/-- The queued envelopes that callbacks are invoked with. -/
def Invokes (s : Bridge) (os : List Obs) : Prop :=
  ∀ requestId envelope stack, .invoked requestId envelope stack ∈ os →
    ∃ q ∈ s.queue, q.envelope = envelope

theorem Invokes.none (h : ∀ requestId envelope stack, .invoked requestId envelope stack ∉ os) :
    Invokes s os := fun _ _ _ hm => absurd hm (h _ _ _)

theorem not_invoked_deliver (requestId : String) (envelope : QVariantMap) (s : Bridge) :
    ∀ id e stack, .invoked id e stack ∉ (s.deliverIntentResult requestId envelope).2 := by
  rw [deliverIntentResult_eq]
  intro id e stack
  split_ifs <;> simp

theorem not_invoked_refuse (s : Bridge) : ∀ id e stack, .invoked id e stack ∉ s.refuse.2 := by
  unfold Bridge.refuse
  split
  · exact not_invoked_deliver _ _ _
  · simp
  · simp
  · simp
  · simp
  · simp

theorem step_refuses {use : Use} (hs : Intent.step toVariant s use.action = some (s', os)) :
    Refuses s s' ∧ Invokes s os := by
  cases use with
  | request requestId intent params callback =>
      obtain ⟨-, rfl, rfl⟩ := Machine.taken_unless hs
      unfold Bridge.request
      cases hrouter : s.intentRouter with
      | none =>
          refine ⟨refuses_deliver requestId (s.record requestId callback),
            .none fun id e stack => ?_⟩
          have hnot := not_invoked_deliver requestId refusal (s.record requestId callback) id e
            stack
          rw [refusal] at hnot
          simpa [Bridge.failIntentLocally] using hnot
      | some router => exact ⟨.same rfl, .none (by simp)⟩
  | respond requestId ok data error =>
      obtain ⟨-, rfl, rfl⟩ := Machine.taken_unless hs
      unfold Bridge.respond
      cases s.intentRouter with
      | none => exact ⟨.same rfl, .none (by simp)⟩
      | some router => exact ⟨.same rfl, .none (by simp)⟩
  | abandonPendingIntents requestIds =>
      obtain ⟨-, rfl, rfl⟩ := Machine.taken_unless hs
      unfold Bridge.abandonPendingIntents
      dsimp only
      split_ifs
      · exact ⟨.same rfl, .none (by simp)⟩
      · cases s.intentRouter with
        | none => exact ⟨.same rfl, .none (by simp)⟩
        | some router => exact ⟨.same rfl, .none (by simp)⟩
  | destroy =>
      obtain ⟨-, rfl, rfl⟩ := Machine.taken_if hs
      unfold Bridge.destroy
      cases s.intentRouter with
      | none => exact ⟨fun q hq => absurd hq List.not_mem_nil, .none (by simp)⟩
      | some router => exact ⟨.same rfl, .none (by simp)⟩
  | turn =>
      cases hstack : s.stack with
      | cons frame rest => simp only [Use.action, Intent.step, hstack, reduceCtorEq] at hs
      | nil =>
          cases hqueue : s.queue with
          | nil => simp only [Use.action, Intent.step, hstack, hqueue, reduceCtorEq] at hs
          | cons q rest =>
              have hrest : Refuses s { s with queue := rest } := by
                intro q' hq'
                exact .inl (hqueue ▸ List.mem_cons_of_mem q hq')
              have he := Option.some.inj ((step_turn hstack hqueue).symm.trans hs)
              obtain hrun | hrun := runQueued_cases q { s with queue := rest }
              · rw [hrun] at he
                obtain ⟨rfl, rfl⟩ := Prod.mk.inj he
                exact ⟨hrest, .none (by simp)⟩
              · rw [hrun] at he
                obtain ⟨rfl, rfl⟩ := Prod.mk.inj he
                refine ⟨hrest, fun requestId envelope stack hm =>
                  ⟨q, hqueue ▸ List.mem_cons_self, ?_⟩⟩
                obtain ⟨-, he, -⟩ := Obs.invoked.inj (List.mem_singleton.mp hm)
                exact he.symm
  | ret =>
      obtain ⟨s₁, hret, he⟩ := Option.map_eq_some_iff.mp hs
      obtain ⟨rfl, rfl⟩ := Prod.mk.inj he
      have hrefuses := refuses_ret s
      rw [hret] at hrefuses
      exact ⟨hrefuses, .none (by simp)⟩
  | bindEngine engine =>
      obtain ⟨-, rfl, rfl⟩ := Machine.taken_unless hs
      exact ⟨.same rfl, .none (by simp)⟩
  | destroyEngine engine =>
      obtain ⟨rfl, rfl⟩ := Prod.mk.inj (Option.some.inj hs)
      exact ⟨.same rfl, .none (by simp)⟩

/-! ### Runs -/

/-- Nothing but a refusal is queued or reaches a callback. -/
structure Refused (log : List (Use × List Obs)) (s : Bridge) : Prop where
  queue : ∀ q ∈ s.queue, q.envelope = refusal
  invoked : ∀ requestId envelope stack, .invoked requestId envelope stack ∈ log.flatMap (·.2) →
    envelope = refusal

theorem run_refused {router : Option RouterId} {log : List (Use × List Obs)}
    (h : (used toVariant router).logged.Run Machine.always log s) : Refused log s := by
  refine h.invariant (I := Refused) ⟨by simp [used, Machine.logged], by simp⟩
    fun {log s use s' es} hi _ hs => ?_
  obtain ⟨os, hos, rfl⟩ := Machine.logged_step.mp hs
  obtain ⟨done, hstep, he⟩ := Option.map_eq_some_iff.mp hos
  obtain ⟨rfl, rfl⟩ := Prod.mk.inj he
  obtain ⟨hrefuses, hinvokes⟩ := step_refuses hstep
  constructor
  · intro q hq
    obtain hq | hq := refuses_refuse done.1 q hq
    · obtain hq | hq := hrefuses q hq
      · exact hi.queue q hq
      · exact hq
    · exact hq
  · intro requestId envelope stack hm
    simp only [List.flatMap_append, List.mem_append, List.flatMap_cons, List.flatMap_nil,
      List.append_nil] at hm
    obtain hm | hm | hm := hm
    · exact hi.invoked requestId envelope stack hm
    · obtain ⟨q, hq, rfl⟩ := hinvokes requestId envelope stack hm
      exact hi.queue q hq
    · exact absurd hm (not_invoked_refuse done.1 requestId envelope stack)

theorem run_rests {log : List (Use × List Obs)}
    (h : (used toVariant (some router)).logged.Run Machine.always log s) : Rests router s := by
  refine h.invariant (I := fun _ => Rests router) ⟨.inl rfl, by simp [used, Machine.logged]⟩
    fun {_ _ _ _ _} hi _ hs => ?_
  obtain ⟨os, hs, -⟩ := Machine.logged_step.mp hs
  exact hi.step hs

/-- **No router is a router that refuses everything.**  Whatever a view asks and answers, whatever
happens to its engine and however the event loop turns, a bridge without a router does the same,
callback by callback, as one whose router answers each request with `unavailable`, and no callback
is ever invoked with anything else. -/
theorem no_router_is_a_refusal (toVariant : QJSValue → QVariant) (router : RouterId) :
    (∀ log s, (used toVariant (some router)).logged.Run Machine.always log s →
      (used toVariant none).logged.Run Machine.always (log.map Use.seen) s.unrouted) ∧
    (∀ log s, (used toVariant none).logged.Run Machine.always log s →
      ∃ log' s', (used toVariant (some router)).logged.Run Machine.always log' s' ∧
        log'.map Use.seen = log ∧ s'.unrouted = s) ∧
    ∀ router log s, (used toVariant router).logged.Run Machine.always log s →
      ∀ requestId envelope stack, .invoked requestId envelope stack ∈ log.flatMap (·.2) →
        envelope = makeEnvelope false .invalid "unavailable" := by
  refine ⟨fun log s h => ?_, fun log s h => ?_, fun router log s h => (run_refused h).invoked⟩
  · rw [List.map_eq_flatMap]
    refine Machine.Run.refines (N := (used toVariant none).logged) (f := Bridge.unrouted) rfl
      (fun {_ s use s' es} hrun _ hs => ?_) h
    obtain ⟨os, hos, rfl⟩ := Machine.logged_step.mp hs
    have hagree : Agree toVariant router s use := step_agree (run_rests hrun) use
    rw [Agree, hos] at hagree
    exact ⟨use, Machine.logged_step.mpr ⟨untold os, hagree, rfl⟩⟩
  · induction h with
    | start => exact ⟨[], _, .start, rfl, rfl⟩
    | @step log s s' use es _ _ hs ih =>
        obtain ⟨log', t, hrun, rfl, rfl⟩ := ih
        obtain ⟨os, hos, rfl⟩ := Machine.logged_step.mp hs
        have hagree : Agree toVariant router t use := step_agree (run_rests hrun) use
        rw [Agree, hos] at hagree
        obtain ⟨done, hdone, he⟩ := Option.map_eq_some_iff.mp hagree.symm
        obtain ⟨rfl, rfl⟩ := Prod.mk.inj he
        refine ⟨log' ++ [(use, done.2)], done.1,
          hrun.step trivial (Machine.logged_step.mpr ⟨done.2, hdone, rfl⟩), ?_, rfl⟩
        rw [List.map_append]
        rfl

/-- A router is asked and refuses; without it the callback hears the same in the same turn. -/
theorem refused_alike : ∃ log s, (used (fun _ => .invalid) none).logged.Run Machine.always log s ∧
    log.flatMap (·.2) = [.requested "r" ⟨1, true⟩ (some 0), .delivered "r" refusal, .answered "r",
      .invoked "r" refusal [.turn "r"]] ∧ refusal = makeEnvelope false .invalid "unavailable" := by
  have hsame := no_router_is_a_refusal (fun _ => .invalid) 7
  have h := Machine.exec_run (M := (used (fun _ => .invalid) (some 7)).logged) (G := Machine.always)
    [.bindEngine (some 0), .request "r" "wallet.send" [] ⟨1, true⟩,
      .respond "other" true .invalid "", .turn, .ret] rfl
  obtain ⟨log, s, hplain, hobs⟩ : ∃ log s,
      (used (fun _ => .invalid) none).logged.Run Machine.always log s ∧ log.flatMap (·.2) =
        [.requested "r" ⟨1, true⟩ (some 0), .delivered "r" refusal, .answered "r",
          .invoked "r" refusal [.turn "r"]] := ⟨_, _, hsame.1 _ _ h, rfl⟩
  exact ⟨log, s, hplain, hobs,
    hsame.2.2 none log s hplain "r" refusal [.turn "r"] (by rw [hobs]; simp)⟩

end LogosViewRuntime.Intent
