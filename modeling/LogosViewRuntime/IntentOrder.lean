import LogosViewRuntime.IntentLifeCycle
import LogosViewRuntime.IntentRefusal
import Mathlib.Data.List.Sort
import Mathlib.Data.String.Basic

/-! # What is open and what is answered

* `pendingIntentRequestIds` lists exactly the requests that wait for a result, however the hash
  orders them (`pending_ids_outstanding`).
* Callbacks are invoked in the order in which their requests were answered, and as long as no
  engine is destroyed and nothing is abandoned none is left out (`results_in_order`). -/

namespace LogosViewRuntime.Intent

open Reactive

/-- `pendingIntentRequestIds`; `keys` is the order in which the hash hands out its keys. -/
def pendingIntentRequestIds (keys : List String) : List String := keys.insertionSort (· ≤ ·)

/-! ### What a run shows of the requests -/

def invokedIds (tr : List Obs) : List String :=
  tr.filterMap fun
    | .invoked requestId _ _ => some requestId
    | _ => none

def answeredIds (tr : List Obs) : List String :=
  tr.filterMap fun
    | .answered requestId => some requestId
    | _ => none

def Bridge.queuedIds (s : Bridge) : List String := s.queue.map (·.requestId)

/-- The request came with a callable callback of an engine. -/
def runnable (tr : List Obs) (requestId : String) : Bool :=
  tr.any fun
    | .requested id callback engine => id = requestId && callback.isCallable && engine.isSome
    | _ => false

def Asks (requestId : String) : Obs → Prop
  | .requested id _ _ => id = requestId
  | _ => False

/-- The request stays open. -/
def Leaves (requestId : String) : Obs → Prop
  | .delivered id _ => id ≠ requestId
  | .abandoned | .destroyed => False
  | _ => True

/-- It was made, and there has been no result, no abandon and no end of the bridge since. -/
def Outstanding (requestId : String) (tr : List Obs) : Prop :=
  Machine.Since (Asks requestId) (Leaves requestId) tr

@[simp] theorem invokedIds_append (tr os : List Obs) :
    invokedIds (tr ++ os) = invokedIds tr ++ invokedIds os := List.filterMap_append

@[simp] theorem answeredIds_append (tr os : List Obs) :
    answeredIds (tr ++ os) = answeredIds tr ++ answeredIds os := List.filterMap_append

variable {toVariant : QJSValue → QVariant} {tr os : List Obs} {s s' : Bridge}

/-! ### What is pending -/

/-- The map has what the run left open. -/
def Open (tr : List Obs) (s : Bridge) : Prop :=
  ∀ requestId, requestId ∈ s.pendingIntents ↔ Outstanding requestId tr

/-- Observations that say nothing about what is open. -/
def Idle : Obs → Prop
  | .requested .. | .delivered .. | .abandoned | .destroyed => False
  | _ => True

theorem outstanding_idle {requestId : String} (h : ∀ o ∈ os, Idle o) :
    Outstanding requestId (tr ++ os) ↔ Outstanding requestId tr := by
  have hnot : ¬ Machine.Since (Asks requestId) (Leaves requestId) os := by
    rintro ⟨before, o, after, rfl, hasks, -⟩
    have hidle := h o (by simp)
    cases o with
    | requested id _ _ => exact hidle
    | _ => exact hasks
  have hleaves : ∀ o ∈ os, Leaves requestId o := by
    intro o ho
    have hidle := h o ho
    cases o with
    | delivered id _ => exact hidle.elim
    | abandoned => exact hidle
    | destroyed => exact hidle
    | _ => trivial
  rw [Outstanding, Machine.since_append, or_iff_right hnot]
  exact and_iff_left hleaves

theorem Open.idle (h : Open tr s) (hos : ∀ o ∈ os, Idle o)
    (hpending : s'.pendingIntents = s.pendingIntents) : Open (tr ++ os) s' := by
  intro requestId
  rw [hpending, outstanding_idle hos]
  exact h requestId

theorem Open.record (h : Open tr s) (requestId : String) (callback : QJSValue) :
    Open (tr ++ [.requested requestId callback s.jsEngine]) (s.record requestId callback) := by
  intro id
  rw [Outstanding, Machine.since_snoc]
  dsimp only [Bridge.record]
  rw [AList.mem_insert, h id]
  simp [Asks, Leaves, Outstanding, eq_comm]

theorem Open.deliver (h : Open tr s) (requestId : String) (envelope : QVariantMap) :
    Open (tr ++ (s.deliverIntentResult requestId envelope).2)
      (s.deliverIntentResult requestId envelope).1 := by
  intro id
  rw [deliverIntentResult_eq, List.append_cons]
  rw [outstanding_idle (by split_ifs <;> simp [Idle])]
  dsimp only
  rw [Outstanding, Machine.since_snoc, AList.mem_erase, h id]
  simp [Asks, Leaves, Outstanding, and_comm, eq_comm]

/-- Nothing is left open. -/
theorem Open.cleared {o : Obs} (ho : o = .abandoned ∨ o = .destroyed) (hos : ∀ o' ∈ os, Idle o')
    (hpending : s'.pendingIntents = ∅) : Open (tr ++ o :: os) s' := by
  intro id
  rw [hpending, List.append_cons, outstanding_idle hos, Outstanding, Machine.since_snoc]
  obtain rfl | rfl := ho
  · simp [Asks, Leaves]
  · simp [Asks, Leaves]

theorem Open.step {a : Action} (h : Open tr s) (hs : step toVariant s a = some (s', os)) :
    Open (tr ++ os) s' := by
  cases a with
  | request requestId intent params callback =>
      obtain ⟨-, rfl, rfl⟩ := Machine.taken_unless hs
      have hrecord := h.record requestId callback
      unfold Bridge.request
      cases s.intentRouter with
      | none =>
          have hdeliver := hrecord.deliver requestId refusal
          rwa [List.append_assoc] at hdeliver
      | some router =>
          have hrouted : Open (tr ++ [.requested requestId callback s.jsEngine] ++
              [.routeIntent router requestId intent params])
              { s.record requestId callback with
                stack := .request router requestId :: (s.record requestId callback).stack } :=
            hrecord.idle (by simp [Idle]) rfl
          rwa [List.append_assoc] at hrouted
  | respond requestId ok data error =>
      obtain ⟨-, rfl, rfl⟩ := Machine.taken_unless hs
      unfold Bridge.respond
      cases s.intentRouter with
      | none => exact h.idle (by simp) rfl
      | some router => exact h.idle (by simp [Idle]) rfl
  | deliverIntentResult requestId envelope =>
      obtain ⟨-, rfl, rfl⟩ := Machine.taken_unless hs
      exact h.deliver requestId envelope
  | abandonPendingIntents requestIds =>
      obtain ⟨-, rfl, rfl⟩ := Machine.taken_unless hs
      unfold Bridge.abandonPendingIntents
      dsimp only
      split_ifs with hkeys
      · have hempty : s.pendingIntents = ∅ := AList.ext (List.map_eq_nil_iff.mp hkeys)
        exact .cleared (.inl rfl) (by simp) hempty
      · cases s.intentRouter with
        | none => exact .cleared (.inl rfl) (by simp) rfl
        | some router => exact .cleared (.inl rfl) (by simp [Idle]) rfl
  | setIntentRouter router =>
      obtain ⟨-, rfl, rfl⟩ := Machine.taken_unless hs
      exact h.idle (by simp) rfl
  | destroy =>
      obtain ⟨-, rfl, rfl⟩ := Machine.taken_if hs
      unfold Bridge.destroy
      cases s.intentRouter with
      | none => exact .cleared (.inr rfl) (by simp) rfl
      | some router => exact .cleared (.inr rfl) (by simp [Idle]) rfl
  | turn =>
      simp only [Intent.step] at hs
      split at hs
      · rename_i q rest hstack hqueue
        have he := Option.some.inj hs
        obtain hrun | hrun := runQueued_cases q { s with queue := rest }
        · rw [hrun] at he
          obtain ⟨rfl, rfl⟩ := Prod.mk.inj he
          exact h.idle (by simp) rfl
        · rw [hrun] at he
          obtain ⟨rfl, rfl⟩ := Prod.mk.inj he
          exact h.idle (by simp [Idle]) rfl
      · cases hs
  | ret =>
      obtain ⟨s₁, hret, he⟩ := Option.map_eq_some_iff.mp hs
      obtain ⟨rfl, rfl⟩ := Prod.mk.inj he
      refine h.idle (by simp) ?_
      unfold Bridge.ret at hret
      split at hret
      · cases hret
      · obtain rfl := Option.some.inj hret
        rfl
      · obtain rfl := Option.some.inj hret
        rfl
  | bindEngine engine =>
      obtain ⟨-, rfl, rfl⟩ := Machine.taken_unless hs
      exact h.idle (by simp) rfl
  | destroyEngine engine =>
      obtain ⟨rfl, rfl⟩ := Prod.mk.inj (Option.some.inj hs)
      exact h.idle (by simp) rfl

/-- **The pending request ids** are, in ascending order and each once, the requests that are
outstanding, whichever order the hash has its keys in. -/
theorem pending_ids_outstanding (h : (machine toVariant).Run Machine.always tr s)
    {keys : List String} (hkeys : keys.Perm s.pendingIntents.keys) :
    (pendingIntentRequestIds keys).Pairwise (· < ·) ∧
      ∀ requestId, requestId ∈ pendingIntentRequestIds keys ↔ Outstanding requestId tr := by
  have hopen : Open tr s :=
    h.invariant (I := Open) (fun requestId => by simp [machine, Outstanding, Machine.since_nil])
      fun hi _ hs => hi.step hs
  constructor
  · have hsorted : (pendingIntentRequestIds keys).Pairwise (· ≤ ·) :=
      List.pairwise_insertionSort (· ≤ ·) keys
    have hnodup : (pendingIntentRequestIds keys).Nodup := by
      refine (List.perm_insertionSort (· ≤ ·) keys).nodup_iff.mpr (hkeys.nodup_iff.mpr ?_)
      exact s.pendingIntents.nodupKeys
    exact (hsorted.and hnodup).imp fun hlt => lt_of_le_of_ne hlt.1 hlt.2
  · intro requestId
    rw [pendingIntentRequestIds, List.mem_insertionSort, hkeys.mem_iff]
    exact hopen requestId

/-- Three are asked for with a router, the second is answered. -/
theorem two_outstanding : ∃ tr s, (machine fun _ => .invalid).Run Machine.always tr s ∧
    pendingIntentRequestIds ["c", "a"] = ["a", "c"] ∧ Outstanding "a" tr ∧
    ¬ Outstanding "b" tr := by
  have h := Machine.exec_run (M := machine fun _ => .invalid) (G := Machine.always)
    [.setIntentRouter (some 7), .request "a" "wallet.send" [] ⟨1, true⟩, .ret,
      .request "b" "wallet.send" [] ⟨2, true⟩, .ret, .request "c" "chat.open" [] ⟨3, true⟩, .ret,
      .deliverIntentResult "b" []] rfl
  have hids := pending_ids_outstanding h (show ["c", "a"].Perm _ by decide)
  have he : pendingIntentRequestIds ["c", "a"] = ["a", "c"] := by decide
  rw [he] at hids
  exact ⟨_, _, h, he, (hids.2 "a").mp (by simp), fun hb => by simpa using (hids.2 "b").mpr hb⟩

/-! ### What is answered -/

structure Ordered (tr : List Obs) (s : Bridge) : Prop where
  pending : ∀ requestId ∈ s.pendingIntents,
    requestId ∈ requestedIds tr ∧ requestId ∉ answeredIds tr
  answered : ∀ requestId ∈ answeredIds tr, requestId ∈ requestedIds tr
  once : (answeredIds tr).Nodup
  order : (invokedIds tr ++ s.queuedIds).Sublist (answeredIds tr)
  runs : ∀ q ∈ s.queue, q.pending.callback.isCallable = true ∧ q.pending.engine.isSome = true
  complete : s.life = .alive → s.deadEngines = [] → .abandoned ∉ tr →
    invokedIds tr ++ s.queuedIds = (answeredIds tr).filter (runnable tr)

theorem runnable_append (requestId : String) :
    runnable (tr ++ os) requestId = (runnable tr requestId || runnable os requestId) :=
  List.any_append

theorem runnable_of_not_mem {requestId : String} (h : requestId ∉ requestedIds os) :
    runnable os requestId = false := by
  refine List.any_eq_false.mpr fun o ho => ?_
  cases o with
  | requested id callback engine =>
      have hne : id ≠ requestId := by
        rintro rfl
        exact h (mem_requestedIds.mpr ⟨callback, engine, ho⟩)
      simp [hne]
  | _ => simp

/-- A step that answers nothing and calls nobody. -/
theorem Ordered.frame (h : Ordered tr s) (hrequested : requestedIds os = [])
    (hanswered : answeredIds os = []) (hinvoked : invokedIds os = [])
    (hpending : ∀ requestId ∈ s'.pendingIntents, requestId ∈ s.pendingIntents)
    (hqueue : s'.queue = s.queue ∨ s'.queue = [] ∧ s'.life ≠ .alive)
    (hlife : s'.life = .alive → s.life = .alive)
    (hdead : s'.deadEngines = [] → s.deadEngines = []) : Ordered (tr ++ os) s' := by
  have hrequested' : requestedIds (tr ++ os) = requestedIds tr := by simp [hrequested]
  have hanswered' : answeredIds (tr ++ os) = answeredIds tr := by simp [hanswered]
  have hinvoked' : invokedIds (tr ++ os) = invokedIds tr := by simp [hinvoked]
  refine ⟨?_, ?_, ?_, ?_, ?_, fun halive hnone habandoned => ?_⟩
  · rw [hrequested', hanswered']
    exact fun requestId hmem => h.pending requestId (hpending requestId hmem)
  · rw [hrequested', hanswered']
    exact h.answered
  · rw [hanswered']
    exact h.once
  · rw [hanswered', hinvoked']
    obtain he | ⟨he, -⟩ := hqueue
    · rw [Bridge.queuedIds, he]
      exact h.order
    · rw [Bridge.queuedIds, he, List.map_nil, List.append_nil]
      exact (List.sublist_append_left _ _).trans h.order
  · obtain he | ⟨he, -⟩ := hqueue
    · rw [he]
      exact h.runs
    · simp [he]
  · obtain he | ⟨-, hnot⟩ := hqueue
    · have hcomplete := h.complete (hlife halive) (hdead hnone)
        fun hmem => habandoned (List.mem_append_left _ hmem)
      rw [hanswered', hinvoked', Bridge.queuedIds, he]
      refine hcomplete.trans (List.filter_congr fun requestId _ => ?_)
      have hnot : runnable os requestId = false := runnable_of_not_mem (by simp [hrequested])
      rw [runnable_append, hnot, Bool.or_false]
    · exact absurd halive hnot

theorem Ordered.record (h : Ordered tr s) {requestId : String} (callback : QJSValue)
    (hfresh : requestId ∉ requestedIds tr) :
    Ordered (tr ++ [.requested requestId callback s.jsEngine]) (s.record requestId callback) := by
  have hrequested : requestedIds (tr ++ [.requested requestId callback s.jsEngine]) =
      requestedIds tr ++ [requestId] := by simp [requestedIds]
  have hanswered : answeredIds (tr ++ [.requested requestId callback s.jsEngine]) =
      answeredIds tr := by simp [answeredIds]
  have hinvoked : invokedIds (tr ++ [.requested requestId callback s.jsEngine]) =
      invokedIds tr := by simp [invokedIds]
  refine ⟨?_, ?_, ?_, ?_, h.runs, fun halive hnone habandoned => ?_⟩
  · intro id hmem
    rw [hrequested, hanswered]
    obtain rfl | hmem := (AList.mem_insert _).mp hmem
    · exact ⟨by simp, fun hanswered => hfresh (h.answered _ hanswered)⟩
    · obtain ⟨hasked, hnot⟩ := h.pending id hmem
      exact ⟨List.mem_append_left _ hasked, hnot⟩
  · rw [hrequested, hanswered]
    exact fun id hmem => List.mem_append_left _ (h.answered id hmem)
  · rw [hanswered]
    exact h.once
  · rw [hanswered, hinvoked]
    exact h.order
  · have hcomplete := h.complete halive hnone fun hmem => habandoned (List.mem_append_left _ hmem)
    rw [hanswered, hinvoked]
    refine hcomplete.trans (List.filter_congr fun id hid => ?_)
    -- what was answered was asked for before
    have hne : id ≠ requestId := by
      rintro rfl
      exact hfresh (h.answered _ hid)
    have hnot : runnable [.requested requestId callback s.jsEngine] id = false :=
      runnable_of_not_mem (by simpa [requestedIds] using hne)
    rw [runnable_append, hnot, Bool.or_false]

/-- All requests of one id came with the same callback and engine. -/
theorem runnable_eq {requestId : String} {pending : PendingIntent}
    (hrecords : Records tr requestId pending) (hasked : requestId ∈ requestedIds tr) :
    runnable tr requestId = (pending.callback.isCallable && pending.engine.isSome) := by
  rw [Bool.eq_iff_iff]
  constructor
  · intro hruns
    obtain ⟨o, ho, hok⟩ := List.any_eq_true.mp hruns
    cases o with
    | requested id callback engine =>
        simp only [Bool.and_eq_true, decide_eq_true_eq] at hok
        obtain ⟨⟨rfl, hcallable⟩, hengine⟩ := hok
        obtain ⟨rfl, rfl⟩ := hrecords callback engine ho
        simp [hcallable, hengine]
    | _ => simp at hok
  · intro hruns
    obtain ⟨callback, engine, hmem⟩ := mem_requestedIds.mp hasked
    obtain ⟨rfl, rfl⟩ := hrecords callback engine hmem
    exact List.any_eq_true.mpr ⟨_, hmem, by simpa using hruns⟩

theorem posted_cases {requestId : String} {pending : PendingIntent} (envelope : QVariantMap)
    (hlookup : s.pendingIntents.lookup requestId = some pending) :
    s.posted requestId envelope =
      if pending.callback.isCallable && !s.engineIsNull pending.engine
      then [⟨requestId, envelope, pending⟩] else [] := by
  simp only [Bridge.posted, hlookup]

theorem isSome_of_not_null {engine : Option EngineId} (h : s.engineIsNull engine = false) :
    engine.isSome = true := by
  cases engine with
  | none => cases h
  | some e => rfl

theorem not_null_iff {engine : Option EngineId} (hdead : s.deadEngines = []) :
    (!s.engineIsNull engine) = engine.isSome := by
  cases engine with
  | none => rfl
  | some e => simp [Bridge.engineIsNull, hdead]

theorem Ordered.answer (h : Ordered tr s) (hlc : LifeCycle tr s) {requestId : String}
    {pending : PendingIntent} (envelope : QVariantMap)
    (hlookup : s.pendingIntents.lookup requestId = some pending) :
    Ordered (tr ++ [.delivered requestId envelope, .answered requestId])
      { s with
        pendingIntents := s.pendingIntents.erase requestId
        queue := s.queue ++ s.posted requestId envelope } := by
  have hmem : requestId ∈ s.pendingIntents := AList.lookup_isSome.mp (by simp [hlookup])
  obtain ⟨hasked, hnew⟩ := h.pending requestId hmem
  have hrequested : requestedIds (tr ++ [.delivered requestId envelope, .answered requestId]) =
      requestedIds tr := by simp [requestedIds]
  have hanswered : answeredIds (tr ++ [.delivered requestId envelope, .answered requestId]) =
      answeredIds tr ++ [requestId] := by simp [answeredIds]
  have hinvoked : invokedIds (tr ++ [.delivered requestId envelope, .answered requestId]) =
      invokedIds tr := by simp [invokedIds]
  have hposted := posted_cases envelope hlookup
  refine ⟨?_, ?_, ?_, ?_, ?_, fun halive hnone habandoned => ?_⟩
  · intro id hid
    obtain ⟨hne, hid⟩ := AList.mem_erase.mp hid
    rw [hrequested, hanswered]
    obtain ⟨hasked, hnot⟩ := h.pending id hid
    exact ⟨hasked, by simp [hnot, hne]⟩
  · rw [hrequested, hanswered]
    intro id hid
    obtain hid | hid := List.mem_append.mp hid
    · exact h.answered id hid
    · rwa [List.mem_singleton.mp hid]
  · rw [hanswered]
    exact h.once.append (List.nodup_singleton _) (by simpa using hnew)
  · rw [hanswered, hinvoked, Bridge.queuedIds, List.map_append, ← List.append_assoc]
    refine h.order.append ?_
    rw [hposted]
    split_ifs
    · exact List.Sublist.refl _
    · exact List.nil_sublist _
  · intro q hq
    obtain hq | hq := List.mem_append.mp hq
    · exact h.runs q hq
    · rw [hposted] at hq
      split_ifs at hq with hruns
      · obtain rfl := List.mem_singleton.mp hq
        simp only [Bool.and_eq_true, Bool.not_eq_true'] at hruns
        exact ⟨hruns.1, isSome_of_not_null hruns.2⟩
      · cases hq
  · have hcomplete := h.complete halive hnone fun hmem => habandoned (List.mem_append_left _ hmem)
    obtain ⟨-, -, -, -, -, hrecords⟩ := hlc.entry halive hlookup
    have hruns := runnable_eq hrecords hasked
    have hsame : runnable (tr ++ [.delivered requestId envelope, .answered requestId]) =
        runnable tr := by
      funext id
      rw [runnable_append]
      simp [runnable]
    have hdead : s.deadEngines = [] := hnone
    rw [hanswered, hinvoked, hsame, List.filter_append, ← hcomplete, Bridge.queuedIds,
      List.map_append, ← List.append_assoc, hposted, not_null_iff hdead, ← hruns]
    cases hok : runnable tr requestId with
    | true =>
        rw [List.filter_singleton, hok]
        rfl
    | false =>
        rw [List.filter_singleton, hok]
        rfl

theorem Ordered.deliver (h : Ordered tr s) (hlc : LifeCycle tr s) (requestId : String)
    (envelope : QVariantMap) :
    Ordered (tr ++ (s.deliverIntentResult requestId envelope).2)
      (s.deliverIntentResult requestId envelope).1 := by
  rw [deliverIntentResult_eq]
  cases hlookup : s.pendingIntents.lookup requestId with
  | some pending =>
      have hmem : requestId ∈ s.pendingIntents := AList.lookup_isSome.mp (by simp [hlookup])
      rw [if_pos hmem]
      exact h.answer hlc envelope hlookup
  | none =>
      have hmem : requestId ∉ s.pendingIntents := AList.lookup_eq_none.mp hlookup
      rw [if_neg hmem]
      refine h.frame rfl rfl rfl (fun id hid => (AList.mem_erase.mp hid).2) (.inl ?_) id id
      simp [Bridge.posted, hlookup]

/-- An invocation of the current generation and a living engine is run. -/
theorem runQueued_runs {q : QueuedResult} (hgeneration : q.pending.generation = s.intentGeneration)
    (hnull : s.engineIsNull q.pending.engine = false)
    (hcallable : q.pending.callback.isCallable = true) : (s.runQueued q).2 ≠ [] := by
  simp [Bridge.runQueued, hgeneration, hnull, hcallable]

/-- The oldest invocation is run, or it is one that could not be. -/
theorem Ordered.turn (h : Ordered tr s) (hlc : LifeCycle tr s) {q : QueuedResult}
    {rest : List QueuedResult} (hqueue : s.queue = q :: rest) :
    Ordered (tr ++ ({ s with queue := rest }.runQueued q).2)
      ({ s with queue := rest }.runQueued q).1 := by
  have hids : s.queuedIds = q.requestId :: rest.map (·.requestId) := by
    rw [Bridge.queuedIds, hqueue, List.map_cons]
  have horder := h.order
  rw [hids] at horder
  have hruns : ∀ q' ∈ rest, q'.pending.callback.isCallable = true ∧
      q'.pending.engine.isSome = true :=
    fun q' hq' => h.runs q' (hqueue ▸ List.mem_cons_of_mem q hq')
  obtain ⟨hcallable, hengine⟩ := h.runs q (hqueue ▸ List.mem_cons_self)
  obtain hrun | hrun := runQueued_cases q { s with queue := rest }
  · rw [hrun, List.append_nil]
    refine ⟨h.pending, h.answered, h.once, ?_, hruns, fun halive hnone habandoned => ?_⟩
    · exact ((List.sublist_cons_self _ _).append_left _).trans horder
    · -- the generation is still the first and the engine alive, so it would have been run
      have hold := hlc.old halive q (hqueue ▸ List.mem_cons_self)
      have hzero : s.intentGeneration = 0 := by
        rw [hlc.generation]
        refine List.countP_eq_zero.mpr fun o ho => ?_
        cases o with
        | abandoned => exact absurd ho habandoned
        | _ => simp
      have hdead : s.deadEngines = [] := hnone
      refine absurd (congrArg Prod.snd hrun) (runQueued_runs ?_ ?_ hcallable)
      · exact (Nat.eq_zero_of_le_zero (hzero ▸ hold)).trans hzero.symm
      · obtain ⟨e, he⟩ := Option.isSome_iff_exists.mp hengine
        simp [he, Bridge.engineIsNull, hdead]
  · rw [hrun]
    have hinvoked : invokedIds (tr ++ [.invoked q.requestId q.envelope
        (.turn q.requestId :: s.stack)]) = invokedIds tr ++ [q.requestId] := by simp [invokedIds]
    have hsplit : invokedIds tr ++ [q.requestId] ++ rest.map (·.requestId) =
        invokedIds tr ++ s.queuedIds := by simp [hids]
    have hrequested : requestedIds (tr ++ [.invoked q.requestId q.envelope
        (.turn q.requestId :: s.stack)]) = requestedIds tr := by simp [requestedIds]
    have hanswered : answeredIds (tr ++ [.invoked q.requestId q.envelope
        (.turn q.requestId :: s.stack)]) = answeredIds tr := by simp [answeredIds]
    refine ⟨?_, ?_, ?_, ?_, hruns, fun halive hnone habandoned => ?_⟩
    · rw [hrequested, hanswered]
      exact h.pending
    · rw [hrequested, hanswered]
      exact h.answered
    · rw [hanswered]
      exact h.once
    · rw [hanswered, hinvoked]
      exact hsplit ▸ h.order
    · have hcomplete := h.complete halive hnone fun hmem => habandoned (List.mem_append_left _ hmem)
      rw [hanswered, hinvoked]
      refine (hsplit.trans hcomplete).trans (List.filter_congr fun id _ => ?_)
      rw [runnable_append]
      simp [runnable]

theorem Ordered.step {a : Action} (h : Ordered tr s) (hlc : LifeCycle tr s)
    (hassumed : Assumed tr s a) (hs : step toVariant s a = some (s', os)) :
    Ordered (tr ++ os) s' := by
  cases a with
  | request requestId intent params callback =>
      obtain ⟨-, rfl, rfl⟩ := Machine.taken_unless hs
      have hrecord := h.record callback hassumed
      unfold Bridge.request
      cases s.intentRouter with
      | none =>
          have hdeliver := hrecord.deliver (hlc.record callback hassumed) requestId refusal
          rwa [List.append_assoc] at hdeliver
      | some router =>
          have hrouted : Ordered (tr ++ [.requested requestId callback s.jsEngine] ++
              [.routeIntent router requestId intent params])
              { s.record requestId callback with
                stack := .request router requestId :: (s.record requestId callback).stack } :=
            hrecord.frame rfl rfl rfl (fun _ hid => hid) (.inl rfl) id id
          rwa [List.append_assoc] at hrouted
  | respond requestId ok data error =>
      obtain ⟨-, rfl, rfl⟩ := Machine.taken_unless hs
      unfold Bridge.respond
      cases s.intentRouter with
      | none => exact h.frame rfl rfl rfl (fun _ hid => hid) (.inl rfl) id id
      | some router => exact h.frame rfl rfl rfl (fun _ hid => hid) (.inl rfl) id id
  | deliverIntentResult requestId envelope =>
      obtain ⟨-, rfl, rfl⟩ := Machine.taken_unless hs
      exact h.deliver hlc requestId envelope
  | abandonPendingIntents requestIds =>
      obtain ⟨-, rfl, rfl⟩ := Machine.taken_unless hs
      unfold Bridge.abandonPendingIntents
      dsimp only
      split_ifs with hkeys
      · exact h.frame rfl rfl rfl (fun _ hid => hid) (.inl rfl) id id
      · cases s.intentRouter with
        | none => exact h.frame rfl rfl rfl (by simp) (.inl rfl) id id
        | some router => exact h.frame rfl rfl rfl (by simp) (.inl rfl) id id
  | setIntentRouter router =>
      obtain ⟨-, rfl, rfl⟩ := Machine.taken_unless hs
      exact h.frame rfl rfl rfl (fun _ hid => hid) (.inl rfl) id id
  | destroy =>
      obtain ⟨⟨halive, -⟩, rfl, rfl⟩ := Machine.taken_if hs
      unfold Bridge.destroy
      cases s.intentRouter with
      | none =>
          exact h.frame rfl rfl rfl (by simp [Bridge.vanish]) (.inr ⟨rfl, by simp [Bridge.vanish]⟩)
            (fun _ => halive) id
      | some router =>
          exact h.frame rfl rfl rfl (by simp) (.inl rfl) (fun _ => halive) id
  | turn =>
      simp only [Intent.step] at hs
      split at hs
      · rename_i q rest hstack hqueue
        obtain ⟨rfl, rfl⟩ := Prod.mk.inj (Option.some.inj hs)
        exact h.turn hlc hqueue
      · cases hs
  | ret =>
      obtain ⟨s₁, hret, he⟩ := Option.map_eq_some_iff.mp hs
      obtain ⟨rfl, rfl⟩ := Prod.mk.inj he
      unfold Bridge.ret at hret
      split at hret
      · cases hret
      · obtain rfl := Option.some.inj hret
        exact h.frame rfl rfl rfl (fun _ hid => hid) (.inr ⟨rfl, by simp [Bridge.vanish]⟩)
          (fun hgone => by simp [Bridge.vanish] at hgone) id
      · obtain rfl := Option.some.inj hret
        exact h.frame rfl rfl rfl (fun _ hid => hid) (.inl rfl) id id
  | bindEngine engine =>
      obtain ⟨-, rfl, rfl⟩ := Machine.taken_unless hs
      exact h.frame rfl rfl rfl (fun _ hid => hid) (.inl rfl) id id
  | destroyEngine engine =>
      obtain ⟨rfl, rfl⟩ := Prod.mk.inj (Option.some.inj hs)
      exact h.frame rfl rfl rfl (fun _ hid => hid) (.inl rfl) id (by simp)

theorem run_ordered (h : (machine toVariant).Run Assumed tr s) : LifeCycle tr s ∧ Ordered tr s := by
  refine h.invariant (I := fun tr s => LifeCycle tr s ∧ Ordered tr s) ⟨.initial, ?_⟩
    fun {_ _ _ _ _} hi hassumed hs => ⟨hi.1.step hassumed hs, hi.2.step hi.1 hassumed hs⟩
  refine ⟨by simp [machine], by simp [answeredIds], List.nodup_nil, List.Sublist.refl _,
    by simp [machine], fun _ _ _ => rfl⟩

/-- **Results come in order.**  Callbacks are invoked in the order in which their requests were
answered, none twice, and what is still queued comes after them in that order.  While the bridge
lives, if no engine was destroyed and nothing abandoned, it is all of those that came with a
callable callback of an engine. -/
theorem results_in_order (h : (machine toVariant).Run Assumed tr s) :
    (answeredIds tr).Nodup ∧ (invokedIds tr ++ s.queuedIds).Sublist (answeredIds tr) ∧
      (s.life = .alive → s.deadEngines = [] → .abandoned ∉ tr →
        invokedIds tr ++ s.queuedIds = (answeredIds tr).filter (runnable tr)) := by
  obtain ⟨-, hordered⟩ := run_ordered h
  exact ⟨hordered.once, hordered.order, hordered.complete⟩

/-- The second request is answered first; the callback that the first came with is no function. -/
theorem answered_out_of_turn : ∃ tr s, (machine fun _ => .invalid).Run Assumed tr s ∧
    answeredIds tr = ["b", "a", "c"] ∧ invokedIds tr = ["b"] ∧ s.queuedIds = ["c"] ∧
    (answeredIds tr).filter (runnable tr) = ["b", "c"] := by
  have h := Machine.exec_run (M := machine fun _ => .invalid) (G := Assumed)
    [.bindEngine (some 0), .setIntentRouter (some 7), .request "a" "chat.open" [] ⟨1, false⟩, .ret,
      .request "b" "wallet.send" [] ⟨2, true⟩, .ret, .request "c" "chat.open" [] ⟨3, true⟩, .ret,
      .deliverIntentResult "b" [], .deliverIntentResult "a" [], .turn, .ret,
      .deliverIntentResult "c" []] rfl
  refine ⟨_, _, h, rfl, rfl, rfl, ?_⟩
  exact ((results_in_order h).2.2 rfl rfl (by simp)).symm

end LogosViewRuntime.Intent
