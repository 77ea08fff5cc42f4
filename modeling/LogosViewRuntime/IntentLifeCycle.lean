import LogosViewRuntime.Lib.OneShot
import LogosViewRuntime.IntentBridge

/-! # The life cycle of an intent request

Seen from one request id, the observations of a run are a path of the one-shot automaton: the
request is issued, the first result delivered for it settles it, an abandon cancels it and its
callback is fired with what settled it.  `LifeCycle` is the invariant that joins this abstract
path to the bridge: the pending map holds exactly the ids that wait, and an invocation that is
queued and of the current generation belongs to a settled id and carries the settling envelope.
What a run may show is then read off the path. -/

namespace LogosViewRuntime.Intent

open Reactive OneShot

/-! ### One request in a run -/

/-- What an observation means for one request. -/
def lifeEvent (id : String) : Obs → Option (Event QVariantMap)
  | .requested i _ _ => if i = id then some .issue else none
  | .delivered i envelope => if i = id then some (.settle envelope) else none
  | .invoked i envelope _ => if i = id then some (.fire envelope) else none
  | .abandoned => some .cancel
  | _ => none

def lifeOf (id : String) (tr : List Obs) : List (Event QVariantMap) := tr.filterMap (lifeEvent id)

/-- The envelopes the callback of a request was invoked with. -/
def invocations (id : String) (tr : List Obs) : List QVariantMap :=
  tr.filterMap fun
    | .invoked i envelope _ => if i = id then some envelope else none
    | _ => none

/-- The first envelope delivered for a request. -/
def firstDelivered (id : String) (tr : List Obs) : Option QVariantMap :=
  tr.findSome? fun
    | .delivered i envelope => if i = id then some envelope else none
    | _ => none

@[simp] theorem lifeOf_append (id : String) (tr os : List Obs) :
    lifeOf id (tr ++ os) = lifeOf id tr ++ lifeOf id os := List.filterMap_append

@[simp] theorem requestedIds_append (tr os : List Obs) :
    requestedIds (tr ++ os) = requestedIds tr ++ requestedIds os := List.filterMap_append

@[simp] theorem abandons_append (tr os : List Obs) :
    abandons (tr ++ os) = abandons tr + abandons os := List.countP_append

theorem fires_lifeOf (id : String) (tr : List Obs) : fires (lifeOf id tr) = invocations id tr := by
  apply fires_filterMap
  intro o
  cases o with
  | requested i _ _ | delivered i _ | invoked i _ _ =>
      by_cases h : i = id <;> simp [lifeEvent, h, fires]
  | _ => rfl

theorem firstSettle_lifeOf (id : String) (tr : List Obs) :
    firstSettle (lifeOf id tr) = firstDelivered id tr := by
  induction tr with
  | nil => rfl
  | cons o tr ih =>
      simp only [lifeOf, firstDelivered, List.filterMap_cons, List.findSome?_cons] at ih ⊢
      cases o with
      | requested i _ _ | delivered i _ | invoked i _ _ =>
          by_cases h : i = id <;> simp [lifeEvent, h, firstSettle, ih]
      | _ => simpa [lifeEvent, firstSettle] using ih

theorem mem_requestedIds {id : String} {tr : List Obs} :
    id ∈ requestedIds tr ↔ ∃ callback engine, .requested id callback engine ∈ tr := by
  simp only [requestedIds, List.mem_filterMap]
  constructor
  · rintro ⟨o, ho, hid⟩
    cases o with
    | requested i callback engine =>
        obtain rfl := Option.some.inj hid
        exact ⟨callback, engine, ho⟩
    | _ => simp at hid
  · rintro ⟨callback, engine, h⟩
    exact ⟨_, h, rfl⟩

theorem issue_mem_lifeOf {id : String} {tr : List Obs} (h : id ∈ requestedIds tr) :
    .issue ∈ lifeOf id tr := by
  obtain ⟨callback, engine, h⟩ := mem_requestedIds.mp h
  exact List.mem_filterMap.mpr ⟨_, h, by simp [lifeEvent]⟩

theorem cancel_mem_lifeOf {id : String} {tr : List Obs} (h : .cancel ∈ lifeOf id tr) :
    .abandoned ∈ tr := by
  obtain ⟨o, ho, he⟩ := List.mem_filterMap.mp h
  cases o with
  | abandoned => exact ho
  | requested i _ _ | delivered i _ | invoked i _ _ =>
      by_cases h : i = id <;> simp [lifeEvent, h] at he
  | _ => simp [lifeEvent] at he

/-! ### The invariant -/

/-- The queued invocations that a turn would still run: those of the current generation. -/
def Bridge.live (s : Bridge) : List QueuedResult :=
  s.queue.filter fun q => q.pending.generation = s.intentGeneration

def Bridge.liveIds (s : Bridge) : List String := s.live.map (·.requestId)

theorem Bridge.engineIsNull_congr {s s' : Bridge} (h : s'.deadEngines = s.deadEngines)
    (e : Option EngineId) : s'.engineIsNull e = s.engineIsNull e := by
  cases e <;> simp [engineIsNull, h]

/-- `pending` is what the request `id` of the run recorded. -/
def Records (tr : List Obs) (id : String) (pending : PendingIntent) : Prop :=
  ∀ callback engine, .requested id callback engine ∈ tr →
    pending.callback = callback ∧ pending.engine = engine

/-- The bridge's books about one request, by where the request stands. -/
def Stands (tr : List Obs) (s : Bridge) (id : String) : Phase QVariantMap → Prop
  | .fresh => s.pendingIntents.lookup id = none ∧ id ∉ s.liveIds
  | .waiting _ => id ∉ s.liveIds ∧ ∃ pending, s.pendingIntents.lookup id = some pending ∧
      pending.generation = s.intentGeneration ∧ Records tr id pending
  | .settled envelope => s.pendingIntents.lookup id = none ∧
      (∀ q ∈ s.live, q.requestId = id → q.envelope = envelope ∧ Records tr id q.pending) ∧
      ∀ callback engine, .requested id callback engine ∈ tr → callback.isCallable = true →
        s.engineIsNull engine = false → id ∈ s.liveIds
  | .finished => s.pendingIntents.lookup id = none ∧ id ∉ s.liveIds

/-- The books about one request only depend on its own entries. -/
theorem Stands.congr {tr tr' : List Obs} {s s' : Bridge} {id : String} {phase : Phase QVariantMap}
    (h : Stands tr s id phase) (hlookup : s'.pendingIntents.lookup id = s.pendingIntents.lookup id)
    (hgen : s'.intentGeneration = s.intentGeneration)
    (hlive : ∀ q, q.requestId = id → (q ∈ s'.live ↔ q ∈ s.live))
    (hnull : ∀ e, s'.engineIsNull e = false → s.engineIsNull e = false)
    (hreq : ∀ callback engine, .requested id callback engine ∈ tr' →
      .requested id callback engine ∈ tr) : Stands tr' s' id phase := by
  have hids : id ∈ s'.liveIds ↔ id ∈ s.liveIds := by
    simp only [Bridge.liveIds, List.mem_map]
    constructor
    · rintro ⟨q, hq, hid⟩; exact ⟨q, (hlive q hid).mp hq, hid⟩
    · rintro ⟨q, hq, hid⟩; exact ⟨q, (hlive q hid).mpr hq, hid⟩
  have hrec : ∀ pending, Records tr id pending → Records tr' id pending :=
    fun pending hr callback engine hm => hr callback engine (hreq callback engine hm)
  cases phase with
  | fresh => exact ⟨hlookup.trans h.1, by rw [hids]; exact h.2⟩
  | finished => exact ⟨hlookup.trans h.1, by rw [hids]; exact h.2⟩
  | waiting b =>
      obtain ⟨hn, pending, hp, hg, hr⟩ := h
      exact ⟨by rw [hids]; exact hn, pending, hlookup.trans hp, hg.trans hgen.symm, hrec _ hr⟩
  | settled envelope =>
      obtain ⟨hn, hq, hc⟩ := h
      refine ⟨hlookup.trans hn, fun q hm hid => ?_, fun callback engine hm hcall he => ?_⟩
      · obtain ⟨henv, hr⟩ := hq q ((hlive q hid).mp hm) hid
        exact ⟨henv, hrec _ hr⟩
      · exact hids.mpr (hc callback engine (hreq _ _ hm) hcall (hnull _ he))

structure LifeCycle (tr : List Obs) (s : Bridge) : Prop where
  generation : s.intentGeneration = abandons tr
  few : abandons tr < 2 ^ 64
  old : s.life = .alive → ∀ q ∈ s.queue, q.pending.generation ≤ s.intentGeneration
  once : s.life = .alive → s.liveIds.Nodup
  onTurn : ∀ id envelope stack, .invoked id envelope stack ∈ tr → stack = [.turn id]
  doomed : s.life = .destroying → ∃ router, .destructor router ∈ s.stack
  silent : s.life = .gone → s.queue = []
  path : ∀ id, ∃ phase, Path .fresh (lifeOf id tr) phase ∧
    (phase = .fresh ↔ id ∉ requestedIds tr) ∧ (s.life = .alive → Stands tr s id phase)

namespace LifeCycle

variable {tr os : List Obs} {s s' : Bridge}

theorem initial : LifeCycle [] {} where
  generation := rfl
  few := by decide
  old := by simp
  once _ := List.nodup_nil
  onTurn := by simp
  doomed := by simp
  silent := by simp
  path id := ⟨.fresh, .nil _, by simp [requestedIds], fun _ => ⟨rfl, by simp [Bridge.liveIds, Bridge.live]⟩⟩

/-- Observations that say nothing about any request. -/
def Neutral : Obs → Prop
  | .requested .. | .delivered .. | .abandoned | .invoked .. => False
  | _ => True

theorem neutral_lifeOf (id : String) (h : ∀ o ∈ os, Neutral o) : lifeOf id os = [] := by
  apply List.filterMap_eq_nil_iff.mpr
  intro o ho
  have := h o ho
  cases o <;> simp_all [Neutral, lifeEvent]

theorem neutral_requestedIds (h : ∀ o ∈ os, Neutral o) : requestedIds os = [] := by
  apply List.filterMap_eq_nil_iff.mpr
  intro o ho
  have := h o ho
  cases o <;> simp_all [Neutral]

theorem neutral_abandons (h : ∀ o ∈ os, Neutral o) : abandons os = 0 := by
  apply List.countP_eq_zero.mpr
  intro o ho
  have := h o ho
  cases o <;> simp_all [Neutral]

theorem neutral_requested {id : String} {callback : QJSValue} {engine : Option EngineId}
    (h : ∀ o ∈ os, Neutral o) :
    (.requested id callback engine ∈ tr ++ os) ↔ .requested id callback engine ∈ tr := by
  refine ⟨fun hm => ?_, fun hm => List.mem_append_left _ hm⟩
  obtain hm | hm := List.mem_append.mp hm
  · exact hm
  · exact (h _ hm).elim

/-- Steps that leave the pending map, the queue, the generation and the engines alone. -/
theorem frame (h : LifeCycle tr s) (hos : ∀ o ∈ os, Neutral o) (hlife : s'.life = s.life)
    (hpending : s'.pendingIntents = s.pendingIntents)
    (hgen : s'.intentGeneration = s.intentGeneration) (hqueue : s'.queue = s.queue)
    (hdead : s'.deadEngines = s.deadEngines)
    (hstack : ∀ router, .destructor router ∈ s.stack → .destructor router ∈ s'.stack) :
    LifeCycle (tr ++ os) s' := by
  have hlive : s'.live = s.live := by rw [Bridge.live, Bridge.live, hqueue, hgen]
  have hids : s'.liveIds = s.liveIds := by rw [Bridge.liveIds, Bridge.liveIds, hlive]
  have hnull := Bridge.engineIsNull_congr hdead
  refine ⟨?_, ?_, ?_, ?_, ?_, ?_, ?_, fun id => ?_⟩
  · rw [hgen, abandons_append, neutral_abandons hos]; exact h.generation
  · rw [abandons_append, neutral_abandons hos]; exact h.few
  · rw [hqueue, hgen, hlife]; exact h.old
  · rw [hids, hlife]; exact h.once
  · intro id envelope stack hm
    obtain hm | hm := List.mem_append.mp hm
    · exact h.onTurn id envelope stack hm
    · exact (hos _ hm).elim
  · intro hl
    obtain ⟨router, hr⟩ := h.doomed (hlife ▸ hl)
    exact ⟨router, hstack router hr⟩
  · intro hl
    rw [hqueue]
    exact h.silent (hlife ▸ hl)
  · obtain ⟨phase, hp, hf, hs⟩ := h.path id
    refine ⟨phase, by simpa [neutral_lifeOf id hos] using hp,
      by simpa [neutral_requestedIds hos] using hf, fun hl => ?_⟩
    exact (hs (hlife ▸ hl)).congr (by rw [hpending]) hgen (fun q _ => by rw [hlive])
      (fun e he => hnull e ▸ he) fun callback engine hm => (neutral_requested hos).mp hm

/-! ### The operations -/

theorem notMem_requested {id : String} {callback : QJSValue} {engine : Option EngineId}
    (h : id ∉ requestedIds tr) : .requested id callback engine ∉ tr :=
  fun hm => h (mem_requestedIds.mpr ⟨callback, engine, hm⟩)

theorem record (h : LifeCycle tr s) {id : String} (callback : QJSValue)
    (hid : id ∉ requestedIds tr) :
    LifeCycle (tr ++ [.requested id callback s.jsEngine]) (s.record id callback) := by
  refine ⟨?_, ?_, h.old, h.once, ?_, h.doomed, h.silent, fun i => ?_⟩
  · rw [abandons_append]; exact h.generation
  · rw [abandons_append]; exact h.few
  · intro i envelope stack hm
    exact h.onTurn i envelope stack (by simpa using hm)
  obtain ⟨phase, hp, hf, hs⟩ := h.path i
  by_cases hi : id = i
  · subst hi
    obtain rfl := hf.mpr hid
    refine ⟨.waiting false, ?_, by simp [requestedIds], fun hl => ?_⟩
    · have hissue : lifeOf id [.requested id callback s.jsEngine] = [.issue] := by
        simp [lifeOf, lifeEvent]
      rw [lifeOf_append, hissue]
      exact hp.snoc .issue
    refine ⟨(hs hl).2, _, AList.lookup_insert _, rfl, fun callback' engine hm => ?_⟩
    obtain hm | hm := List.mem_append.mp hm
    · exact absurd hm (notMem_requested hid)
    · simp only [List.mem_singleton, Obs.requested.injEq, true_and] at hm
      exact ⟨hm.1.symm, hm.2.symm⟩
  · refine ⟨phase, by simpa [lifeOf, lifeEvent, hi] using hp, ?_, fun hl => ?_⟩
    · simpa [requestedIds, Ne.symm hi] using hf
    · refine (hs hl).congr (AList.lookup_insert_ne (Ne.symm hi)) rfl (fun _ _ => Iff.rfl)
        (fun _ he => he) fun callback' engine hm => ?_
      obtain hm | hm := List.mem_append.mp hm
      · exact hm
      · simp [Ne.symm hi] at hm

/-- A result is legal at any time and never makes a request fresh again. -/
theorem settle_step (phase : Phase QVariantMap) (envelope : QVariantMap) :
    ∃ phase', Step phase (.settle envelope) phase' ∧ (phase' = .fresh ↔ phase = .fresh) := by
  cases phase with
  | fresh => exact ⟨_, .early _, Iff.rfl⟩
  | waiting b => exact ⟨_, .settle b _, by simp⟩
  | settled v => exact ⟨_, .late v _, Iff.rfl⟩
  | finished => exact ⟨_, .stale _, Iff.rfl⟩

theorem lifeOf_delivered (id i : String) (envelope : QVariantMap) {rest : List Obs}
    (hrest : ∀ o ∈ rest, Neutral o) :
    lifeOf i (.delivered id envelope :: rest) = if id = i then [.settle envelope] else [] := by
  have hnil := neutral_lifeOf i hrest
  rw [lifeOf] at hnil ⊢
  by_cases hi : id = i <;> simp [lifeEvent, hi, hnil]

/-- What is posted for a pending request: its invocation, unless it could not be run. -/
def Posts (s : Bridge) (id : String) (envelope : QVariantMap) (pending : PendingIntent)
    (posted : List QueuedResult) : Prop :=
  posted = [⟨id, envelope, pending⟩] ∨ posted = [] ∧
    (pending.callback.isCallable = false ∨ s.engineIsNull pending.engine = true)

/-- What `deliverIntentResult` does to a pending request: it leaves the map, and its invocation
is posted. -/
theorem deliverIntentResult_some {id : String} {pending : PendingIntent}
    (hlook : s.pendingIntents.lookup id = some pending) (envelope : QVariantMap) :
    ∃ posted, s.deliverIntentResult id envelope =
        ({ s with pendingIntents := s.pendingIntents.erase id, queue := s.queue ++ posted },
          [.delivered id envelope, .answered id]) ∧ Posts s id envelope pending posted := by
  simp only [Bridge.deliverIntentResult, hlook]
  cases hcall : pending.callback.isCallable with
  | false => exact ⟨[], by simp, .inr ⟨rfl, .inl hcall⟩⟩
  | true =>
      have hsame : Bridge.engineIsNull { s with pendingIntents := s.pendingIntents.erase id }
          pending.engine = s.engineIsNull pending.engine := Bridge.engineIsNull_congr rfl _
      cases hnull : s.engineIsNull pending.engine with
      | true => exact ⟨[], by simp [hsame, hnull], .inr ⟨rfl, .inr hnull⟩⟩
      | false => exact ⟨[⟨id, envelope, pending⟩], by simp [hsame, hnull], .inl rfl⟩

theorem mem_posted {id : String} {envelope : QVariantMap} {pending : PendingIntent}
    {posted : List QueuedResult} (hposted : Posts s id envelope pending posted) {q : QueuedResult}
    (hq : q ∈ posted) : q = ⟨id, envelope, pending⟩ := by
  obtain rfl | ⟨rfl, -⟩ := hposted
  · exact List.mem_singleton.mp hq
  · cases hq

/-- In a live bridge a pending entry is its request's, and of the current generation. -/
theorem entry (h : LifeCycle tr s) (hl : s.life = .alive) {id : String} {pending : PendingIntent}
    (hlook : s.pendingIntents.lookup id = some pending) :
    ∃ b, Path .fresh (lifeOf id tr) (.waiting b) ∧ id ∈ requestedIds tr ∧ id ∉ s.liveIds ∧
      pending.generation = s.intentGeneration ∧ Records tr id pending := by
  obtain ⟨phase, hp, hf, hs⟩ := h.path id
  have hs := hs hl
  cases phase with
  | waiting b =>
      obtain ⟨hn, pending', hp', hg, hr⟩ := hs
      obtain rfl := Option.some.inj (hlook.symm.trans hp')
      exact ⟨b, hp, by simpa using hf, hn, hg, hr⟩
  | fresh => rw [hs.1] at hlook; cases hlook
  | settled v => rw [hs.1] at hlook; cases hlook
  | finished => rw [hs.1] at hlook; cases hlook

/-- A result for an id that is not pending leaves every request where it is. -/
theorem deliver_unknown (h : LifeCycle tr s) {id : String} (envelope : QVariantMap)
    (hlook : s.pendingIntents.lookup id = none) : LifeCycle (tr ++ [.delivered id envelope]) s := by
  refine ⟨?_, ?_, h.old, h.once, ?_, h.doomed, h.silent, fun i => ?_⟩
  · rw [abandons_append]; exact h.generation
  · rw [abandons_append]; exact h.few
  · intro i env stack hm
    exact h.onTurn i env stack (by simpa using hm)
  obtain ⟨phase, hp, hf, hs⟩ := h.path i
  rw [lifeOf_append, lifeOf_delivered id i envelope (List.forall_mem_nil _)]
  have hreq : requestedIds (tr ++ [.delivered id envelope]) = requestedIds tr := by
    simp [requestedIds]
  have hcongr : ∀ phase, Stands tr s i phase → Stands (tr ++ [.delivered id envelope]) s i phase :=
    fun phase hs => hs.congr rfl rfl (fun _ _ => Iff.rfl) (fun _ he => he)
      fun callback engine hm => by simpa using hm
  rw [hreq]
  by_cases hi : id = i
  · subst hi
    obtain ⟨phase', hstep, hfresh⟩ := settle_step phase envelope
    rw [if_pos rfl]
    refine ⟨phase', hp.snoc hstep, hfresh.trans hf, fun hl => hcongr _ ?_⟩
    cases hstep with
    | settle b => obtain ⟨-, pending, hp', -⟩ := hs hl; rw [hlook] at hp'; cases hp'
    | early => exact hs hl
    | late => exact hs hl
    | stale => exact hs hl
  · rw [if_neg hi, List.append_nil]
    exact ⟨phase, hp, hf, fun hl => hcongr _ (hs hl)⟩

section posted

variable {id : String} {pending : PendingIntent} {envelope : QVariantMap}
  {posted : List QueuedResult}

/-- What is posted is live. -/
theorem live_posted (h : LifeCycle tr s) (hl : s.life = .alive)
    (hlook : s.pendingIntents.lookup id = some pending)
    (hposted : Posts s id envelope pending posted) : Bridge.live
      { s with pendingIntents := s.pendingIntents.erase id, queue := s.queue ++ posted } =
      s.live ++ posted := by
  obtain ⟨-, -, -, -, hg, -⟩ := h.entry hl hlook
  have hall : ∀ q ∈ posted, decide (q.pending.generation = s.intentGeneration) = true := by
    intro q hq
    rw [mem_posted hposted hq]
    exact decide_eq_true hg
  rw [Bridge.live, List.filter_append, List.filter_eq_self.mpr hall]
  rfl

/-- The request of a pending entry is settled. -/
theorem stands_settled (h : LifeCycle tr s) (hl : s.life = .alive)
    (hlook : s.pendingIntents.lookup id = some pending)
    (hposted : Posts s id envelope pending posted) : Stands tr
      { s with pendingIntents := s.pendingIntents.erase id, queue := s.queue ++ posted } id
      (.settled envelope) := by
  obtain ⟨b, -, -, hn, -, hr⟩ := h.entry hl hlook
  have hlive := h.live_posted hl hlook hposted
  refine ⟨AList.lookup_erase _ _, fun q hq hid => ?_, fun callback engine hm hcall he => ?_⟩
  · rw [hlive] at hq
    obtain hq | hq := List.mem_append.mp hq
    · exact absurd (List.mem_map.mpr ⟨q, hq, hid⟩) hn
    · obtain rfl := mem_posted hposted hq
      exact ⟨rfl, hr⟩
  · obtain ⟨hc, hengine⟩ := hr _ _ hm
    rw [Bridge.liveIds, hlive]
    obtain rfl | ⟨-, hfalse | hnull⟩ := hposted
    · simp
    · rw [hc, hcall] at hfalse; cases hfalse
    · have he : s.engineIsNull engine = false := he
      rw [hengine, he] at hnull; cases hnull

/-- The others stand where they stood. -/
theorem stands_other (h : LifeCycle tr s) (hl : s.life = .alive)
    (hlook : s.pendingIntents.lookup id = some pending)
    (hposted : Posts s id envelope pending posted) {i : String} (hi : id ≠ i)
    {phase : Phase QVariantMap} (hs : Stands tr s i phase) : Stands tr
      { s with pendingIntents := s.pendingIntents.erase id, queue := s.queue ++ posted } i
      phase := by
  refine hs.congr (AList.lookup_erase_ne (Ne.symm hi)) rfl (fun q hid => ?_) (fun _ he => he)
    fun _ _ hm => hm
  rw [h.live_posted hl hlook hposted, List.mem_append]
  refine ⟨fun hq => hq.resolve_right fun hq => ?_, .inl⟩
  obtain rfl := mem_posted hposted hq
  exact hi hid

/-- A result for a pending id settles its request. -/
theorem deliver_pending (h : LifeCycle tr s) (hgone : s.life ≠ .gone)
    (hlook : s.pendingIntents.lookup id = some pending)
    (hposted : Posts s id envelope pending posted) :
    LifeCycle (tr ++ [.delivered id envelope, .answered id])
      { s with pendingIntents := s.pendingIntents.erase id, queue := s.queue ++ posted } := by
  have hmem : ∀ i callback engine,
      .requested i callback engine ∈ tr ++ [.delivered id envelope, .answered id] →
        .requested i callback engine ∈ tr := fun i callback engine hm => by simpa using hm
  have hcongr : ∀ i phase, Stands tr
      { s with pendingIntents := s.pendingIntents.erase id, queue := s.queue ++ posted } i phase →
      Stands (tr ++ [.delivered id envelope, .answered id])
        { s with pendingIntents := s.pendingIntents.erase id, queue := s.queue ++ posted } i phase :=
    fun i phase hs => hs.congr rfl rfl (fun _ _ => Iff.rfl) (fun _ he => he) (hmem i)
  refine ⟨?_, ?_, fun hl => ?_, fun hl => ?_, ?_, h.doomed, fun hl => absurd hl hgone,
    fun i => ?_⟩
  · rw [abandons_append]; exact h.generation
  · rw [abandons_append]; exact h.few
  · obtain ⟨-, -, -, -, hg, -⟩ := h.entry hl hlook
    intro q hq
    obtain hq | hq := List.mem_append.mp hq
    · exact h.old hl q hq
    · obtain rfl := mem_posted hposted hq
      exact Nat.le_of_eq hg
  · obtain ⟨-, -, -, hn, -, -⟩ := h.entry hl hlook
    rw [Bridge.liveIds, h.live_posted hl hlook hposted, List.map_append]
    obtain rfl | ⟨rfl, -⟩ := hposted
    · exact List.nodup_append.mpr ⟨h.once hl, by simp, by
        simp only [List.map_cons, List.map_nil, List.mem_singleton]
        rintro a ha b rfl rfl
        exact hn ha⟩
    · simpa [Bridge.liveIds] using h.once hl
  · intro i env stack hm
    exact h.onTurn i env stack (by simpa using hm)
  have hneutral : ∀ o ∈ [Obs.answered id], Neutral o := by simp [Neutral]
  have hreq : requestedIds (tr ++ [.delivered id envelope, .answered id]) = requestedIds tr := by
    simp [requestedIds]
  rw [lifeOf_append, lifeOf_delivered id i envelope hneutral, hreq]
  obtain ⟨phase, hp, hf, hs⟩ := h.path i
  by_cases hi : id = i
  · subst hi
    rw [if_pos rfl]
    by_cases hl : s.life = .alive
    · obtain ⟨b, hp, hm, -⟩ := h.entry hl hlook
      exact ⟨.settled envelope, hp.snoc (.settle b envelope), by simpa using hm,
        fun _ => hcongr _ _ (h.stands_settled hl hlook hposted)⟩
    · obtain ⟨phase', hstep, hfresh⟩ := settle_step phase envelope
      exact ⟨phase', hp.snoc hstep, hfresh.trans hf, fun hl' => absurd hl' hl⟩
  · rw [if_neg hi, List.append_nil]
    exact ⟨phase, hp, hf, fun hl => hcongr _ _ (h.stands_other hl hlook hposted hi (hs hl))⟩

end posted

theorem deliver (h : LifeCycle tr s) (hgone : s.life ≠ .gone) (id : String)
    (envelope : QVariantMap) :
    LifeCycle (tr ++ (s.deliverIntentResult id envelope).2)
      (s.deliverIntentResult id envelope).1 := by
  cases hlook : s.pendingIntents.lookup id with
  | none =>
      simp only [Bridge.deliverIntentResult, hlook]
      exact h.deliver_unknown envelope hlook
  | some pending =>
      obtain ⟨posted, heq, hposted⟩ := deliverIntentResult_some hlook envelope
      rw [heq]
      exact h.deliver_pending hgone hlook hposted

theorem request (h : LifeCycle tr s) (hgone : s.life ≠ .gone) {id : String} (intent : String)
    (params : QVariantMap) (callback : QJSValue) (hid : id ∉ requestedIds tr) :
    LifeCycle (tr ++ (s.request id intent params callback).2)
      (s.request id intent params callback).1 := by
  have hrec := h.record callback hid
  simp only [Bridge.request]
  cases s.intentRouter with
  | none =>
      have hfail := hrec.deliver hgone id (makeEnvelope false .invalid errUnavailable)
      rw [List.append_assoc] at hfail
      exact hfail
  | some router =>
      have hpush : LifeCycle (tr ++ [.requested id callback s.jsEngine] ++
          [.routeIntent router id intent params])
          { s.record id callback with stack := .request router id :: s.stack } :=
        hrec.frame (by simp [Neutral]) rfl rfl rfl rfl rfl fun r hr => List.mem_cons_of_mem _ hr
      rw [List.append_assoc] at hpush
      exact hpush

theorem lifeOf_abandoned (i : String) (hos : ∀ o ∈ os, Neutral o) :
    lifeOf i (.abandoned :: os) = [.cancel] := by
  have hnil := neutral_lifeOf i hos
  rw [lifeOf] at hnil ⊢
  simp [lifeEvent, hnil]

/-- Bumping the generation silences what is queued, and nothing is pending afterwards. -/
theorem abandon (h : LifeCycle tr s) (hgone : s.life ≠ .gone) (hfew : abandons tr + 1 < 2 ^ 64)
    (hos : ∀ o ∈ os, Neutral o) (hlife : s'.life = s.life)
    (hgen : s'.intentGeneration = (s.intentGeneration + 1) % 2 ^ 64) (hqueue : s'.queue = s.queue)
    (hpending : s'.pendingIntents = ∅)
    (hstack : ∀ router, .destructor router ∈ s.stack → .destructor router ∈ s'.stack) :
    LifeCycle (tr ++ .abandoned :: os) s' := by
  have hgen' : s'.intentGeneration = s.intentGeneration + 1 := by
    rw [hgen, h.generation, Nat.mod_eq_of_lt hfew]
  have hcount : abandons (tr ++ .abandoned :: os) = abandons tr + 1 := by
    have hzero := neutral_abandons hos
    rw [abandons_append]
    simpa [abandons] using hzero
  have hlive : s.life = .alive → s'.live = [] := by
    intro hl
    apply List.filter_eq_nil_iff.mpr
    intro q hq
    have := h.old hl q (hqueue ▸ hq)
    simp only [decide_eq_true_eq, hgen']
    omega
  have hids : s.life = .alive → s'.liveIds = [] := fun hl => by rw [Bridge.liveIds, hlive hl]; rfl
  refine ⟨?_, by omega, fun hl q hq => ?_, fun hl => ?_, ?_, ?_, ?_, fun i => ?_⟩
  · rw [hgen', hcount, h.generation]
  · have := h.old (hlife ▸ hl) q (hqueue ▸ hq)
    omega
  · rw [hids (hlife ▸ hl)]; exact List.nodup_nil
  · intro i env stack hm
    obtain hm | hm := List.mem_append.mp hm
    · exact h.onTurn i env stack hm
    · obtain hm | hm := List.mem_cons.mp hm
      · cases hm
      · exact (hos _ hm).elim
  · intro hl
    obtain ⟨router, hr⟩ := h.doomed (hlife ▸ hl)
    exact ⟨router, hstack router hr⟩
  · exact fun hl => absurd (hlife ▸ hl) hgone
  have hreq : requestedIds (tr ++ .abandoned :: os) = requestedIds tr := by
    have hnil := neutral_requestedIds hos
    rw [requestedIds_append]
    simpa [requestedIds] using hnil
  obtain ⟨phase, hp, hf, -⟩ := h.path i
  rw [lifeOf_append, lifeOf_abandoned i hos, hreq]
  have hover : ∀ hl : s'.life = .alive, Stands (tr ++ .abandoned :: os) s' i .finished ∧
      Stands (tr ++ .abandoned :: os) s' i .fresh := by
    intro hl
    have hn : s'.pendingIntents.lookup i = none ∧ i ∉ s'.liveIds := by
      rw [hpending, hids (hlife ▸ hl)]; simp
    exact ⟨hn, hn⟩
  cases phase with
  | fresh => exact ⟨.fresh, hp.snoc .cancelFresh, hf, fun hl => (hover hl).2⟩
  | waiting b => exact ⟨.finished, hp.snoc (.cancelWaiting b), by simpa using hf, fun hl => (hover hl).1⟩
  | settled v => exact ⟨.finished, hp.snoc (.cancelSettled v), by simpa using hf, fun hl => (hover hl).1⟩
  | finished => exact ⟨.finished, hp.snoc .cancelFinished, hf, fun hl => (hover hl).1⟩

theorem abandonPendingIntents (h : LifeCycle tr s) (hgone : s.life ≠ .gone)
    (hfew : abandons tr + 1 < 2 ^ 64) (ids : List String) :
    LifeCycle (tr ++ (s.abandonPendingIntents ids).2) (s.abandonPendingIntents ids).1 := by
  simp only [Bridge.abandonPendingIntents]
  split_ifs with hkeys
  · have hempty : s.pendingIntents = ∅ := AList.ext (List.map_eq_nil_iff.mp hkeys)
    exact h.abandon hgone hfew (by simp) rfl rfl rfl hempty fun _ hr => hr
  · cases s.intentRouter with
    | none => exact h.abandon hgone hfew (by simp) rfl rfl rfl rfl fun _ hr => hr
    | some router =>
        exact h.abandon hgone hfew (by simp [Neutral]) rfl rfl rfl rfl
          fun _ hr => List.mem_cons_of_mem _ hr

theorem live_cons {q : QueuedResult} {rest : List QueuedResult} (hq : s.queue = q :: rest) :
    s.live = if q.pending.generation = s.intentGeneration
      then q :: { s with queue := rest }.live else { s with queue := rest }.live := by
  rw [Bridge.live, hq, List.filter_cons]
  simp only [decide_eq_true_eq]
  rfl

/-- A dying bridge has its destructor on the stack, and a gone one has no queue. -/
theorem alive_of_turn (h : LifeCycle tr s) {q : QueuedResult} {rest : List QueuedResult}
    (hq : s.queue = q :: rest) (hstack : s.stack = []) : s.life = .alive := by
  cases hlife : s.life with
  | alive => rfl
  | destroying =>
      obtain ⟨router, hr⟩ := h.doomed hlife
      rw [hstack] at hr; cases hr
  | gone => rw [h.silent hlife] at hq; cases hq

section turn

variable {q : QueuedResult} {rest : List QueuedResult}

theorem old_tail (h : LifeCycle tr s) (hl : s.life = .alive) (hq : s.queue = q :: rest) :
    ∀ r ∈ rest, r.pending.generation ≤ s.intentGeneration :=
  fun r hr => h.old hl r (hq ▸ List.mem_cons_of_mem _ hr)

/-- An invocation of a former generation is dropped without a trace. -/
theorem turn_stale (h : LifeCycle tr s) (hl : s.life = .alive) (hq : s.queue = q :: rest)
    (hgen : q.pending.generation ≠ s.intentGeneration) : LifeCycle tr { s with queue := rest } := by
  have hlive := live_cons hq
  rw [if_neg hgen] at hlive
  refine ⟨h.generation, h.few, fun _ => h.old_tail hl hq, fun _ => ?_, h.onTurn, h.doomed,
    fun hg => absurd hl (by rw [hg]; decide), fun i => ?_⟩
  · rw [Bridge.liveIds, ← hlive]; exact h.once hl
  · obtain ⟨phase, hp, hf, hs⟩ := h.path i
    exact ⟨phase, hp, hf, fun _ => (hs hl).congr rfl rfl (fun r _ => by rw [hlive])
      (fun _ he => he) fun _ _ hm => hm⟩

/-- There is one live invocation for a request at most. -/
theorem live_tail (h : LifeCycle tr s) (hl : s.life = .alive) (hq : s.queue = q :: rest)
    (hgen : q.pending.generation = s.intentGeneration) :
    q.requestId ∉ Bridge.liveIds { s with queue := rest } ∧
      (Bridge.liveIds { s with queue := rest }).Nodup := by
  have hlive := live_cons hq
  rw [if_pos hgen] at hlive
  have := h.once hl
  rwa [Bridge.liveIds, hlive, List.map_cons, List.nodup_cons] at this

/-- The request that a live invocation belongs to is settled with its envelope. -/
theorem live_head (h : LifeCycle tr s) (hl : s.life = .alive) (hq : s.queue = q :: rest)
    (hgen : q.pending.generation = s.intentGeneration) :
    Path .fresh (lifeOf q.requestId tr) (.settled q.envelope) ∧ q.requestId ∈ requestedIds tr ∧
      s.pendingIntents.lookup q.requestId = none ∧ Records tr q.requestId q.pending := by
  have hmem : q ∈ s.live := by
    rw [live_cons hq, if_pos hgen]
    exact List.mem_cons_self
  have hid : q.requestId ∈ s.liveIds := List.mem_map.mpr ⟨q, hmem, rfl⟩
  obtain ⟨phase, hp, hf, hs⟩ := h.path q.requestId
  have hs := hs hl
  cases phase with
  | fresh => exact absurd hid hs.2
  | waiting b => exact absurd hid hs.1
  | finished => exact absurd hid hs.2
  | settled envelope =>
      obtain ⟨hlook, hentries, -⟩ := hs
      obtain ⟨rfl, hrec⟩ := hentries q hmem rfl
      exact ⟨hp, by simpa using hf, hlook, hrec⟩

/-- The other requests stand where they stood. -/
theorem others_stand (h : LifeCycle tr s) (hl : s.life = .alive) (hq : s.queue = q :: rest)
    (hgen : q.pending.generation = s.intentGeneration) {i : String} (hi : i ≠ q.requestId) :
    ∃ phase, Path .fresh (lifeOf i tr) phase ∧ (phase = .fresh ↔ i ∉ requestedIds tr) ∧
      Stands tr { s with queue := rest } i phase := by
  have hlive := live_cons hq
  rw [if_pos hgen] at hlive
  have hother : ∀ r, r.requestId = i →
      (r ∈ Bridge.live { s with queue := rest } ↔ r ∈ s.live) := by
    rintro r rfl
    rw [hlive, List.mem_cons]
    exact ⟨.inr, fun hm => hm.resolve_left fun he => hi (by rw [he])⟩
  obtain ⟨phase, hp, hf, hs⟩ := h.path i
  exact ⟨phase, hp, hf, (hs hl).congr rfl rfl hother (fun _ he => he) fun _ _ hm => hm⟩

/-- A live invocation fires the request it belongs to. -/
theorem turn_fired (h : LifeCycle tr s) (hl : s.life = .alive) (hq : s.queue = q :: rest)
    (hgen : q.pending.generation = s.intentGeneration) :
    LifeCycle (tr ++ [.invoked q.requestId q.envelope [.turn q.requestId]])
      { s with queue := rest, stack := [.turn q.requestId] } := by
  obtain ⟨hp, hid, hlook, -⟩ := h.live_head hl hq hgen
  obtain ⟨hnew, hnodup⟩ := h.live_tail hl hq hgen
  refine ⟨?_, ?_, fun _ => h.old_tail hl hq, fun _ => hnodup, fun i env stack hm => ?_,
    fun hd => absurd hl (by rw [hd]; decide), fun hg => absurd hl (by rw [hg]; decide),
    fun i => ?_⟩
  · rw [abandons_append]; exact h.generation
  · rw [abandons_append]; exact h.few
  · obtain hm | hm := List.mem_append.mp hm
    · exact h.onTurn i env stack hm
    · simp only [List.mem_singleton, Obs.invoked.injEq] at hm
      rw [hm.2.2, hm.1]
  have hids : requestedIds (tr ++ [.invoked q.requestId q.envelope [.turn q.requestId]]) =
      requestedIds tr := by simp [requestedIds]
  rw [lifeOf_append, hids]
  by_cases hi : q.requestId = i
  · subst hi
    have hfire : lifeOf q.requestId [.invoked q.requestId q.envelope [.turn q.requestId]] =
        [.fire q.envelope] := by simp [lifeOf, lifeEvent]
    rw [hfire]
    exact ⟨.finished, hp.snoc (.fire _), by simpa using hid, fun _ => ⟨hlook, hnew⟩⟩
  · have hnil : lifeOf i [.invoked q.requestId q.envelope [.turn q.requestId]] = [] := by
      simp [lifeOf, lifeEvent, hi]
    rw [hnil, List.append_nil]
    obtain ⟨phase, hp, hf, hs⟩ := h.others_stand hl hq hgen (Ne.symm hi)
    exact ⟨phase, hp, hf, fun _ => hs.congr rfl rfl (fun _ _ => Iff.rfl) (fun _ he => he)
      fun callback engine hm => by simpa using hm⟩

/-- The engine died since: the callback can never be run, and the request stays settled. -/
theorem turn_unrunnable (h : LifeCycle tr s) (hl : s.life = .alive) (hq : s.queue = q :: rest)
    (hgen : q.pending.generation = s.intentGeneration)
    (hrun : ¬ (s.engineIsNull q.pending.engine = false ∧ q.pending.callback.isCallable = true)) :
    LifeCycle tr { s with queue := rest } := by
  obtain ⟨hp, hid, hlook, hrec⟩ := h.live_head hl hq hgen
  obtain ⟨hnew, hnodup⟩ := h.live_tail hl hq hgen
  refine ⟨h.generation, h.few, fun _ => h.old_tail hl hq, fun _ => hnodup, h.onTurn, h.doomed,
    fun hg => absurd hl (by rw [hg]; decide), fun i => ?_⟩
  by_cases hi : q.requestId = i
  · subst hi
    refine ⟨.settled q.envelope, hp, by simpa using hid, fun _ => ⟨hlook, fun r hr hr' => ?_, ?_⟩⟩
    · exact absurd (List.mem_map.mpr ⟨r, hr, hr'⟩) hnew
    · intro callback engine hm hcall he
      obtain ⟨hcb, heng⟩ := hrec callback engine hm
      refine absurd ⟨?_, ?_⟩ hrun
      · rw [heng]; exact he
      · rw [hcb]; exact hcall
  · obtain ⟨phase, hp, hf, hs⟩ := h.others_stand hl hq hgen (Ne.symm hi)
    exact ⟨phase, hp, hf, fun _ => hs⟩

/-- A turn takes the oldest invocation off the queue; nothing else of the books changes, except
that an invocation that is still live fires the settled request it belongs to. -/
theorem turn (h : LifeCycle tr s) (hq : s.queue = q :: rest) (hstack : s.stack = []) :
    LifeCycle (tr ++ ({ s with queue := rest }.runQueued q).2)
      ({ s with queue := rest }.runQueued q).1 := by
  have hl := h.alive_of_turn hq hstack
  by_cases hgen : q.pending.generation = s.intentGeneration
  · have hnull : ∀ t : Bridge, t.deadEngines = s.deadEngines →
        t.engineIsNull q.pending.engine = s.engineIsNull q.pending.engine :=
      fun t ht => Bridge.engineIsNull_congr ht _
    by_cases hrun : s.engineIsNull q.pending.engine = false ∧ q.pending.callback.isCallable = true
    · have heq : Bridge.runQueued q { s with queue := rest } =
          ({ s with queue := rest, stack := [.turn q.requestId] },
            [.invoked q.requestId q.envelope [.turn q.requestId]]) := by
        simp [Bridge.runQueued, hgen, hnull, hrun, hstack]
      rw [heq]
      exact h.turn_fired hl hq hgen
    · have heq : Bridge.runQueued q { s with queue := rest } = ({ s with queue := rest }, []) := by
        have hnot := hrun
        rw [not_and_or, Bool.not_eq_false, Bool.not_eq_true] at hnot
        rcases hnot with hnot | hnot <;> simp [Bridge.runQueued, hgen, hnull, hnot]
      rw [heq, List.append_nil]
      exact h.turn_unrunnable hl hq hgen hrun
  · have heq : Bridge.runQueued q { s with queue := rest } = ({ s with queue := rest }, []) := by
      simp [Bridge.runQueued, hgen]
    rw [heq, List.append_nil]
    exact h.turn_stale hl hq hgen

end turn

/-- A bridge that is being destroyed runs no queued invocation any more. -/
theorem dying (h : LifeCycle tr s) (hos : ∀ o ∈ os, Neutral o)
    (hgen : s'.intentGeneration = s.intentGeneration) (hlife : s'.life ≠ .alive)
    (hdoomed : s'.life = .destroying → ∃ router, .destructor router ∈ s'.stack)
    (hsilent : s'.life = .gone → s'.queue = []) : LifeCycle (tr ++ os) s' := by
  refine ⟨?_, ?_, fun hl => absurd hl hlife, fun hl => absurd hl hlife, fun i env stack hm => ?_,
    hdoomed, hsilent, fun i => ?_⟩
  · rw [hgen, abandons_append, neutral_abandons hos]; exact h.generation
  · rw [abandons_append, neutral_abandons hos]; exact h.few
  · obtain hm | hm := List.mem_append.mp hm
    · exact h.onTurn i env stack hm
    · exact (hos _ hm).elim
  · obtain ⟨phase, hp, hf, -⟩ := h.path i
    exact ⟨phase, by simpa [neutral_lifeOf i hos] using hp,
      by simpa [neutral_requestedIds hos] using hf, fun hl => absurd hl hlife⟩

theorem destroy (h : LifeCycle tr s) : LifeCycle (tr ++ s.destroy.2) s.destroy.1 := by
  simp only [Bridge.destroy]
  cases s.intentRouter with
  | none => exact h.dying (by simp [Neutral]) rfl nofun nofun fun _ => rfl
  | some router =>
      exact h.dying (by simp [Neutral]) rfl nofun (fun _ => ⟨router, List.mem_cons_self⟩) nofun

theorem ret (h : LifeCycle tr s) (hs : s.ret = some s') : LifeCycle tr s' := by
  rw [← List.append_nil tr]
  unfold Bridge.ret at hs
  split at hs
  · cases hs
  · obtain rfl := Option.some.inj hs
    exact h.dying (by simp) rfl nofun nofun fun _ => rfl
  · rename_i frame rest hne hstack
    obtain rfl := Option.some.inj hs
    refine h.frame (by simp) rfl rfl rfl rfl rfl fun router hr => ?_
    rw [hstack] at hr
    exact (List.mem_cons.mp hr).resolve_left fun he => hne router he.symm

theorem destroyEngine (h : LifeCycle tr s) (engine : EngineId) (jsEngine : Option EngineId) :
    LifeCycle tr { s with deadEngines := engine :: s.deadEngines, jsEngine } := by
  refine ⟨h.generation, h.few, h.old, h.once, h.onTurn, h.doomed, h.silent, fun i => ?_⟩
  obtain ⟨phase, hp, hf, hs⟩ := h.path i
  refine ⟨phase, hp, hf, fun hl => (hs hl).congr rfl rfl (fun _ _ => Iff.rfl) (fun e he => ?_)
    fun _ _ hm => hm⟩
  cases e with
  | none => exact he
  | some e =>
      simp only [Bridge.engineIsNull, decide_eq_false_iff_not, List.mem_cons, not_or] at he ⊢
      exact he.2

/-- **Every step keeps the life cycle.** -/
theorem step {toVariant : QJSValue → QVariant} {a : Action} (h : LifeCycle tr s)
    (hassumed : Assumed tr s a) (hs : step toVariant s a = some (s', os)) :
    LifeCycle (tr ++ os) s' := by
  cases a with
  | request id intent params callback =>
      obtain ⟨hgone, rfl, rfl⟩ := Machine.taken_unless hs
      exact h.request hgone intent params callback hassumed
  | respond id ok data error =>
      simp only [Intent.step, Option.ite_none_left_eq_some, Option.some.injEq] at hs
      obtain ⟨-, hs⟩ := hs
      unfold Bridge.respond at hs
      split at hs <;> obtain ⟨rfl, rfl⟩ := Prod.mk.inj hs
      · exact h.frame (by simp) rfl rfl rfl rfl rfl fun _ hr => hr
      · exact h.frame (by simp [Neutral]) rfl rfl rfl rfl rfl fun _ hr => List.mem_cons_of_mem _ hr
  | deliverIntentResult id envelope =>
      obtain ⟨hgone, rfl, rfl⟩ := Machine.taken_unless hs
      exact h.deliver hgone id envelope
  | abandonPendingIntents ids =>
      obtain ⟨hrefused, rfl, rfl⟩ := Machine.taken_unless hs
      exact h.abandonPendingIntents (not_or.mp hrefused).1 hassumed ids
  | setIntentRouter router =>
      obtain ⟨-, rfl, rfl⟩ := Machine.taken_unless hs
      exact h.frame (by simp) rfl rfl rfl rfl rfl fun _ hr => hr
  | destroy =>
      obtain ⟨-, rfl, rfl⟩ := Machine.taken_if hs
      exact h.destroy
  | turn =>
      simp only [Intent.step] at hs
      split at hs
      · rename_i q rest hstack hq
        have := h.turn hq hstack
        rwa [Option.some.inj hs] at this
      · cases hs
  | ret =>
      simp only [Intent.step, Option.map_eq_some_iff, Prod.mk.injEq] at hs
      obtain ⟨s₁, hs, rfl, rfl⟩ := hs
      simpa using h.ret hs
  | bindEngine engine =>
      obtain ⟨-, rfl, rfl⟩ := Machine.taken_unless hs
      exact h.frame (by simp) rfl rfl rfl rfl rfl fun _ hr => hr
  | destroyEngine engine =>
      simp only [Intent.step, Option.some.injEq] at hs
      obtain ⟨rfl, rfl⟩ := Prod.mk.inj hs
      simpa using h.destroyEngine engine _

end LifeCycle

/-- Every run of a bridge has the life cycle. -/
theorem run_lifeCycle {toVariant : QJSValue → QVariant} {tr : List Obs} {s : Bridge}
    (h : (machine toVariant).Run Assumed tr s) : LifeCycle tr s :=
  h.invariant LifeCycle.initial LifeCycle.step

/-- **The intent life cycle.**  In every run a request's callback is invoked at most once, on
the stack of an event-loop turn and of nothing else, never after an abandon that came after the
request; and a callable callback of a living engine whose request was answered and not abandoned
has been invoked exactly once, with the first envelope delivered for it, once the queue is
drained. -/
theorem intent_life_cycle {toVariant : QJSValue → QVariant} {tr : List Obs} {s : Bridge}
    (h : (machine toVariant).Run Assumed tr s) :
    (∀ id, (invocations id tr).length ≤ 1) ∧
    (∀ id envelope stack, .invoked id envelope stack ∈ tr → stack = [.turn id]) ∧
    (∀ id t₁ t₂, tr = t₁ ++ .abandoned :: t₂ → id ∈ requestedIds t₁ → invocations id t₂ = []) ∧
    (∀ id callback engine envelope t₁ t₂, tr = t₁ ++ .requested id callback engine :: t₂ →
      firstDelivered id t₂ = some envelope → callback.isCallable = true →
      s.engineIsNull engine = false → .abandoned ∉ t₂ → s.life = .alive → s.queue = [] →
      invocations id tr = [envelope]) := by
  have hlc := run_lifeCycle h
  refine ⟨fun id => ?_, hlc.onTurn, fun id t₁ t₂ htr hid => ?_,
    fun id callback engine envelope t₁ t₂ htr hfirst hcall hengine habandon hl hqueue => ?_⟩
  · obtain ⟨phase, hp, -, -⟩ := hlc.path id
    rw [← fires_lifeOf]
    exact hp.fires_length_le
  · obtain ⟨phase, hp, -, -⟩ := hlc.path id
    rw [htr, lifeOf_append, lifeOf, lifeOf, List.filterMap_cons, lifeEvent] at hp
    rw [← fires_lifeOf]
    exact hp.no_fire_after_cancel (issue_mem_lifeOf hid)
  · obtain ⟨phase, hp, -, hs⟩ := hlc.path id
    have hlife : lifeOf id tr = lifeOf id t₁ ++ .issue :: lifeOf id t₂ := by
      rw [htr, lifeOf_append]
      simp [lifeOf, lifeEvent]
    rw [hlife] at hp
    have hc : .cancel ∉ lifeOf id t₂ := fun hm => habandon (cancel_mem_lifeOf hm)
    rw [← fires_lifeOf, hlife]
    obtain ⟨rfl, -⟩ | ⟨-, hf⟩ := hp.first_answer hc (by rw [firstSettle_lifeOf, hfirst])
    · -- settled but not fired: the invocation would still be queued
      obtain ⟨-, -, hqueued⟩ := hs hl
      have hm := hqueued callback engine (by rw [htr]; simp) hcall hengine
      simp [Bridge.liveIds, Bridge.live, hqueue] at hm
    · exact hf

/-- A router that answers on the stack of `request`: the callback waits for the next turn. -/
theorem intent_life_cycle_answered_inside_request :
    ∃ tr s, (machine fun _ => .invalid).Run Assumed tr s ∧
      invocations "r" tr = [makeEnvelope true (.string "0x2a") ""] := by
  have h := Machine.exec_run (M := machine fun _ => .invalid) (G := Assumed)
    [.bindEngine (some 0), .setIntentRouter (some 7), .request "r" "wallet.send" [] ⟨1, true⟩,
      .deliverIntentResult "r" (makeEnvelope true (.string "0x2a") ""), .ret, .turn, .ret] rfl
  exact ⟨_, _, h, (intent_life_cycle h).2.2.2 "r" ⟨1, true⟩ (some 0) _ [] _ rfl rfl rfl rfl
    (by simp) rfl rfl⟩

end LogosViewRuntime.Intent
