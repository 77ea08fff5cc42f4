import LogosViewRuntime.IntentLifeCycle

/-! # The routers' books

A router that was handed a request keeps it open until it is told what became of it, and keeps
the bridge's pointer until it is told that the bridge is gone.  `Accounted` is the balance between
the two sides: as long as the bridge lives, every id a router received is pending in the bridge,
answered, or reported abandoned to that router, and exactly one of these once; and once the bridge
is going, every router that knows it has been told so exactly once.

The bridge tells whichever router is installed at that moment, so the balance holds exactly as
long as that is the right one (`Installed`): an abandon finds the installed router to be the one
its pending requests were routed to, and the destructor finds it to be the only one that knows the
bridge.  A router that is replaced or cleared in between is never told
(`replaced_router_is_never_told`). -/

namespace LogosViewRuntime.Intent

open Reactive

/-! ### What the routers saw -/

/-- How often a result took the request `id` out of the pending map. -/
def answers (id : String) (tr : List Obs) : ℕ := tr.countP fun
  | .answered i => i = id
  | _ => false

/-- How many `intentsAbandoned` lists of `router` name `id`. -/
def reports (router : RouterId) (id : String) (tr : List Obs) : ℕ := tr.countP fun
  | .intentsAbandoned r ids => r = router ∧ id ∈ ids
  | _ => false

/-- How often `router` received `bridgeDestroyed`. -/
def farewells (router : RouterId) (tr : List Obs) : ℕ := tr.countP fun
  | .bridgeDestroyed r => r = router
  | _ => false

/-- Which router received which id through `routeIntent`. -/
def routed (tr : List Obs) : List (RouterId × String) := tr.filterMap fun
  | .routeIntent router id _ _ => some (router, id)
  | _ => none

/-- The routers that were given the bridge's pointer. -/
def knowers (tr : List Obs) : List RouterId := tr.filterMap fun
  | .routeIntent router _ _ _ => some router
  | .routeIntentResponse router _ _ _ _ => some router
  | _ => none

/-- In how many places `id` is: pending, answered, or reported to `router`. -/
def whereabouts (router : RouterId) (id : String) (tr : List Obs) (s : Bridge) : ℕ :=
  (if id ∈ s.pendingIntents then 1 else 0) + answers id tr + reports router id tr

structure Accounted (tr : List Obs) (s : Bridge) : Prop where
  conserved : s.life = .alive → ∀ router id, (router, id) ∈ routed tr →
    whereabouts router id tr s = 1
  farewell : s.life ≠ .alive → ∀ router, router ∈ knowers tr → farewells router tr = 1

/-- The router that is about to be told is the one that has to be. -/
def Installed (tr : List Obs) (s : Bridge) : Action → Prop
  | .abandonPendingIntents _ => s.life = .alive →
      ∀ asked ∈ routed tr, asked.2 ∈ s.pendingIntents → s.intentRouter = some asked.1
  | .destroy => ∀ router ∈ knowers tr, s.intentRouter = some router
  | .request .. | .respond .. => s.life ≠ .alive →
      ∀ router ∈ s.intentRouter, farewells router tr = 1
  | _ => True

instance (tr : List Obs) (s : Bridge) : (a : Action) → Decidable (Installed tr s a)
  | .abandonPendingIntents _ => inferInstanceAs (Decidable (s.life = .alive →
      ∀ asked ∈ routed tr, asked.2 ∈ s.pendingIntents → s.intentRouter = some asked.1))
  | .destroy => inferInstanceAs (Decidable (∀ router ∈ knowers tr, s.intentRouter = some router))
  | .request .. | .respond .. => inferInstanceAs (Decidable (s.life ≠ .alive →
      ∀ router ∈ s.intentRouter, farewells router tr = 1))
  | .deliverIntentResult .. | .setIntentRouter _ | .turn | .ret | .bindEngine _
  | .destroyEngine _ => inferInstanceAs (Decidable True)

@[simp] theorem answers_append (id : String) (tr os : List Obs) :
    answers id (tr ++ os) = answers id tr + answers id os := List.countP_append

@[simp] theorem reports_append (router : RouterId) (id : String) (tr os : List Obs) :
    reports router id (tr ++ os) = reports router id tr + reports router id os := List.countP_append

@[simp] theorem farewells_append (router : RouterId) (tr os : List Obs) :
    farewells router (tr ++ os) = farewells router tr + farewells router os := List.countP_append

@[simp] theorem routed_append (tr os : List Obs) : routed (tr ++ os) = routed tr ++ routed os :=
  List.filterMap_append

@[simp] theorem knowers_append (tr os : List Obs) : knowers (tr ++ os) = knowers tr ++ knowers os :=
  List.filterMap_append

theorem routed_knowers {router : RouterId} {id : String} {tr : List Obs}
    (h : (router, id) ∈ routed tr) : router ∈ knowers tr := by
  obtain ⟨o, hm, ho⟩ := List.mem_filterMap.mp h
  refine List.mem_filterMap.mpr ⟨o, hm, ?_⟩
  cases o <;> simp_all

/-- Observations that no router's books mention. -/
def Unbooked : Obs → Prop
  | .answered _ | .intentsAbandoned .. | .bridgeDestroyed _ | .routeIntent .. |
    .routeIntentResponse .. => False
  | _ => True

variable {tr os : List Obs} {s s' : Bridge}

theorem unbooked_answers (id : String) (h : ∀ o ∈ os, Unbooked o) : answers id os = 0 := by
  apply List.countP_eq_zero.mpr
  intro o ho
  have := h o ho
  cases o <;> simp_all [Unbooked]

theorem unbooked_reports (router : RouterId) (id : String) (h : ∀ o ∈ os, Unbooked o) :
    reports router id os = 0 := by
  apply List.countP_eq_zero.mpr
  intro o ho
  have := h o ho
  cases o <;> simp_all [Unbooked]

theorem unbooked_farewells (router : RouterId) (h : ∀ o ∈ os, Unbooked o) :
    farewells router os = 0 := by
  apply List.countP_eq_zero.mpr
  intro o ho
  have := h o ho
  cases o <;> simp_all [Unbooked]

theorem unbooked_knowers (h : ∀ o ∈ os, Unbooked o) : knowers os = [] := by
  apply List.filterMap_eq_nil_iff.mpr
  intro o ho
  have := h o ho
  cases o <;> simp_all [Unbooked]

theorem unrouted {router : RouterId} {id : String} (h : router ∉ knowers os) :
    (router, id) ∉ routed os := fun hr => h (routed_knowers hr)

/-! ### What holds of the books in any run -/

/-- Nothing is booked for an id that was never requested, and nobody is told farewell before the
destructor runs or twice. -/
structure Books (tr : List Obs) (s : Bridge) : Prop where
  fresh : ∀ id, id ∉ requestedIds tr → id ∉ s.pendingIntents ∧ answers id tr = 0 ∧
    ∀ router, reports router id tr = 0 ∧ (router, id) ∉ routed tr
  silent : s.life = .alive → ∀ router, farewells router tr = 0
  once : ∀ router, farewells router tr ≤ 1
  dying : ∀ router, .destructor router ∈ s.stack → s.life ≠ .alive

namespace Books

theorem initial : Books [] {} where
  fresh _ _ := ⟨AList.notMem_empty _, rfl, fun _ => ⟨rfl, List.not_mem_nil⟩⟩
  silent _ _ := rfl
  once _ := Nat.zero_le _
  dying _ hm := by cases hm

/-- A step without a farewell that books nothing for an id still unrequested after it. -/
theorem extend (h : Books tr s)
    (hid : ∀ id, id ∉ requestedIds tr → id ∉ requestedIds os → id ∉ s.pendingIntents →
      id ∉ s'.pendingIntents ∧ answers id os = 0 ∧
        ∀ router, reports router id os = 0 ∧ (router, id) ∉ routed os)
    (hfarewell : ∀ router, farewells router os = 0)
    (hlife : s'.life = .alive → s.life = .alive)
    (hstack : ∀ router, .destructor router ∈ s'.stack → s'.life ≠ .alive) :
    Books (tr ++ os) s' where
  fresh id hreq := by
    rw [requestedIds_append, List.mem_append, not_or] at hreq
    obtain ⟨hp, ha, hr⟩ := h.fresh id hreq.1
    obtain ⟨hp', ha', hr'⟩ := hid id hreq.1 hreq.2 hp
    refine ⟨hp', ?_, fun router => ⟨?_, ?_⟩⟩
    · rw [answers_append, ha, ha']
    · rw [reports_append, (hr router).1, (hr' router).1]
    · rw [routed_append, List.mem_append, not_or]
      exact ⟨(hr router).2, (hr' router).2⟩
  silent hl router := by rw [farewells_append, h.silent (hlife hl), hfarewell]
  once router := by
    rw [farewells_append, hfarewell]
    exact h.once router
  dying := hstack

theorem frame (h : Books tr s) (hos : ∀ o ∈ os, Unbooked o)
    (hpending : s'.pendingIntents = s.pendingIntents) (hlife : s'.life = .alive → s.life = .alive)
    (hstack : ∀ router, .destructor router ∈ s'.stack → s'.life ≠ .alive) :
    Books (tr ++ os) s' :=
  h.extend (fun id _ _ hp => ⟨hpending ▸ hp, unbooked_answers id hos,
      fun router => ⟨unbooked_reports router id hos, unrouted (by simp [unbooked_knowers hos])⟩⟩)
    (fun router => unbooked_farewells router hos) hlife hstack

end Books

/-- A step that hands nothing to a router and moves no id keeps the balance as it is. -/
theorem accounted_congr (hlife : s'.life = .alive ↔ s.life = .alive)
    (hknows : ∀ router, router ∉ knowers os) (hfarewell : ∀ router, farewells router os = 0)
    (hsum : ∀ router id, (router, id) ∈ routed tr →
      whereabouts router id (tr ++ os) s' = whereabouts router id tr s) :
    Accounted (tr ++ os) s' ↔ Accounted tr s := by
  have hk : ∀ router, router ∈ knowers (tr ++ os) ↔ router ∈ knowers tr := fun router => by
    rw [knowers_append, List.mem_append, or_iff_left (hknows router)]
  have hr : ∀ router id, (router, id) ∈ routed (tr ++ os) ↔ (router, id) ∈ routed tr :=
    fun router id => by rw [routed_append, List.mem_append, or_iff_left (unrouted (hknows router))]
  have hf : ∀ router, farewells router (tr ++ os) = farewells router tr := fun router => by
    rw [farewells_append, hfarewell router, Nat.add_zero]
  constructor
  · rintro ⟨hc, hd⟩
    constructor
    · intro hl router id hi
      exact (hsum router id hi).symm.trans (hc (hlife.mpr hl) router id ((hr router id).mpr hi))
    · intro hl router hi
      rw [← hf router]
      exact hd (fun h => hl (hlife.mp h)) router ((hk router).mpr hi)
  · rintro ⟨hc, hd⟩
    constructor
    · intro hl router id hi
      have hi := (hr router id).mp hi
      exact (hsum router id hi).trans (hc (hlife.mp hl) router id hi)
    · intro hl router hi
      rw [hf router]
      exact hd (fun h => hl (hlife.mpr h)) router ((hk router).mp hi)

theorem accounted_frame (hos : ∀ o ∈ os, Unbooked o)
    (hpending : s'.pendingIntents = s.pendingIntents) (hlife : s'.life = .alive ↔ s.life = .alive) :
    Accounted (tr ++ os) s' ↔ Accounted tr s := by
  refine accounted_congr hlife (fun router => by simp [unbooked_knowers hos])
    (fun router => unbooked_farewells router hos) fun router id _ => ?_
  rw [whereabouts, hpending, answers_append, reports_append, unbooked_answers id hos,
    unbooked_reports router id hos, Nat.add_zero, Nat.add_zero, whereabouts]

/-! ### Results -/

theorem answers_delivered (id i : String) (envelope : QVariantMap) :
    answers id [.delivered i envelope, .answered i] = if id = i then 1 else 0 := by
  simp only [answers, List.countP_cons, List.countP_nil]
  split_ifs <;> simp_all [eq_comm]

/-- What `deliverIntentResult` does to the books: nothing, or it answers a pending request. -/
theorem deliverIntentResult_cases (requestId : String) (envelope : QVariantMap) (s : Bridge) :
    (s.pendingIntents.lookup requestId = none ∧
      s.deliverIntentResult requestId envelope = (s, [.delivered requestId envelope])) ∨
    (requestId ∈ s.pendingIntents ∧ ∃ queue,
      s.deliverIntentResult requestId envelope =
        ({ s with pendingIntents := s.pendingIntents.erase requestId, queue },
          [.delivered requestId envelope, .answered requestId])) := by
  unfold Bridge.deliverIntentResult
  cases hlookup : s.pendingIntents.lookup requestId with
  | none => exact .inl ⟨rfl, rfl⟩
  | some pending =>
      refine .inr ⟨AList.lookup_isSome.mp (by simp [hlookup]), ?_⟩
      dsimp only
      split_ifs
      · exact ⟨s.queue, rfl⟩
      · exact ⟨s.queue, rfl⟩
      · exact ⟨_, rfl⟩

namespace Books

theorem deliver (h : Books tr s) (requestId : String) (envelope : QVariantMap) :
    Books (tr ++ (s.deliverIntentResult requestId envelope).2)
      (s.deliverIntentResult requestId envelope).1 := by
  rcases deliverIntentResult_cases requestId envelope s with ⟨-, he⟩ | ⟨hmem, queue, he⟩ <;> rw [he]
  · exact h.frame (by simp [Unbooked]) rfl id h.dying
  · refine h.extend (fun id hid _ hp => ⟨fun hm => hp (AList.mem_erase.mp hm).2, ?_,
      fun router => ⟨rfl, List.not_mem_nil⟩⟩) (fun router => rfl) id h.dying
    rw [answers_delivered, if_neg]
    rintro rfl
    exact hp hmem

end Books

/-- An answer moves its request from the pending map to the answered ones. -/
theorem accounted_deliver (tr : List Obs) (s : Bridge) (requestId : String) (envelope : QVariantMap) :
    Accounted (tr ++ (s.deliverIntentResult requestId envelope).2)
      (s.deliverIntentResult requestId envelope).1 ↔ Accounted tr s := by
  rcases deliverIntentResult_cases requestId envelope s with ⟨-, he⟩ | ⟨hmem, queue, he⟩ <;> rw [he]
  · exact accounted_frame (by simp [Unbooked]) rfl Iff.rfl
  · refine accounted_congr Iff.rfl (fun _ => List.not_mem_nil)
      (fun router => rfl) fun router id _ => ?_
    rw [whereabouts, whereabouts, answers_append, reports_append, answers_delivered,
      show reports router id [.delivered requestId envelope, .answered requestId] = 0 from rfl]
    by_cases hid : id = requestId
    · subst hid
      simp only [AList.mem_erase, ne_eq, not_true_eq_false, false_and, if_false, if_true, if_pos hmem]
      omega
    · simp only [AList.mem_erase, ne_eq, hid, not_false_eq_true, true_and, if_false]
      omega

/-! ### Handing the bridge to a router -/

/-- A step that hands the bridge's pointer to `router`: a bridge that lives will say farewell, one
that is going already has to have said it. -/
theorem accounted_handed {router : RouterId} (h : Accounted tr s) (hlife : s'.life = s.life)
    (hknows : ∀ r, r ∈ knowers os ↔ r = router) (hfarewell : ∀ r, farewells r os = 0)
    (hsum : ∀ r id, s.life = .alive → (r, id) ∈ routed (tr ++ os) → whereabouts r id (tr ++ os) s' = 1) :
    Accounted (tr ++ os) s' ↔ (s.life ≠ .alive → farewells router tr = 1) := by
  have hf : ∀ r, farewells r (tr ++ os) = farewells r tr := fun r => by
    rw [farewells_append, hfarewell r, Nat.add_zero]
  constructor
  · rintro ⟨-, hd⟩ hl
    rw [← hf router]
    exact hd (by rwa [hlife]) router (by simp [(hknows router).mpr rfl])
  · refine fun hd => ⟨fun hl r id hr => hsum r id (hlife ▸ hl) hr, fun hl r hk => ?_⟩
    rw [hlife] at hl
    rw [hf r]
    rw [knowers_append, List.mem_append] at hk
    obtain hk | hk := hk
    · exact h.farewell hl r hk
    · rw [(hknows r).mp hk]
      exact hd hl

namespace Books

theorem record (h : Books tr s) (requestId : String) (callback : QJSValue) :
    Books (tr ++ [.requested requestId callback s.jsEngine]) (s.record requestId callback) := by
  refine h.extend (fun id _ hid hp => ⟨?_, rfl, fun router => ⟨rfl, List.not_mem_nil⟩⟩)
    (fun router => rfl) id h.dying
  have hne : id ≠ requestId := by simpa [requestedIds] using hid
  simpa [Bridge.record, hne] using hp

theorem request (h : Books tr s) (requestId intent : String) (params : QVariantMap)
    (callback : QJSValue) :
    Books (tr ++ (s.request requestId intent params callback).2)
      (s.request requestId intent params callback).1 := by
  unfold Bridge.request
  cases s.intentRouter with
  | none =>
      have := (h.record requestId callback).deliver requestId
        (makeEnvelope false .invalid errUnavailable)
      rwa [List.append_assoc] at this
  | some router =>
      refine h.extend (fun id _ hid hp => ?_) (fun r => rfl) id fun r hm => ?_
      · have hne : id ≠ requestId := by simpa [requestedIds] using hid
        refine ⟨by simpa [Bridge.record, hne] using hp, rfl, fun r => ⟨rfl, ?_⟩⟩
        simp [routed, hne]
      · obtain hm | hm := List.mem_cons.mp hm
        · cases hm
        · exact h.dying r hm

theorem respond (h : Books tr s) (toVariant : QJSValue → QVariant) (requestId : String) (ok : Bool)
    (data : QVariant) (error : String) :
    Books (tr ++ (s.respond toVariant requestId ok data error).2)
      (s.respond toVariant requestId ok data error).1 := by
  unfold Bridge.respond
  cases s.intentRouter with
  | none => simpa using h
  | some router =>
      refine h.extend (fun id _ _ hp => ⟨hp, rfl, fun r => ⟨rfl, List.not_mem_nil⟩⟩) (fun r => rfl) id
        fun r hm => ?_
      obtain hm | hm := List.mem_cons.mp hm
      · cases hm
      · exact h.dying r hm

end Books

theorem accounted_request (hb : Books tr s) (h : Accounted tr s) {requestId : String}
    (hfresh : requestId ∉ requestedIds tr) (intent : String) (params : QVariantMap)
    (callback : QJSValue) :
    Accounted (tr ++ (s.request requestId intent params callback).2)
      (s.request requestId intent params callback).1 ↔
      (s.life ≠ .alive → ∀ router ∈ s.intentRouter, farewells router tr = 1) := by
  obtain ⟨-, hanswers, hunrouted⟩ := hb.fresh requestId hfresh
  have hrecord : ∀ router id, id ≠ requestId →
      whereabouts router id (tr ++ [.requested requestId callback s.jsEngine])
        (s.record requestId callback) = whereabouts router id tr s := by
    intro router id hne
    rw [whereabouts, whereabouts, answers_append, reports_append]
    simp [Bridge.record, hne, answers, reports]
  unfold Bridge.request
  cases hrouter : s.intentRouter with
  | none =>
      have hkept : Accounted (tr ++ [.requested requestId callback s.jsEngine])
          (s.record requestId callback) ↔ Accounted tr s :=
        accounted_congr Iff.rfl (fun _ => List.not_mem_nil) (fun router => rfl)
          fun router id hr => hrecord router id fun he => (hunrouted router).2 (he ▸ hr)
      have hfailed := (accounted_deliver _ _ requestId
        (makeEnvelope false .invalid errUnavailable)).mpr (hkept.mpr h)
      rw [List.append_assoc] at hfailed
      exact iff_of_true hfailed fun _ _ hr => nomatch hr
  | some router =>
      simp only [Option.mem_def, Option.some.injEq, forall_eq']
      refine accounted_handed h rfl (fun r => ?_) (fun r => rfl) fun r id hl hr => ?_
      · simp [knowers, eq_comm]
      · rw [routed_append, List.mem_append] at hr
        obtain hr | hr := hr
        · have hne : id ≠ requestId := fun he => (hunrouted r).2 (he ▸ hr)
          rw [← h.conserved hl r id hr, ← hrecord r id hne]
          simp [whereabouts, answers, reports]
        · obtain rfl : id = requestId := by
            simp only [routed, List.filterMap_cons, List.filterMap_nil, List.mem_singleton,
              Prod.mk.injEq] at hr
            exact hr.2
          rw [whereabouts, answers_append, reports_append, hanswers, (hunrouted r).1]
          simp [Bridge.record, answers, reports]

theorem accounted_respond (h : Accounted tr s) (toVariant : QJSValue → QVariant)
    (requestId : String) (ok : Bool) (data : QVariant) (error : String) :
    Accounted (tr ++ (s.respond toVariant requestId ok data error).2)
      (s.respond toVariant requestId ok data error).1 ↔
      (s.life ≠ .alive → ∀ router ∈ s.intentRouter, farewells router tr = 1) := by
  unfold Bridge.respond
  cases hrouter : s.intentRouter with
  | none => simpa using h
  | some router =>
      simp only [Option.mem_def, Option.some.injEq, forall_eq']
      refine accounted_handed h rfl (fun r => ?_) (fun r => rfl) fun r id hl hr => ?_
      · simp [knowers, eq_comm]
      · have hr : (r, id) ∈ routed tr := by simpa [routed] using hr
        rw [← h.conserved hl r id hr]
        simp [whereabouts, answers, reports]

/-! ### Abandoning and dying -/

/-- What `abandonPendingIntents` does to the books. -/
theorem abandonPendingIntents_cases {ids : List String} (s : Bridge)
    (hids : ids.Perm s.pendingIntents.keys) :
    ∃ s' os, s.abandonPendingIntents ids = (s', os) ∧ s'.life = s.life ∧
      (∀ id, id ∉ s'.pendingIntents) ∧ requestedIds os = [] ∧
      (∀ id, answers id os = 0) ∧ (∀ router, farewells router os = 0) ∧
      (∀ router, router ∉ knowers os) ∧
      (∀ router id, reports router id os =
        if s.intentRouter = some router ∧ id ∈ s.pendingIntents then 1 else 0) ∧
      ∀ router, .destructor router ∈ s'.stack → .destructor router ∈ s.stack := by
  have hmem : ∀ id, id ∈ ids ↔ id ∈ s.pendingIntents := fun id => by
    rw [hids.mem_iff, AList.mem_keys]
  unfold Bridge.abandonPendingIntents
  split_ifs with hkeys
  · have hnone : ∀ id, id ∉ s.pendingIntents := fun id hid => by
      rw [AList.mem_keys, hkeys] at hid
      exact absurd hid List.not_mem_nil
    exact ⟨_, _, rfl, rfl, hnone, rfl, fun _ => rfl, fun _ => rfl, fun _ => List.not_mem_nil,
      fun router id => by simp [hnone, reports], fun _ hm => hm⟩
  · cases s.intentRouter with
    | none =>
        exact ⟨_, _, rfl, rfl, AList.notMem_empty, rfl, fun _ => rfl, fun _ => rfl,
          fun _ => List.not_mem_nil, fun router id => by simp [reports], fun _ hm => hm⟩
    | some told =>
        refine ⟨_, _, rfl, rfl, AList.notMem_empty, rfl, fun _ => rfl, fun _ => rfl,
          fun _ => List.not_mem_nil, fun router id => ?_, fun router hm => ?_⟩
        · simp only [reports, List.countP_cons, List.countP_nil, hmem]
          simp
        · simpa using hm

theorem Books.abandonPendingIntents (h : Books tr s) {ids : List String}
    (hids : ids.Perm s.pendingIntents.keys) :
    Books (tr ++ (s.abandonPendingIntents ids).2) (s.abandonPendingIntents ids).1 := by
  obtain ⟨s', os, he, hlife, hcleared, -, ha, hf, hk, hreports, hstack⟩ :=
    abandonPendingIntents_cases s hids
  rw [he]
  refine h.extend (fun id _ _ hp => ⟨hcleared id, ha id, fun router => ⟨?_, ?_⟩⟩) hf
    (fun hl => hlife ▸ hl) fun router hm => hlife ▸ h.dying router (hstack router hm)
  · rw [hreports, if_neg fun hc => hp hc.2]
  · exact unrouted (hk router)

theorem accounted_abandonPendingIntents (h : Accounted tr s) {ids : List String}
    (hids : ids.Perm s.pendingIntents.keys) :
    Accounted (tr ++ (s.abandonPendingIntents ids).2) (s.abandonPendingIntents ids).1 ↔
      (s.life = .alive →
        ∀ asked ∈ routed tr, asked.2 ∈ s.pendingIntents → s.intentRouter = some asked.1) := by
  obtain ⟨s', os, he, hlife, hcleared, -, ha, hf, hk, hreports, -⟩ :=
    abandonPendingIntents_cases s hids
  rw [he]
  have hrouted : ∀ router id, (router, id) ∈ routed (tr ++ os) ↔ (router, id) ∈ routed tr :=
    fun router id => by rw [routed_append, List.mem_append, or_iff_left (unrouted (hk router))]
  have hafter : ∀ router id, whereabouts router id (tr ++ os) s' =
      answers id tr + reports router id tr +
        if s.intentRouter = some router ∧ id ∈ s.pendingIntents then 1 else 0 := by
    intro router id
    rw [whereabouts, if_neg (hcleared id), answers_append, ha, reports_append, hreports]
    omega
  constructor
  · rintro h' hl ⟨router, id⟩ hr hp
    have hbefore := h.conserved hl router id hr
    have hnow := h'.conserved (hlife.trans hl) router id ((hrouted router id).mpr hr)
    rw [hafter] at hnow
    rw [whereabouts, if_pos hp] at hbefore
    by_contra hother
    rw [if_neg fun hc => hother hc.1] at hnow
    omega
  · intro hinstalled
    constructor
    · intro hl router id hr
      have hr := (hrouted router id).mp hr
      rw [hlife] at hl
      have hbefore := h.conserved hl router id hr
      rw [hafter]
      by_cases hp : id ∈ s.pendingIntents
      · rw [whereabouts, if_pos hp] at hbefore
        rw [if_pos ⟨hinstalled hl (router, id) hr hp, hp⟩]
        omega
      · rw [whereabouts, if_neg hp] at hbefore
        rw [if_neg fun hc => hp hc.2]
        omega
    · intro hl router hknows
      rw [hlife] at hl
      rw [farewells_append, hf, Nat.add_zero]
      rw [knowers_append, List.mem_append] at hknows
      obtain hknows | hknows := hknows
      · exact h.farewell hl router hknows
      · exact absurd hknows (hk router)

/-- What the destructor does to the books. -/
theorem destroy_cases (s : Bridge) :
    ∃ s' os, s.destroy = (s', os) ∧ s'.life ≠ .alive ∧ (∀ id, id ∉ s'.pendingIntents) ∧
      requestedIds os = [] ∧ (∀ id, answers id os = 0) ∧
      (∀ router, router ∉ knowers os) ∧ (∀ router id, reports router id os = 0) ∧
      ∀ router, farewells router os = if s.intentRouter = some router then 1 else 0 := by
  unfold Bridge.destroy
  cases s.intentRouter with
  | none =>
      exact ⟨_, _, rfl, nofun, AList.notMem_empty, rfl, fun _ => rfl, fun _ => List.not_mem_nil,
        fun _ _ => rfl, fun _ => rfl⟩
  | some told =>
      refine ⟨_, _, rfl, nofun, AList.notMem_empty, rfl, fun _ => rfl, fun _ => List.not_mem_nil,
        fun _ _ => rfl, fun router => ?_⟩
      simp [farewells, List.countP_cons]

theorem Books.destroy (h : Books tr s) (hl : s.life = .alive) :
    Books (tr ++ s.destroy.2) s.destroy.1 := by
  obtain ⟨s', os, he, hdead, hcleared, hreq, ha, hk, hr, hf⟩ := destroy_cases s
  rw [he]
  refine ⟨fun id hid => ?_, fun hl' => absurd hl' hdead, fun router => ?_, fun _ _ => hdead⟩
  · rw [requestedIds_append, hreq, List.append_nil] at hid
    obtain ⟨-, ha', hr'⟩ := h.fresh id hid
    refine ⟨hcleared id, ?_, fun router => ⟨?_, ?_⟩⟩
    · rw [answers_append, ha', ha]
    · rw [reports_append, (hr' router).1, hr]
    · rw [routed_append, List.mem_append, not_or]
      exact ⟨(hr' router).2, unrouted (hk router)⟩
  · rw [farewells_append, h.silent hl, hf, Nat.zero_add]
    split_ifs <;> omega

theorem accounted_destroy (hb : Books tr s) (hl : s.life = .alive) :
    Accounted (tr ++ s.destroy.2) s.destroy.1 ↔
      ∀ router ∈ knowers tr, s.intentRouter = some router := by
  obtain ⟨s', os, he, hdead, -, -, -, hk, -, hf⟩ := destroy_cases s
  rw [he]
  have hafter : ∀ router, farewells router (tr ++ os) =
      if s.intentRouter = some router then 1 else 0 := fun router => by
    rw [farewells_append, hb.silent hl, hf, Nat.zero_add]
  constructor
  · intro h router hknows
    have := h.farewell hdead router (by simp [hknows])
    by_contra hother
    rw [hafter, if_neg hother] at this
    omega
  · refine fun hinstalled => ⟨fun hl' => absurd hl' hdead, fun _ router hknows => ?_⟩
    rw [knowers_append, List.mem_append] at hknows
    obtain hknows | hknows := hknows
    · rw [hafter, if_pos (hinstalled router hknows)]
    · exact absurd hknows (hk router)

/-! ### Every step -/

/-- A queued invocation is no router's business. -/
theorem runQueued_unbooked (q : QueuedResult) (s : Bridge) :
    (∀ o ∈ (s.runQueued q).2, Unbooked o) ∧
      (s.runQueued q).1.pendingIntents = s.pendingIntents ∧
      (s.runQueued q).1.life = s.life ∧ requestedIds (s.runQueued q).2 = [] ∧
      ∀ router, .destructor router ∈ (s.runQueued q).1.stack → .destructor router ∈ s.stack := by
  unfold Bridge.runQueued
  split_ifs
  all_goals simp [Unbooked, requestedIds]

/-- A foreign function that returns leaves the books alone; the destructor's return only ends
what was already going. -/
theorem ret_cases (hb : Books tr s) (h : s.ret = some s') :
    s'.pendingIntents = s.pendingIntents ∧ (s'.life = .alive ↔ s.life = .alive) ∧
      ∀ router, .destructor router ∈ s'.stack → .destructor router ∈ s.stack := by
  unfold Bridge.ret at h
  split at h
  · cases h
  · rename_i router rest hstack
    obtain rfl := Option.some.inj h
    refine ⟨rfl, iff_of_false nofun (hb.dying router (by simp [hstack])), fun r hm => ?_⟩
    rw [hstack]
    exact List.mem_cons_of_mem _ hm
  · rename_i frame rest hstack
    obtain rfl := Option.some.inj h
    refine ⟨rfl, Iff.rfl, fun r hm => ?_⟩
    rw [hstack]
    exact List.mem_cons_of_mem _ hm

/-- A step nobody outside the bridge sees. -/
theorem Books.quiet (hb : Books tr s) (hpending : s'.pendingIntents = s.pendingIntents)
    (hstack : ∀ router, .destructor router ∈ s'.stack → .destructor router ∈ s.stack)
    (hlife : s'.life = .alive ↔ s.life = .alive) :
    Books (tr ++ []) s' ∧ (Accounted tr s → (Accounted (tr ++ []) s' ↔ True)) := by
  refine ⟨hb.frame (List.forall_mem_nil _) hpending hlife.mp fun router hm hl => ?_, fun h => ?_⟩
  · exact hb.dying router (hstack router hm) (hlife.mp hl)
  · exact iff_of_true ((accounted_frame (List.forall_mem_nil _) hpending hlife).mpr h) trivial

variable {toVariant : QJSValue → QVariant} {a : Action}

/-- **Every step keeps the books, and keeps the balance exactly if the right router is
installed.** -/
theorem Books.step (hb : Books tr s) (hassumed : Assumed tr s a)
    (hs : step toVariant s a = some (s', os)) :
    Books (tr ++ os) s' ∧ (Accounted tr s → (Accounted (tr ++ os) s' ↔ Installed tr s a)) := by
  cases a with
  | request id intent params callback =>
      obtain ⟨-, rfl, rfl⟩ := Machine.taken_unless hs
      exact ⟨hb.request id intent params callback,
        fun h => accounted_request hb h hassumed intent params callback⟩
  | respond id ok data error =>
      obtain ⟨-, rfl, rfl⟩ := Machine.taken_unless hs
      exact ⟨hb.respond toVariant id ok data error,
        fun h => accounted_respond h toVariant id ok data error⟩
  | deliverIntentResult id envelope =>
      obtain ⟨-, rfl, rfl⟩ := Machine.taken_unless hs
      exact ⟨hb.deliver id envelope,
        fun h => iff_of_true ((accounted_deliver tr s id envelope).mpr h) trivial⟩
  | abandonPendingIntents ids =>
      obtain ⟨hrefused, rfl, rfl⟩ := Machine.taken_unless hs
      obtain ⟨-, hids⟩ := not_or.mp hrefused
      have hids := not_not.mp hids
      exact ⟨hb.abandonPendingIntents hids, fun h => accounted_abandonPendingIntents h hids⟩
  | setIntentRouter router =>
      obtain ⟨-, rfl, rfl⟩ := Machine.taken_unless hs
      exact hb.quiet rfl (fun _ hm => hm) Iff.rfl
  | destroy =>
      obtain ⟨⟨hl, -⟩, rfl, rfl⟩ := Machine.taken_if hs
      exact ⟨hb.destroy hl, fun _ => accounted_destroy hb hl⟩
  | turn =>
      simp only [Intent.step] at hs
      split at hs
      · rename_i q rest hstack hq
        obtain ⟨hos, hpending, hlife, -, hframes⟩ :=
          runQueued_unbooked q { s with queue := rest }
        rw [Option.some.inj hs] at hos hpending hlife hframes
        dsimp only at hos hpending hlife hframes
        refine ⟨hb.frame hos hpending (fun hl => hlife ▸ hl) fun router hm => ?_,
          fun h => iff_of_true ((accounted_frame hos hpending (by rw [hlife])).mpr h) trivial⟩
        rw [hlife]
        exact hb.dying router (hframes router hm)
      · cases hs
  | ret =>
      simp only [Intent.step, Option.map_eq_some_iff, Prod.mk.injEq] at hs
      obtain ⟨s₁, hs, rfl, rfl⟩ := hs
      obtain ⟨hpending, hlife, hframes⟩ := ret_cases hb hs
      exact hb.quiet hpending hframes hlife
  | bindEngine engine =>
      obtain ⟨-, rfl, rfl⟩ := Machine.taken_unless hs
      exact hb.quiet rfl (fun _ hm => hm) Iff.rfl
  | destroyEngine engine =>
      simp only [Intent.step, Option.some.injEq] at hs
      obtain ⟨rfl, rfl⟩ := Prod.mk.inj hs
      exact hb.quiet rfl (fun _ hm => hm) Iff.rfl

theorem run_books (h : (machine toVariant).Run Assumed tr s) : Books tr s :=
  h.invariant Books.initial fun hb hassumed hs => (hb.step hassumed hs).1

/-- **The routers' books balance exactly as long as the right router is told.**  They balance at
every moment of a run whose abandons and whose destruction find the right router installed, and
the runs along which they balance at every moment are these. -/
theorem routers_accounted_iff_installed (toVariant : QJSValue → QVariant) :
    (∀ tr s, (machine toVariant).Run (Machine.both Assumed Installed) tr s → Accounted tr s) ∧
    ∀ tr s, (machine toVariant).Run
        (Machine.both Assumed ((machine toVariant).keeps Accounted)) tr s →
      (machine toVariant).Run (Machine.both Assumed Installed) tr s := by
  refine Machine.Run.exact ⟨nofun, fun hl => absurd rfl hl⟩ ?_
  intro tr s a s' os hrun haccounted hassumed hs
  exact ((run_books hrun.left).step hassumed hs).2 haccounted

/-- One router throughout: it is told of the abandon and of the end. -/
theorem routers_accounted_with_one_router :
    ∃ tr s, (machine fun _ => .invalid).Run (Machine.both Assumed Installed) tr s ∧
      s.life = .gone ∧ (1, "r") ∈ routed tr ∧ Accounted tr s := by
  have h := Machine.exec_run (M := machine fun _ => .invalid) (G := Machine.both Assumed Installed)
    [.setIntentRouter (some 1), .request "r" "wallet.send" [] ⟨1, true⟩, .ret,
      .abandonPendingIntents ["r"], .ret, .destroy, .ret] rfl
  exact ⟨_, _, h, rfl, by decide, (routers_accounted_iff_installed fun _ => .invalid).1 _ _ h⟩

/-- A router that is replaced while its request is pending is told neither of the abandon nor of
the bridge's end. -/
theorem replaced_router_is_never_told :
    (∃ tr s, (machine fun _ => .invalid).Run Assumed tr s ∧ s.life = .alive ∧
      (1, "r") ∈ routed tr ∧ whereabouts 1 "r" tr s = 0 ∧ ¬ Accounted tr s) ∧
    ∃ tr s, (machine fun _ => .invalid).Run Assumed tr s ∧ s.life = .gone ∧
      1 ∈ knowers tr ∧ farewells 1 tr = 0 ∧ ¬ Accounted tr s := by
  have habandoned := Machine.exec_run (M := machine fun _ => .invalid) (G := Assumed)
    [.setIntentRouter (some 1), .request "r" "wallet.send" [] ⟨1, true⟩, .ret,
      .setIntentRouter (some 2), .abandonPendingIntents ["r"], .ret] rfl
  have hdestroyed := Machine.exec_run (M := machine fun _ => .invalid) (G := Assumed)
    [.setIntentRouter (some 1), .request "r" "wallet.send" [] ⟨1, true⟩, .ret,
      .setIntentRouter (some 2), .destroy, .ret] rfl
  exact ⟨⟨_, _, habandoned, rfl, by decide, rfl,
      fun h => absurd (h.conserved rfl 1 "r" (by decide)) (by decide)⟩,
    ⟨_, _, hdestroyed, rfl, by decide, rfl,
      fun h => absurd (h.farewell nofun 1 (by decide)) (by decide)⟩⟩

end LogosViewRuntime.Intent
