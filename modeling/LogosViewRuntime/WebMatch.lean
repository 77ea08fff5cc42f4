import LogosViewRuntime.WebRouter
import LogosViewRuntime.WebSends

/-! # Replies and the calls they answer

A reply is matched to a call by the request id alone, on the bridge and in the router's set of ids
in flight, and every bridge counts its own ids from one.  Two bridges that use one id at a time
get each other's answers (`shared_id_crosses`).  As long as no call takes an id that is still in
use elsewhere, an id has one owner at every moment: `Matched` says where it may be on its way from
the pending entry through the call message, the handler and the reply back to that entry, and
`replies_match` is what follows for whole runs. -/

namespace LogosViewRuntime.CallRouter

open Reactive

/-! ### The property and its condition -/

/-- Every payload a callback received was completed for that call or is the bridge's own. -/
def Own (tr : List Obs) : Prop :=
  ∀ t₁ t₂ b id payload, tr = t₁ ++ .bridge b (.invoked id payload) :: t₂ →
    .completed b id payload ∈ t₁ ∨ .completedAgain b id payload ∈ t₁ ∨
      ∃ caller callback, caller.requestId = id ∧ .bridge b (.issued caller callback) ∈ t₁ ∧
        payload ∈ Web.ownErrors caller

/-- The bridge `b` is there and has a call `id` pending. -/
def Pending (s : System) (b : ℕ) (id : String) : Prop :=
  ∃ bridge ∈ s.bridges.lookup b, id ∈ bridge.pending

/-- The first completion of a call that is still pending is on its way, and its arrival answers
the call with that payload. -/
def Reaches (argsToJson : List QVariant → String) (tr : List Obs) (s : System) : Prop :=
  ∀ b id payload, .completed b id payload ∈ tr → Pending s b id →
    ∃ s' os, step argsToJson s (.receiveReply ⟨b, id, payload⟩) = some (s', os) ∧
      .bridge b (.answered id payload) ∈ os

/-- Every callback got the outcome of its own call, and every answer in flight reaches the call it
is for. -/
def Matching (argsToJson : List QVariant → String) (tr : List Obs) (s : System) : Prop :=
  Own tr ∧ Reaches argsToJson tr s

/-- The id is in use by a bridge other than `b`, or an answer for it is on its way to `b`. -/
def Taken (s : System) (b : ℕ) (id : String) : Prop :=
  (∃ b' ∈ s.bridges.keys, b' ≠ b ∧ ∃ bridge ∈ s.bridges.lookup b', id ∈ bridge.pending) ∨
  (∃ call ∈ s.calls ++ s.handling, call.bridge ≠ b ∧ call.requestId = id) ∨
  ∃ reply ∈ s.replies, reply.target = b ∧ reply.requestId = id

instance (s : System) (b : ℕ) (id : String) : Decidable (Taken s b id) :=
  inferInstanceAs (Decidable (_ ∨ _ ∨ _))

/-- No call takes an id in use elsewhere, and no completed call is completed again while its id
is in flight. -/
def Unshared (_ : List Obs) (s : System) : Action → Prop
  | .bridge b a => ∀ bridge ∈ s.bridges.lookup b, ∀ id ∈ Web.newIds bridge a, ¬ Taken s b id
  | .completeAgain call _ => call.requestId ∉ s.router.inFlight
  | _ => True

instance (tr : List Obs) (s : System) : (a : Action) → Decidable (Unshared tr s a)
  | .bridge b a => inferInstanceAs (Decidable
      (∀ bridge ∈ s.bridges.lookup b, ∀ id ∈ Web.newIds bridge a, ¬ Taken s b id))
  | .completeAgain call _ => inferInstanceAs (Decidable (call.requestId ∉ s.router.inFlight))
  | .createBridge _ | .destroyBridge _ | .setHandler _ | .receiveCall _ | .complete .. |
    .receiveReply _ => inferInstanceAs (Decidable True)

/-! ### One bridge's part of a run -/

@[simp] theorem proj_append (b : ℕ) (tr os : List Obs) :
    proj b (tr ++ os) = proj b tr ++ proj b os := List.filterMap_append

@[simp] theorem proj_bridge (b : ℕ) (os : List Web.Obs) : proj b (os.map (.bridge b)) = os := by
  induction os with
  | nil => rfl
  | cons o os ih => simpa [proj, project] using ih

theorem proj_bridge_ne {b b' : ℕ} (h : b ≠ b') (os : List Web.Obs) :
    proj b' (os.map (.bridge b)) = [] := by
  rw [proj, List.filterMap_map, List.filterMap_eq_nil_iff]
  intro o _
  simp [project, h]

theorem mem_proj_completed {b : ℕ} {id payload : String} {tr : List Obs} :
    .completed id payload ∈ proj b tr ↔
      .completed b id payload ∈ tr ∨ .completedAgain b id payload ∈ tr ∨
        .bridge b (.completed id payload) ∈ tr := by
  simp only [proj, List.mem_filterMap]
  constructor
  · rintro ⟨o, ho, he⟩
    cases o with
    | bridge b' o =>
        simp only [project] at he
        split_ifs at he with hb
        obtain rfl := Option.some.inj he
        exact .inr (.inr (hb ▸ ho))
    | completed b' i p =>
        simp only [project] at he
        split_ifs at he with hb
        obtain ⟨rfl, rfl⟩ := Web.Obs.completed.inj (Option.some.inj he)
        exact .inl (hb ▸ ho)
    | completedAgain b' i p =>
        simp only [project] at he
        split_ifs at he with hb
        obtain ⟨rfl, rfl⟩ := Web.Obs.completed.inj (Option.some.inj he)
        exact .inr (.inl (hb ▸ ho))
  · rintro (h | h | h)
    · exact ⟨_, h, by simp [project]⟩
    · exact ⟨_, h, by simp [project]⟩
    · exact ⟨_, h, by simp [project]⟩

variable {tr : List Obs} {s : System}

theorem mem_sent {b : ℕ} {call : Call} {os : List Web.Obs} (h : call ∈ sent b os) :
    call.bridge = b ∧ 0 < Web.callsSent call.requestId os := by
  obtain ⟨o, ho, he⟩ := List.mem_filterMap.mp h
  cases o with
  | call id module method argsJson live connected =>
      cases live with
      | false => cases he
      | true =>
          obtain rfl := Option.some.inj he
          exact ⟨rfl, List.countP_pos_iff.mpr ⟨_, ho, by simp⟩⟩
  | _ => cases he

/-- A bridge that sends no id twice puts no id twice under way. -/
theorem nodup_sent {b : ℕ} {os : List Web.Obs} (h : ∀ id, Web.callsSent id os ≤ 1) :
    ((sent b os).map (·.requestId)).Nodup := by
  rw [List.nodup_iff_count_le_one]
  intro id
  refine Nat.le_trans ?_ (h id)
  clear h
  induction os with
  | nil => simp [sent]
  | cons o os ih =>
      simp only [sent, Web.callsSent, List.filterMap_cons, List.countP_cons] at ih ⊢
      cases o with
      | call i module method argsJson live connected =>
          cases live with
          | false => exact Nat.le_trans ih (Nat.le_add_right _ _)
          | true => simpa [List.count_cons] using ih
      | _ => simpa using ih

/-! ### The invariant -/

/-- The calls between the bridges and the end of their handling. -/
def underWay (s : System) : List Call := s.calls ++ s.handling

/-- What the observations say about the bridges and the calls. -/
structure Traced (tr : List Obs) (s : System) : Prop where
  once : ∀ b, ∃ bridge, Web.Once (proj b tr) bridge ∧ ∀ bridge' ∈ s.bridges.lookup b, bridge' = bridge
  silent : ∀ b id payload, .bridge b (.completed id payload) ∉ tr
  unborn : ∀ b, s.created ≤ b → proj b tr = [] ∧ s.bridges.lookup b = none
  wired : ∀ b, ∀ bridge ∈ s.bridges.lookup b, Web.Wired bridge
  connected : ∀ b, ∀ bridge ∈ s.bridges.lookup b, ∀ id, 0 < Web.callsSent id (proj b tr) →
    bridge.routerConnected = true
  sent : ∀ call ∈ underWay s, 0 < Web.callsSent call.requestId (proj call.bridge tr)
  handled : ∀ call ∈ s.handled, 0 < Web.callsSent call.requestId (proj call.bridge tr)
  completed : ∀ b id payload, .completed b id payload ∈ tr → 0 < Web.callsSent id (proj b tr)

/-- Where an id may be at one moment. -/
structure Matched (tr : List Obs) (s : System) : Prop extends Traced tr s where
  distinct : ((underWay s).map (·.requestId)).Nodup
  owner : ∀ b id, Pending s b id → ∀ call ∈ underWay s, call.requestId = id → call.bridge = b
  alone : ∀ b b' id, Pending s b id → Pending s b' id → b = b'
  inFlight : ∀ id, id ∈ s.router.inFlight ↔ id ∈ s.handling.map (·.requestId)
  replies : ∀ reply ∈ s.replies, Pending s reply.target reply.requestId →
    .completed reply.target reply.requestId reply.payload ∈ tr
  reached : ∀ b id payload, .completed b id payload ∈ tr → Pending s b id →
    ⟨b, id, payload⟩ ∈ s.replies

theorem Matched.initial : Matched [] {} where
  once b := ⟨{}, Web.Once.initial true, by simp⟩
  silent := by simp
  unborn b _ := ⟨rfl, rfl⟩
  wired := by simp
  connected := by simp
  sent := by simp [underWay]
  handled := by simp
  completed := by simp
  distinct := by simp [underWay]
  owner := by simp [underWay]
  alone := by simp [Pending]
  inFlight := by simp
  replies := by simp
  reached := by simp

/-- A bridge that is there is the one whose run it is. -/
theorem Traced.once_of_lookup (h : Traced tr s) {b : ℕ} {bridge : Web.Bridge}
    (hlookup : s.bridges.lookup b = some bridge) : Web.Once (proj b tr) bridge := by
  obtain ⟨bridge', honce, hb⟩ := h.once b
  rwa [hb bridge hlookup]

/-! ### Bridges come and go -/

/-- Bridges only go, and the pending calls with them. -/
theorem Matched.shrink (h : Matched tr s) {bridges : QHash ℕ Web.Bridge}
    (hsub : ∀ b bridge, bridges.lookup b = some bridge → s.bridges.lookup b = some bridge) :
    Matched tr { s with bridges } := by
  have hpending : ∀ {b id}, Pending { s with bridges } b id → Pending s b id :=
    fun ⟨bridge, hl, hm⟩ => ⟨bridge, hsub _ _ hl, hm⟩
  refine { h with
    once := fun b => ?_
    unborn := fun b hb => ?_
    wired := fun b bridge hl => h.wired b bridge (hsub _ _ hl)
    connected := fun b bridge hl => h.connected b bridge (hsub _ _ hl)
    owner := fun b id hp => h.owner b id (hpending hp)
    alone := fun b b' id hp hp' => h.alone b b' id (hpending hp) (hpending hp')
    replies := fun reply hr hp => h.replies reply hr (hpending hp)
    reached := fun b id payload hc hp => h.reached b id payload hc (hpending hp) }
  · obtain ⟨bridge, honce, hu⟩ := h.once b
    exact ⟨bridge, honce, fun bridge' hl => hu bridge' (hsub _ _ hl)⟩
  · obtain ⟨hp, hl⟩ := h.unborn b hb
    refine ⟨hp, ?_⟩
    cases hl' : bridges.lookup b with
    | none => rfl
    | some bridge =>
        rw [hsub _ _ hl'] at hl
        cases hl

theorem Matched.destroyBridge (h : Matched tr s) (b : ℕ) :
    Matched tr { s with bridges := s.bridges.erase b } := by
  apply h.shrink
  intro b' bridge hl
  by_cases hb : b' = b
  · subst hb
    simp at hl
  · rwa [AList.lookup_erase_ne hb] at hl

theorem Matched.createBridge (h : Matched tr s) (node : Bool) : Matched tr
    { s with bridges := s.bridges.insert s.created { node }, created := s.created + 1 } := by
  have hnil := (h.unborn s.created le_rfl).1
  have hlookup : ∀ {b bridge}, (s.bridges.insert s.created { node }).lookup b = some bridge →
      b = s.created ∧ bridge = { node } ∨ b ≠ s.created ∧ s.bridges.lookup b = some bridge := by
    intro b bridge hl
    by_cases hb : b = s.created
    · subst hb
      rw [AList.lookup_insert, Option.some.injEq] at hl
      exact .inl ⟨rfl, hl.symm⟩
    · rw [AList.lookup_insert_ne hb] at hl
      exact .inr ⟨hb, hl⟩
  have hpending : ∀ {b id}, Pending { s with
      bridges := s.bridges.insert s.created { node }, created := s.created + 1 } b id →
      Pending s b id := by
    rintro b id ⟨bridge, hl, hm⟩
    obtain ⟨-, rfl⟩ | ⟨-, hl⟩ := hlookup hl
    · exact absurd hm (AList.notMem_empty _)
    · exact ⟨bridge, hl, hm⟩
  refine { h with
    once := fun b => ?_
    unborn := fun b hb => ?_
    wired := fun b bridge hl => ?_
    connected := fun b bridge hl id hid => ?_
    owner := fun b id hp => h.owner b id (hpending hp)
    alone := fun b b' id hp hp' => h.alone b b' id (hpending hp) (hpending hp')
    replies := fun reply hr hp => h.replies reply hr (hpending hp)
    reached := fun b id payload hc hp => h.reached b id payload hc (hpending hp) }
  · by_cases hb : b = s.created
    · subst hb
      refine ⟨{ node }, hnil ▸ Web.Once.initial node, fun bridge hl => ?_⟩
      obtain ⟨-, rfl⟩ | ⟨hb, -⟩ := hlookup hl
      · rfl
      · exact absurd rfl hb
    · obtain ⟨bridge, honce, hu⟩ := h.once b
      refine ⟨bridge, honce, fun bridge' hl => ?_⟩
      obtain ⟨hb', -⟩ | ⟨-, hl⟩ := hlookup hl
      · exact absurd hb' hb
      · exact hu bridge' hl
  · have hb : s.created + 1 ≤ b := hb
    obtain ⟨hp, hl⟩ := h.unborn b (by omega)
    exact ⟨hp, (AList.lookup_insert_ne (by omega)).trans hl⟩
  · obtain ⟨-, rfl⟩ | ⟨-, hl⟩ := hlookup hl
    · exact Web.Wired.initial node
    · exact h.wired b bridge hl
  · obtain ⟨rfl, -⟩ | ⟨-, hl⟩ := hlookup hl
    · simp [hnil] at hid
    · exact h.connected b bridge hl id hid

/-! ### A step of a bridge -/

/-- The bridge `b` takes a step, and the ids it issues are new to it and not taken. -/
structure Turn (tr : List Obs) (s : System) (b : ℕ) (bridge : Web.Bridge) (os : List Web.Obs)
    (bridge' : Web.Bridge) (new : List String) : Prop where
  lookup : s.bridges.lookup b = some bridge
  sends : Web.Sends new bridge os bridge'
  once : Web.Once (proj b tr ++ os) bridge'
  free : ∀ id ∈ new, ¬ Taken s b id
  fresh : ∀ id ∈ new, id ∉ Web.issuedIds (proj b tr)

section run

variable {b : ℕ} {bridge bridge' : Web.Bridge} {os : List Web.Obs} {new : List String}

theorem proj_run (b' : ℕ) : proj b' (tr ++ os.map (.bridge b)) =
    proj b' tr ++ if b' = b then os else [] := by
  by_cases hb : b' = b
  · subst hb
    simp
  · simp [proj_bridge_ne (Ne.symm hb), hb]

theorem callsSent_run_le (b' : ℕ) (id : String) :
    Web.callsSent id (proj b' tr) ≤ Web.callsSent id (proj b' (tr ++ os.map (.bridge b))) := by
  rw [proj_run, Web.callsSent_append]
  omega

theorem completed_mem_run {b' : ℕ} {id payload : String}
    (hm : .completed b' id payload ∈ tr ++ os.map (.bridge b)) : .completed b' id payload ∈ tr := by
  obtain hm | hm := List.mem_append.mp hm
  · exact hm
  · simp at hm

theorem lookup_run : (s.run b (bridge', os)).1.bridges.lookup b = some bridge' :=
  AList.lookup_insert _

theorem lookup_run_ne {b' : ℕ} (hb : b' ≠ b) :
    (s.run b (bridge', os)).1.bridges.lookup b' = s.bridges.lookup b' := AList.lookup_insert_ne hb

theorem mem_underWay_run {call : Call} (hm : call ∈ underWay (s.run b (bridge', os)).1) :
    call ∈ underWay s ∨ call ∈ CallRouter.sent b os := by
  simp only [underWay, System.run, List.mem_append] at hm ⊢
  obtain (hm | hm) | hm := hm
  · exact .inl (.inl hm)
  · exact .inr hm
  · exact .inl (.inr hm)

/-- An id another bridge has pending is taken. -/
theorem taken_of_pending {b' : ℕ} {id : String} (hp : Pending s b' id) (hb : b' ≠ b) :
    Taken s b id := by
  obtain ⟨r, hl, hm⟩ := hp
  refine .inl ⟨b', AList.mem_keys.mp (AList.lookup_isSome.mp ?_), hb, r, hl, hm⟩
  rw [Option.mem_def.mp hl]
  rfl

/-- Only the bridge that took the step can have more pending than before. -/
theorem pending_run (t : Turn tr s b bridge os bridge' new) {b' : ℕ} {id : String}
    (hp : Pending (s.run b (bridge', os)).1 b' id) : Pending s b' id ∨ b' = b ∧ id ∈ new := by
  obtain ⟨r, hl, hm⟩ := hp
  by_cases hb : b' = b
  · subst hb
    obtain rfl := Option.some.inj (lookup_run.symm.trans hl)
    obtain hm | hm := t.sends.pending id hm
    · exact .inl ⟨bridge, t.lookup, hm⟩
    · exact .inr ⟨rfl, hm⟩
  · exact .inl ⟨r, (lookup_run_ne hb).symm.trans hl, hm⟩

/-- A new id is nowhere under way. -/
theorem Matched.ne_of_new (h : Matched tr s) (t : Turn tr s b bridge os bridge' new) {id : String}
    (hnew : id ∈ new) (call : Call) (hm : call ∈ underWay s) : call.requestId ≠ id := by
  rintro rfl
  by_cases hb : call.bridge = b
  · subst hb
    exact t.fresh _ hnew ((h.once_of_lookup t.lookup).issued_of_sent (h.sent call hm))
  · exact t.free _ hnew (.inr (.inl ⟨call, hm, hb, rfl⟩))

/-- A call that is sent was not under way before. -/
theorem Matched.ne_of_sent (h : Matched tr s) (t : Turn tr s b bridge os bridge' new) {call call' : Call}
    (hsent : call ∈ CallRouter.sent b os) (hm : call' ∈ underWay s) :
    call'.requestId ≠ call.requestId := by
  intro he
  obtain ⟨-, hpos⟩ := mem_sent hsent
  obtain hp | hp := t.sends.pending _ (t.sends.sends _ hpos).1
  · -- it would be this bridge's call, and sent twice
    have howner := h.owner b call.requestId ⟨bridge, t.lookup, hp⟩ call' hm he
    have hbefore := h.sent call' hm
    have hle := t.once.callsSent_le call.requestId
    rw [Web.callsSent_append] at hle
    rw [howner, he] at hbefore
    omega
  · exact h.ne_of_new t hp call' hm he

theorem Matched.distinct_run (h : Matched tr s) (t : Turn tr s b bridge os bridge' new) :
    ((underWay (s.run b (bridge', os)).1).map (·.requestId)).Nodup := by
  have hperm : (underWay (s.run b (bridge', os)).1).Perm (underWay s ++ CallRouter.sent b os) := by
    simp only [underWay, System.run, List.append_assoc]
    exact List.Perm.append_left _ List.perm_append_comm
  rw [(hperm.map _).nodup_iff, List.map_append, List.nodup_append]
  refine ⟨h.distinct, nodup_sent fun id => ?_, fun i hi j hj => ?_⟩
  · have := t.once.callsSent_le id
    rw [Web.callsSent_append] at this
    omega
  · obtain ⟨call', hm, rfl⟩ := List.mem_map.mp hi
    obtain ⟨call, hc, rfl⟩ := List.mem_map.mp hj
    exact h.ne_of_sent t hc hm

theorem Matched.owner_run (h : Matched tr s) (t : Turn tr s b bridge os bridge' new) {b' : ℕ} {id : String}
    (hp : Pending (s.run b (bridge', os)).1 b' id) {call : Call}
    (hm : call ∈ underWay (s.run b (bridge', os)).1) (he : call.requestId = id) :
    call.bridge = b' := by
  obtain hp | ⟨rfl, hnew⟩ := pending_run t hp
  · obtain hm | hm := mem_underWay_run hm
    · exact h.owner b' id hp call hm he
    · obtain ⟨hb, hpos⟩ := mem_sent hm
      subst he
      by_contra hne
      obtain hq | hq := t.sends.pending _ (t.sends.sends _ hpos).1
      · exact hne (hb.trans (h.alone b b' _ ⟨bridge, t.lookup, hq⟩ hp))
      · exact t.free _ hq (taken_of_pending hp fun hbb => hne (hb.trans hbb.symm))
  · obtain hm | hm := mem_underWay_run hm
    · exact absurd he (h.ne_of_new t hnew call hm)
    · exact (mem_sent hm).1

theorem Matched.alone_run (h : Matched tr s) (t : Turn tr s b bridge os bridge' new) {b₁ b₂ : ℕ}
    {id : String} (hp₁ : Pending (s.run b (bridge', os)).1 b₁ id)
    (hp₂ : Pending (s.run b (bridge', os)).1 b₂ id) : b₁ = b₂ := by
  by_contra hne
  obtain h₁ | ⟨rfl, h₁⟩ := pending_run t hp₁
  · obtain h₂ | ⟨rfl, h₂⟩ := pending_run t hp₂
    · exact hne (h.alone b₁ b₂ id h₁ h₂)
    · exact t.free id h₂ (taken_of_pending h₁ hne)
  · obtain h₂ | ⟨rfl, h₂⟩ := pending_run t hp₂
    · exact t.free id h₁ (taken_of_pending h₂ (Ne.symm hne))
    · exact hne rfl

theorem Matched.run (h : Matched tr s) (t : Turn tr s b bridge os bridge' new) :
    Matched (tr ++ os.map (.bridge b)) (s.run b (bridge', os)).1 where
  once b' := by
    rw [proj_run]
    by_cases hb : b' = b
    · subst hb
      rw [if_pos rfl]
      exact ⟨bridge', t.once, fun r hl => (Option.some.inj (lookup_run.symm.trans hl)).symm⟩
    · rw [if_neg hb, List.append_nil, lookup_run_ne hb]
      exact h.once b'
  silent b' id payload hm := by
    obtain hm | hm := List.mem_append.mp hm
    · exact h.silent b' id payload hm
    · obtain ⟨o, ho, he⟩ := List.mem_map.mp hm
      obtain ⟨-, rfl⟩ := Obs.bridge.inj he
      exact t.sends.silent id payload ho
  unborn b' hb := by
    obtain ⟨hp, hl⟩ := h.unborn b' hb
    have hne : b' ≠ b := by
      rintro rfl
      rw [t.lookup] at hl
      cases hl
    rw [proj_run, if_neg hne, List.append_nil, lookup_run_ne hne]
    exact ⟨hp, hl⟩
  wired b' r hl := by
    by_cases hb : b' = b
    · subst hb
      obtain rfl := Option.some.inj (lookup_run.symm.trans hl)
      exact t.sends.wired
    · exact h.wired b' r ((lookup_run_ne hb).symm.trans hl)
  connected b' r hl id hid := by
    rw [proj_run] at hid
    by_cases hb : b' = b
    · subst hb
      obtain rfl := Option.some.inj (lookup_run.symm.trans hl)
      rw [if_pos rfl, Web.callsSent_append] at hid
      by_cases hos : 0 < Web.callsSent id os
      · exact (t.sends.sends id hos).2
      · exact t.sends.connected (h.connected b' bridge t.lookup id (by omega))
    · rw [if_neg hb, List.append_nil] at hid
      exact h.connected b' r ((lookup_run_ne hb).symm.trans hl) id hid
  sent call hm := by
    obtain hm | hm := mem_underWay_run hm
    · exact Nat.lt_of_lt_of_le (h.sent call hm) (callsSent_run_le _ _)
    · obtain ⟨hb, hpos⟩ := mem_sent hm
      rw [proj_run, if_pos hb, Web.callsSent_append]
      omega
  distinct := h.distinct_run t
  owner b' id hp call hm he := h.owner_run t hp hm he
  alone b₁ b₂ id hp₁ hp₂ := h.alone_run t hp₁ hp₂
  inFlight := h.inFlight
  replies reply hr hp := by
    obtain hp | ⟨hb, hnew⟩ := pending_run t hp
    · exact List.mem_append_left _ (h.replies reply hr hp)
    · exact absurd (.inr (.inr ⟨reply, hr, hb, rfl⟩)) (t.free _ hnew)
  handled call hm := Nat.lt_of_lt_of_le (h.handled call hm) (callsSent_run_le _ _)
  completed b' id payload hm :=
    Nat.lt_of_lt_of_le (h.completed b' id payload (completed_mem_run hm)) (callsSent_run_le _ _)
  reached b' id payload hm hp := by
    obtain hp | ⟨rfl, hnew⟩ := pending_run t hp
    · exact h.reached b' id payload (completed_mem_run hm) hp
    · exact absurd ((h.once_of_lookup t.lookup).issued_of_sent
        (h.completed b' id payload (completed_mem_run hm))) (t.fresh id hnew)

end run

/-! ### The router's steps -/

theorem mem_replicas {b : ℕ} : b ∈ s.replicas ↔
    ∃ bridge, s.bridges.lookup b = some bridge ∧ bridge.router.isSome = true := by
  simp only [System.replicas, List.mem_filter, Option.any_eq_true]
  constructor
  · rintro ⟨-, bridge, hl, hr⟩
    exact ⟨bridge, hl, hr⟩
  · rintro ⟨bridge, hl, hr⟩
    exact ⟨AList.mem_keys.mp (AList.lookup_isSome.mp (by rw [hl]; rfl)), bridge, hl, hr⟩

/-- A call message reaches a router that has a handler, or has none yet. -/
theorem Matched.receive (h : Matched tr s) {call : Call} (hm : call ∈ s.calls) :
    Matched tr { s with
      router := { s.router with inFlight := insert call.requestId s.router.inFlight }
      calls := s.calls.erase call
      handling := call :: s.handling } := by
  have hperm : (underWay s).Perm (s.calls.erase call ++ call :: s.handling) :=
    ((List.perm_cons_erase hm).append_right _).trans List.perm_middle.symm
  refine { h with
    sent := fun c hc => h.sent c (hperm.mem_iff.mpr hc)
    distinct := ((hperm.map _).nodup_iff).mp h.distinct
    owner := fun b id hp c hc => h.owner b id hp c (hperm.mem_iff.mpr hc)
    inFlight := fun id => ?_ }
  simp only [Finset.mem_insert, List.map_cons, List.mem_cons, h.inFlight]

/-- A completion as the bridges see it. -/
def Completion (b : ℕ) (id payload : String) (o : Obs) : Prop :=
  o = .completed b id payload ∨ o = .completedAgain b id payload

theorem proj_heard {b : ℕ} {id payload : String} {o : Obs} (ho : Completion b id payload o)
    (b' : ℕ) : proj b' (tr ++ [o]) =
      proj b' tr ++ if b = b' then [.completed id payload] else [] := by
  by_cases hb : b = b'
  · rcases ho with rfl | rfl <;> simp [proj, project, hb]
  · rcases ho with rfl | rfl <;> simp [proj, project, hb]

theorem callsSent_heard {b : ℕ} {id payload : String} {o : Obs} (ho : Completion b id payload o)
    (b' : ℕ) (i : String) :
    Web.callsSent i (proj b' (tr ++ [o])) = Web.callsSent i (proj b' tr) := by
  rw [proj_heard ho, Web.callsSent_append]
  split_ifs <;> rfl

/-- A call that was sent is completed, for the first time or again. -/
theorem Traced.heard (h : Traced tr s) {b : ℕ} {id payload : String} {o : Obs}
    (ho : Completion b id payload o) (hsent : 0 < Web.callsSent id (proj b tr)) :
    Traced (tr ++ [o]) s where
  once b' := by
    obtain ⟨bridge, honce, hu⟩ := h.once b'
    refine ⟨bridge, ?_, hu⟩
    rw [proj_heard ho]
    split_ifs
    · exact honce.completed id payload
    · rwa [List.append_nil]
  silent := by rcases ho with rfl | rfl <;> simpa using h.silent
  unborn b' hb := by
    obtain ⟨hp, hl⟩ := h.unborn b' hb
    have hne : b ≠ b' := by
      rintro rfl
      simp [hp] at hsent
    rw [proj_heard ho, if_neg hne, List.append_nil]
    exact ⟨hp, hl⟩
  wired := h.wired
  connected b' bridge hl i := by
    rw [callsSent_heard ho]
    exact h.connected b' bridge hl i
  sent call hc := by
    rw [callsSent_heard ho]
    exact h.sent call hc
  handled call hc := by
    rw [callsSent_heard ho]
    exact h.handled call hc
  completed b' i p hm := by
    rw [callsSent_heard ho]
    obtain hm | hm := List.mem_append.mp hm
    · exact h.completed b' i p hm
    · obtain rfl := List.mem_singleton.mp hm
      obtain ho | ho := ho
      · obtain ⟨rfl, rfl, rfl⟩ := Obs.completed.inj ho
        exact hsent
      · cases ho

/-- `complete` for a call with the handler: its answer goes to every replica. -/
theorem Matched.complete (h : Matched tr s) {call : Call} (hm : call ∈ s.handling)
    {handled : List Call} (payload : String) (hhandled : ∀ c ∈ handled, c = call ∨ c ∈ s.handled) :
    Matched (tr ++ [.completed call.bridge call.requestId payload])
      ({ s with handling := s.handling.erase call, handled }.complete call.requestId payload) := by
  have hunder : call ∈ underWay s := List.mem_append_right _ hm
  have hflight : call.requestId ∈ s.router.inFlight :=
    (h.inFlight _).mpr (List.mem_map.mpr ⟨call, hm, rfl⟩)
  have hcompletion : Completion call.bridge call.requestId payload
      (.completed call.bridge call.requestId payload) := .inl rfl
  have hheard := h.toTraced.heard hcompletion (h.sent call hunder)
  have hsub : ∀ c, c ∈ s.calls ++ s.handling.erase call → c ∈ underWay s := fun c hc =>
    (List.mem_append.mp hc).elim (List.mem_append_left _) fun hc =>
      List.mem_append_right _ (List.mem_of_mem_erase hc)
  have hsublist : ((s.calls ++ s.handling.erase call).map (·.requestId)).Sublist
      ((underWay s).map (·.requestId)) :=
    ((List.Sublist.refl _).append List.erase_sublist).map _
  simp only [System.complete, LogosWebCallRouter.complete, hflight, if_true, if_false,
    not_true_eq_false, System.broadcast]
  refine
    { hheard with
      sent := fun c hc => hheard.sent c (hsub c hc)
      handled := fun c hc => (hhandled c hc).elim
        (fun he => he ▸ hheard.sent call hunder) (hheard.handled c)
      distinct := h.distinct.sublist hsublist
      owner := fun b id hp c hc => h.owner b id hp c (hsub c hc)
      alone := h.alone
      inFlight := fun id => ?_
      replies := fun reply hr hp => ?_
      reached := fun b id p hc hp => ?_ }
  · have hperm := (List.perm_cons_erase hm).map (·.requestId)
    have hnodup : (call.requestId :: (s.handling.erase call).map (·.requestId)).Nodup := by
      refine hperm.nodup_iff.mp (h.distinct.sublist ?_)
      exact (List.sublist_append_right _ _).map _
    rw [Finset.mem_erase, h.inFlight, hperm.mem_iff, List.map_cons, List.mem_cons]
    constructor
    · rintro ⟨hne, he | hin⟩
      · exact absurd he hne
      · exact hin
    · intro hin
      refine ⟨?_, .inr hin⟩
      rintro rfl
      exact (List.nodup_cons.mp hnodup).1 hin
  · obtain hr | hr := List.mem_append.mp hr
    · exact List.mem_append_left _ (h.replies reply hr hp)
    · obtain ⟨b, -, rfl⟩ := List.mem_map.mp hr
      obtain rfl := h.owner b call.requestId hp call hunder rfl
      simp
  · obtain hc | hc := List.mem_append.mp hc
    · exact List.mem_append_left _ (h.reached b id p hc hp)
    · obtain ⟨rfl, rfl, rfl⟩ := Obs.completed.inj (List.mem_singleton.mp hc)
      obtain ⟨bridge, hl, -⟩ := hp
      -- the bridge that sent the call holds a replica of the router
      have hconnected := h.connected _ bridge hl _ (h.sent call hunder)
      have hrouter := (h.wired _ bridge hl).connected hconnected
      exact List.mem_append_right _ (List.mem_map.mpr ⟨_, mem_replicas.mpr ⟨bridge, hl, hrouter⟩, rfl⟩)

theorem Matched.receiveCall (h : Matched tr s) {call : Call} (hm : call ∈ s.calls) :
    Matched (tr ++ (s.receiveCall call).2) (s.receiveCall call).1 := by
  have hreceived := h.receive hm
  unfold System.receiveCall
  by_cases hid : call.requestId = ""
  · have hsub : ∀ c ∈ s.calls.erase call ++ s.handling, c ∈ underWay s := fun c hc =>
      (List.mem_append.mp hc).elim (fun hc => List.mem_append_left _ (List.mem_of_mem_erase hc))
        (List.mem_append_right _)
    simp only [LogosWebCallRouter.call, hid, if_true, List.append_nil]
    exact
      { h with
        sent := fun c hc => h.sent c (hsub c hc)
        distinct := h.distinct.sublist ((List.erase_sublist.append (.refl _)).map _)
        owner := fun b id hp c hc => h.owner b id hp c (hsub c hc) }
  · cases hhandler : s.router.handler with
    | false =>
        -- no handler: completed on the spot
        rw [LogosWebCallRouter.call_unhandled hid hhandler]
        have := hreceived.complete List.mem_cons_self
          (logosWebErrorPayload "No backend router" call.module call.method) (fun c => .inr)
        simpa [System.complete, LogosWebCallRouter.complete] using this
    | true =>
        rw [LogosWebCallRouter.call_handled hid hhandler, List.append_nil]
        exact hreceived

/-- A reply arrives, and the call it answered is not pending any more. -/
theorem Matched.dropReply (h : Matched tr s) (reply : Reply)
    (hgone : .completed reply.target reply.requestId reply.payload ∈ tr →
      ¬ Pending s reply.target reply.requestId) :
    Matched tr { s with replies := s.replies.erase reply } := by
  refine { h with
    replies := fun r hr hp => h.replies r (List.mem_of_mem_erase hr) hp
    reached := fun b id payload hc hp => ?_ }
  refine (List.mem_erase_of_ne ?_).mpr (h.reached b id payload hc hp)
  rintro rfl
  exact hgone hc hp

theorem Matched.receiveReply (h : Matched tr s) {reply : Reply} (hm : reply ∈ s.replies) :
    Matched (tr ++ (s.receiveReply reply).2) (s.receiveReply reply).1 := by
  simp only [System.receiveReply]
  cases hlookup : s.bridges.lookup reply.target with
  | none =>
      rw [List.append_nil]
      apply h.dropReply
      rintro - ⟨bridge, hl, -⟩
      rw [hlookup] at hl
      cases hl
  | some bridge =>
      dsimp only
      split_ifs with hconnected
      · have honce : Web.Once
            (proj reply.target tr ++ (bridge.deliver reply.requestId reply.payload).2)
            (bridge.deliver reply.requestId reply.payload).1 := by
          by_cases hp : reply.requestId ∈ bridge.pending
          · have hsource := h.replies reply hm ⟨bridge, hlookup, hp⟩
            exact (h.once_of_lookup hlookup).deliver
              (.inl (mem_proj_completed.mpr (.inl hsource)))
          · rw [Web.deliver_of_notMem hp, List.append_nil]
            exact h.once_of_lookup hlookup
        have hrun := h.run ⟨hlookup, (h.wired _ bridge hlookup).deliver _ _, honce, by simp, by simp⟩
        apply hrun.dropReply reply
        intro _
        rintro ⟨bridge', hl, hin⟩
        obtain rfl := Option.some.inj (lookup_run.symm.trans hl)
        exact Web.notMem_deliver _ _ _ hin
      · rw [List.append_nil]
        apply h.dropReply
        intro hc
        exact absurd (h.connected _ bridge hlookup _ (h.completed _ _ _ hc)) hconnected

/-! ### Whole runs -/

theorem step_bridge {argsToJson : List QVariant → String} {b : ℕ} {a : Web.Action} {s' : System}
    {os : List Obs} (ha : ∀ id payload, a ≠ .onCallCompleted id payload)
    (hs : step argsToJson s (.bridge b a) = some (s', os)) :
    ∃ bridge, s.bridges.lookup b = some bridge ∧ ∃ os' bridge',
      Web.step argsToJson bridge a = some (bridge', os') ∧ s.run b (bridge', os') = (s', os) := by
  rw [step] at hs
  · cases hlookup : s.bridges.lookup b with
    | none => simp [hlookup] at hs
    | some bridge =>
        rw [hlookup] at hs
        obtain ⟨⟨bridge', os'⟩, hstep, hrun⟩ := Option.map_eq_some_iff.mp hs
        exact ⟨bridge, rfl, os', bridge', hstep, hrun⟩
  · exact fun id payload => ha id payload

/-- **Every step** of a run in which no id is shared. -/
theorem Matched.step {argsToJson : List QVariant → String} {a : Action} {s' : System}
    {os : List Obs} (h : Matched tr s) (hg : Machine.both Assumed Unshared tr s a)
    (hs : step argsToJson s a = some (s', os)) : Matched (tr ++ os) s' := by
  obtain ⟨hassumed, hunshared⟩ := hg
  cases a with
  | createBridge node =>
      obtain ⟨rfl, rfl⟩ := Prod.mk.inj (Option.some.inj hs)
      rw [List.append_nil]
      exact h.createBridge node
  | destroyBridge b =>
      obtain ⟨rfl, rfl⟩ := Prod.mk.inj (Option.some.inj hs)
      rw [List.append_nil]
      exact h.destroyBridge b
  | bridge b a =>
      have hown : ∀ id payload, a ≠ .onCallCompleted id payload := by
        rintro id payload rfl
        cases hs
      obtain ⟨bridge, hlookup, os', bridge', hstep, hrun⟩ := step_bridge hown hs
      obtain ⟨rfl, rfl⟩ := Prod.mk.inj hrun
      have hbridge := hassumed.1 bridge hlookup
      have honce := h.once_of_lookup hlookup
      refine h.run ⟨hlookup, (h.wired b bridge hlookup).step hassumed.2 hown hstep,
        honce.step hbridge hstep, hunshared bridge hlookup, fun id hid => ?_⟩
      cases a with
      | callModuleAsync module method args callback timeoutMs acquired connects keys =>
          obtain rfl := List.mem_singleton.mp hid
          exact (honce.fresh hbridge module method).2
      | _ => cases hid
  | setHandler handler =>
      obtain ⟨rfl, rfl⟩ := Prod.mk.inj (Option.some.inj hs)
      rw [List.append_nil]
      exact { h with inFlight := h.inFlight }
  | receiveCall call =>
      obtain ⟨hm, rfl, rfl⟩ := Machine.taken_if hs
      exact h.receiveCall hm
  | complete call payload =>
      obtain ⟨hm, rfl, rfl⟩ := Machine.taken_if hs
      exact h.complete hm payload fun c hc => List.mem_cons.mp hc
  | completeAgain call payload =>
      obtain ⟨hm, rfl, rfl⟩ := Machine.taken_if hs
      have hidle : s.complete call.requestId payload = s := by
        simp [System.complete, LogosWebCallRouter.complete, show call.requestId ∉ _ from hunshared]
      rw [hidle]
      exact { h with
        toTraced := h.toTraced.heard (.inr rfl) (h.handled call hm)
        replies := fun reply hr hp => List.mem_append_left _ (h.replies reply hr hp)
        reached := fun b id p hc hp => h.reached b id p (by simpa using hc) hp }
  | receiveReply reply =>
      obtain ⟨hm, rfl, rfl⟩ := Machine.taken_if hs
      exact h.receiveReply hm

theorem run_matched {argsToJson : List QVariant → String}
    (h : (machine argsToJson).Run (Machine.both Assumed Unshared) tr s) : Matched tr s :=
  h.invariant Matched.initial Matched.step

theorem proj_split {b : ℕ} {o : Web.Obs} {t₁ t₂ : List Obs} :
    proj b (t₁ ++ .bridge b o :: t₂) = proj b t₁ ++ o :: proj b t₂ := by
  simp [proj, project]

theorem Matched.own (h : Matched tr s) : Own tr := by
  intro t₁ t₂ b id payload htr
  obtain ⟨bridge, honce, -⟩ := h.once b
  have hsourced := honce.sourced (proj b t₁) (proj b t₂) id payload (by rw [htr, proj_split])
  obtain hm | ⟨caller, hid, ⟨callback, hm⟩, hp⟩ := hsourced
  · obtain hm | hm | hm := mem_proj_completed.mp hm
    · exact .inl hm
    · exact .inr (.inl hm)
    · exact absurd (htr ▸ List.mem_append_left _ hm) (h.silent b id payload)
  · refine .inr (.inr ⟨caller, callback, hid, ?_, hp⟩)
    obtain ⟨o, ho, he⟩ := List.mem_filterMap.mp hm
    cases o with
    | bridge b' o =>
        simp only [project] at he
        split_ifs at he with hb
        obtain rfl := Option.some.inj he
        exact hb ▸ ho
    | completed _ _ _ | completedAgain _ _ _ =>
        simp only [project] at he
        split_ifs at he
        cases he

theorem Matched.reaches (h : Matched tr s) (argsToJson : List QVariant → String) :
    Reaches argsToJson tr s := by
  rintro b id payload hc hp
  have hreply := h.reached b id payload hc hp
  obtain ⟨bridge, hlookup, hm⟩ := hp
  have hconnected := h.connected b bridge hlookup id (h.completed b id payload hc)
  have hlookup : s.bridges.lookup b = some bridge := hlookup
  refine ⟨_, _, if_pos hreply, ?_⟩
  simp only [hlookup, hconnected, if_true, System.run]
  exact List.mem_map.mpr ⟨_, Web.answered_mem_deliver hm payload, rfl⟩

/-- **Replies match the calls they answer** in every run in which no id is shared: a callback gets
a payload completed for its own call or the bridge's own error for it, and the completion of a
call that is still pending is on its way to it. -/
theorem replies_match {argsToJson : List QVariant → String}
    (h : (machine argsToJson).Run (Machine.both Assumed Unshared) tr s) :
    Matching argsToJson tr s :=
  ⟨(run_matched h).own, (run_matched h).reaches argsToJson⟩

/-- Two bridges, one after the other, with the same id: the second call is made when the first one
and its replies are over. -/
theorem replies_match_one_after_another :
    ∃ tr s, (machine fun _ => "[]").Run (Machine.both Assumed Unshared) tr s ∧
      Matching (fun _ => "[]") tr s ∧ .bridge 0 (.invoked "1" "A") ∈ tr ∧
      .bridge 1 (.invoked "1" "B") ∈ tr := by
  have h := Machine.exec_run (M := machine fun _ => "[]") (G := Machine.both Assumed Unshared)
    [.setHandler true, .createBridge true,
      .bridge 0 (.callModuleAsync "keystore" "unlock" [] ⟨1, true⟩ 0 (some ⟨true, true⟩) true ["1"]),
      .receiveCall ⟨0, "1", "keystore", "unlock", "[]"⟩,
      .complete ⟨0, "1", "keystore", "unlock", "[]"⟩ "A", .receiveReply ⟨0, "1", "A"⟩,
      .createBridge true,
      .bridge 1 (.callModuleAsync "wallet" "send" [] ⟨2, true⟩ 0 (some ⟨true, true⟩) true ["1"]),
      .receiveCall ⟨1, "1", "wallet", "send", "[]"⟩,
      .complete ⟨1, "1", "wallet", "send", "[]"⟩ "B", .receiveReply ⟨1, "1", "B"⟩] rfl
  exact ⟨_, _, h, replies_match h, by decide, by decide⟩

theorem mem_replies_of_step {argsToJson : List QVariant → String} {reply : Reply} {s' : System}
    {os : List Obs} (hs : step argsToJson s (.receiveReply reply) = some (s', os)) :
    reply ∈ s.replies := (Machine.taken_if hs).1

/-- Two bridges count alike, so both first calls are `"1"`: the answer to one is given to the
other, whose own answer is then dropped. -/
theorem shared_id_crosses :
    (∃ tr s, (machine fun _ => "[]").Run Assumed tr s ∧ ¬ Own tr) ∧
    ∃ tr s, (machine fun _ => "[]").Run Assumed tr s ∧ ¬ Reaches (fun _ => "[]") tr s := by
  refine ⟨?_, ?_⟩
  · have h : (machine fun _ => "[]").Run Assumed
        ([.bridge 0 (.issued ⟨"1", "keystore", "unlock"⟩ ⟨1, true⟩),
          .bridge 0 (.call "1" "keystore" "unlock" "[]" true true),
          .bridge 1 (.issued ⟨"1", "wallet", "send"⟩ ⟨2, true⟩),
          .bridge 1 (.call "1" "wallet" "send" "[]" true true), .completed 0 "1" "A",
          .bridge 1 (.answered "1" "A")] ++ [.bridge 1 (.invoked "1" "A")]) _ :=
      Machine.exec_run
        [.setHandler true, .createBridge true, .createBridge true,
          .bridge 0 (.callModuleAsync "keystore" "unlock" [] ⟨1, true⟩ 0 (some ⟨true, true⟩) true ["1"]),
          .bridge 1 (.callModuleAsync "wallet" "send" [] ⟨2, true⟩ 0 (some ⟨true, true⟩) true ["1"]),
          .receiveCall ⟨0, "1", "keystore", "unlock", "[]"⟩,
          .complete ⟨0, "1", "keystore", "unlock", "[]"⟩ "A", .receiveReply ⟨1, "1", "A"⟩] rfl
    refine ⟨_, _, h, fun hown => ?_⟩
    obtain hm | hm | ⟨caller, callback, -, hm, hp⟩ := hown _ [] 1 "1" "A" rfl
    · exact absurd hm (by decide)
    · exact absurd hm (by decide)
    · obtain ⟨rfl, rfl⟩ : caller = ⟨"1", "wallet", "send"⟩ ∧ callback = ⟨2, true⟩ := by
        simpa using hm
      exact absurd hp (by decide)
  · have h := Machine.exec_run (M := machine fun _ => "[]") (G := Assumed)
      [.setHandler true, .createBridge true, .createBridge true,
        .bridge 0 (.callModuleAsync "keystore" "unlock" [] ⟨1, true⟩ 0 (some ⟨true, true⟩) true ["1"]),
        .bridge 1 (.callModuleAsync "wallet" "send" [] ⟨2, true⟩ 0 (some ⟨true, true⟩) true ["1"]),
        .receiveCall ⟨0, "1", "keystore", "unlock", "[]"⟩,
        .receiveCall ⟨1, "1", "wallet", "send", "[]"⟩,
        .complete ⟨0, "1", "keystore", "unlock", "[]"⟩ "A",
        .complete ⟨1, "1", "wallet", "send", "[]"⟩ "B"] rfl
    refine ⟨_, _, h, fun hreaches => ?_⟩
    obtain ⟨s', os, hs, -⟩ := hreaches 1 "1" "B" (by decide) ⟨_, rfl, by decide⟩
    exact absurd (mem_replies_of_step hs) (by decide)

end LogosViewRuntime.CallRouter
