import LogosViewRuntime.WebOnce

/-! # Held, not lost

A call is marked dispatched where its `call` message is handed to the replica, and a replica
without a connection sends nothing.  What the bridge does guarantee in every run is `Holding`:
while the router has a connection and its reply signal is connected, an unsent call is always in
the loop of some `onRouterInitialized` still on the stack, so once the stack is empty nothing is
held back any more.  Whether the message went anywhere is another matter: `callModuleAsync` asks
`isInitialized()`, which a replica that lost its connection still answers with true, and does not
ask whether `callCompleted` could be connected (`lost_connection_swallows_call`).  So exactly the
runs whose sending steps find a live connection and a connected reply signal lose no call
(`held_not_lost_iff_canSend`). -/

namespace LogosViewRuntime.Web

open Reactive

/-! ### Unsent calls -/

/-- The call is pending and not dispatched. -/
def Unsent (id : String) (s : Bridge) : Prop :=
  ∃ pending ∈ s.pending.lookup id, pending.dispatched = false

instance (id : String) (s : Bridge) : Decidable (Unsent id s) :=
  match h : s.pending.lookup id with
  | none => .isFalse fun ⟨_, hm, _⟩ => by simp [h] at hm
  | some pending =>
      if hd : pending.dispatched = false then .isTrue ⟨pending, h, hd⟩
      else .isFalse fun ⟨p, hm, hp⟩ => hd (by
        obtain rfl := Option.some.inj (h.symm.trans hm)
        exact hp)

/-- The message really went out: the replica had a connection and answers could come back. -/
def WentOut : Obs → Prop
  | .call _ _ _ _ live connected => live = true ∧ connected = true
  | _ => True

def AllWentOut (tr : List Obs) : Prop := ∀ o ∈ tr, WentOut o

/-- No call is lost: what is marked dispatched was really sent, and when the router can be
reached and no loop over the pending calls is under way, nothing is held back. -/
structure HeldNotLost (tr : List Obs) (s : Bridge) : Prop where
  sent : AllWentOut tr
  marked : ∀ id, ∀ pending ∈ s.pending.lookup id, pending.dispatched = true →
    ∃ module method argsJson, .call id module method argsJson true true ∈ tr
  held : s.routerLive = true → s.routerConnected = true → s.stack = [] → ∀ id, ¬ Unsent id s

/-- A step that sends finds the router connected and its reply signal too: `callModuleAsync` when
the replica it has or acquires is initialised, and the loop over the pending calls when it goes on
to a call that has to be sent. -/
def CanSend (_ : List Obs) (s : Bridge) : Action → Prop
  | .callModuleAsync _ _ _ _ _ acquired connects _ => s.node = true →
      (∀ router ∈ s.router, router.initialized = true →
        router.live = true ∧ s.routerConnected = true) ∧
      (s.router = none → ∀ router ∈ acquired, router.initialized = true →
        router.live = true ∧ connects = true)
  | .ret => ∀ frame ∈ s.stack.head?, (∃ id ∈ frame.waiting, Unsent id s) → s.routerLive = true
  | _ => True

variable {tr os : List Obs} {s s' : Bridge}

theorem allWentOut_append : AllWentOut (tr ++ os) ↔ AllWentOut tr ∧ AllWentOut os :=
  List.forall_mem_append

instance (tr : List Obs) (s : Bridge) : (a : Action) → Decidable (CanSend tr s a)
  | .callModuleAsync _ _ _ _ _ acquired connects _ => inferInstanceAs (Decidable (s.node = true →
      (∀ router ∈ s.router, router.initialized = true →
        router.live = true ∧ s.routerConnected = true) ∧
      (s.router = none → ∀ router ∈ acquired, router.initialized = true →
        router.live = true ∧ connects = true)))
  | .ret => inferInstanceAs (Decidable (∀ frame ∈ s.stack.head?,
      (∃ id ∈ frame.waiting, Unsent id s) → s.routerLive = true))
  | .initialized .. | .connectionLost | .nodeDestroyed | .onCallCompleted .. | .timeout _ =>
      inferInstanceAs (Decidable True)

theorem unsent_iff {id : String} {pending : PendingCall}
    (h : s.pending.lookup id = some pending) : Unsent id s ↔ pending.dispatched = false := by
  simp [Unsent, h]

theorem not_unsent_of_none {id : String} (h : s.pending.lookup id = none) : ¬ Unsent id s := by
  simp [Unsent, h]

theorem unsent_congr {id : String} (h : s'.pending = s.pending) : Unsent id s' ↔ Unsent id s := by
  rw [Unsent, h, Unsent]

/-! ### What goes out in a step -/

theorem allWentOut_deliver (id payload : String) (s : Bridge) :
    AllWentOut (s.deliver id payload).2 := by
  unfold Bridge.deliver
  split
  · exact List.forall_mem_nil _
  · split_ifs <;> simp [AllWentOut, WentOut]

theorem allWentOut_dispatch (id : String) (pending : PendingCall) (module method : String)
    (s : Bridge) : AllWentOut (s.dispatch id pending module method).2 ↔
      s.routerLive = true ∧ s.routerConnected = true := by
  simp [Bridge.dispatch, AllWentOut, WentOut]

theorem allWentOut_afterRouter (caller : Caller) (s : Bridge) :
    AllWentOut (s.afterRouter caller).2 ↔
      ∀ router ∈ s.router, router.initialized = true → Unsent caller.requestId s →
        s.routerLive = true ∧ s.routerConnected = true := by
  unfold Bridge.afterRouter
  split
  · rename_i hrouter
    simp [hrouter, allWentOut_deliver]
  · rename_i router hrouter
    simp only [hrouter, Option.mem_def, Option.some.injEq, forall_eq']
    split
    · rename_i hlookup
      simp [not_unsent_of_none hlookup, AllWentOut]
    · rename_i pending hlookup
      rw [unsent_iff hlookup]
      split_ifs with hsent hinitialized
      · simp [hsent, AllWentOut]
      · simp only [Bool.not_eq_true', AllWentOut] at hinitialized ⊢
        simp [hinitialized]
      · rw [allWentOut_dispatch]
        simp_all

/-- The loop sends the first unsent call of `waiting`; there is none left for its caller. -/
theorem allWentOut_drain {caller : Option Caller} {waiting : List String} (s : Bridge)
    (hcaller : ∀ c ∈ caller, Unsent c.requestId s → c.requestId ∈ waiting) :
    AllWentOut (s.drain caller waiting).2 ↔
      ((∃ id ∈ waiting, Unsent id s) → s.routerLive = true ∧ s.routerConnected = true) := by
  induction waiting with
  | nil =>
      refine iff_of_true ?_ (by simp)
      rw [Bridge.drain]
      cases caller with
      | none => exact List.forall_mem_nil _
      | some c =>
          exact (allWentOut_afterRouter c s).mpr fun _ _ _ hu =>
            absurd (hcaller c rfl hu) List.not_mem_nil
  | cons id waiting ih =>
      have hskip : ¬ Unsent id s → (AllWentOut (s.drain caller waiting).2 ↔
          ((∃ i ∈ id :: waiting, Unsent i s) → s.routerLive = true ∧ s.routerConnected = true)) := by
        intro hsent
        rw [ih fun c hc hu => (List.mem_cons.mp (hcaller c hc hu)).resolve_left fun he =>
          hsent (he ▸ hu)]
        simp [hsent]
      rw [Bridge.drain]
      split
      · rename_i hlookup
        exact hskip (not_unsent_of_none hlookup)
      · rename_i pending hlookup
        split_ifs with hsent
        · exact hskip (by rw [unsent_iff hlookup]; simp [hsent])
        · have hunsent : Unsent id s := (unsent_iff hlookup).mpr (by simpa using hsent)
          rw [allWentOut_dispatch]
          exact ⟨fun h _ => h, fun h => h ⟨id, List.mem_cons_self, hunsent⟩⟩

/-! ### Where an unsent call waits -/

/-- Between two statements of a bridge function that will still see to the calls `extra`: when the
router can be reached, every other unsent call is in a loop on the stack. -/
structure Holding (tr : List Obs) (extra : List String) (s : Bridge) : Prop where
  linked : s.routerConnected = true → ∃ router ∈ s.router, router.initialized = true
  looping : s.stack ≠ [] → s.routerConnected = true
  callers : ∀ frame ∈ s.stack, ∀ c ∈ frame.caller, Unsent c.requestId s →
    c.requestId ∈ frame.waiting
  covered : s.routerLive = true → s.routerConnected = true → ∀ id, Unsent id s →
    id ∈ extra ∨ ∃ frame ∈ s.stack, id ∈ frame.waiting
  marked : ∀ id, ∀ pending ∈ s.pending.lookup id, pending.dispatched = true →
    ∃ module method argsJson live connected,
      .call id module method argsJson live connected ∈ tr

namespace Holding

variable {extra : List String}

theorem initial (node : Bool) : Holding [] [] { node } where
  linked := nofun
  looping h := absurd rfl h
  callers _ hm := by cases hm
  covered _ := nofun
  marked _ _ hm := by cases hm

theorem weaken (h : Holding tr extra s) {extra' : List String} (hsub : ∀ id ∈ extra, id ∈ extra') :
    Holding tr extra' s :=
  { h with covered := fun hl hc id hu => (h.covered hl hc id hu).imp_left (hsub id) }

/-- A call that is not unsent need not be seen to. -/
theorem drop {id : String} (h : Holding tr (id :: extra) s) (hsent : ¬ Unsent id s) :
    Holding tr extra s :=
  { h with covered := fun hl hc i hu => (h.covered hl hc i hu).imp_left fun hm =>
      (List.mem_cons.mp hm).resolve_left fun (he : i = id) => hsent (he ▸ hu) }

/-- An operation on the pending map that sees to the call `id`. -/
theorem settle {id : String} (h : Holding tr (id :: extra) s) (hrouter : s'.router = s.router)
    (hconnected : s'.routerConnected = s.routerConnected) (hstack : s'.stack = s.stack)
    (hunsent : ∀ i, Unsent i s' → Unsent i s ∧ i ≠ id)
    (hmarked : ∀ i, ∀ pending ∈ s'.pending.lookup i, pending.dispatched = true →
      ∃ module method argsJson live connected,
        .call i module method argsJson live connected ∈ tr ++ os) :
    Holding (tr ++ os) extra s' where
  linked hc := by
    rw [hrouter]
    exact h.linked (hconnected ▸ hc)
  looping hs := by
    rw [hconnected]
    exact h.looping (hstack ▸ hs)
  callers frame hm c hc hu := h.callers frame (hstack ▸ hm) c hc (hunsent _ hu).1
  covered hl hc i hu := by
    obtain ⟨hu, hne⟩ := hunsent i hu
    rw [hstack]
    exact (h.covered (by rwa [Bridge.routerLive, ← hrouter]) (hconnected ▸ hc) i hu).imp_left
      fun hm => (List.mem_cons.mp hm).resolve_left hne
  marked := hmarked

theorem marked_append (h : Holding tr extra s) (os : List Obs) (id : String) :
    ∀ pending ∈ s.pending.lookup id, pending.dispatched = true →
      ∃ module method argsJson live connected,
        .call id module method argsJson live connected ∈ tr ++ os := fun pending hm hd => by
  obtain ⟨module, method, argsJson, live, connected, hc⟩ := h.marked id pending hm hd
  exact ⟨module, method, argsJson, live, connected, List.mem_append_left os hc⟩

theorem deliver {id : String} (h : Holding tr (id :: extra) s) (payload : String) :
    Holding (tr ++ (s.deliver id payload).2) extra (s.deliver id payload).1 := by
  unfold Bridge.deliver
  cases hlookup : s.pending.lookup id with
  | none =>
      rw [List.append_nil]
      exact h.drop (not_unsent_of_none hlookup)
  | some pending =>
      refine h.settle rfl rfl rfl (fun i hu => ?_) fun i p hm hp => ?_
      · obtain ⟨p, hm, hp⟩ := hu
        have hne : i ≠ id := by
          rintro rfl
          simp [AList.lookup_erase] at hm
        rw [AList.lookup_erase_ne hne] at hm
        exact ⟨⟨p, hm, hp⟩, hne⟩
      · have hne : i ≠ id := by
          rintro rfl
          simp [AList.lookup_erase] at hm
        rw [AList.lookup_erase_ne hne] at hm
        exact h.marked_append _ i p hm hp

theorem dispatch {id : String} (h : Holding tr (id :: extra) s) (pending : PendingCall)
    (module method : String) :
    Holding (tr ++ (s.dispatch id pending module method).2) extra
      (s.dispatch id pending module method).1 := by
  have hsplit : ∀ i p, p ∈ (s.dispatch id pending module method).1.pending.lookup i →
      i = id ∧ p.dispatched = true ∨ i ≠ id ∧ p ∈ s.pending.lookup i := by
    intro i p hm
    by_cases hi : i = id
    · subst hi
      rw [Bridge.dispatch, AList.lookup_insert] at hm
      obtain rfl := Option.some.inj hm
      exact .inl ⟨rfl, rfl⟩
    · rw [Bridge.dispatch, AList.lookup_insert_ne hi] at hm
      exact .inr ⟨hi, hm⟩
  refine h.settle rfl rfl rfl (fun i hu => ?_) fun i p hm hp => ?_
  · obtain ⟨p, hm, hp⟩ := hu
    obtain ⟨-, hd⟩ | ⟨hi, hm⟩ := hsplit i p hm
    · simp [hp] at hd
    · exact ⟨⟨p, hm, hp⟩, hi⟩
  · obtain ⟨rfl, -⟩ | ⟨-, hm⟩ := hsplit i p hm
    · exact ⟨_, _, _, _, _, List.mem_append_right _ List.mem_cons_self⟩
    · exact h.marked_append _ i p hm hp

theorem afterRouter {caller : Caller} (h : Holding tr [caller.requestId] s) :
    Holding (tr ++ (s.afterRouter caller).2) [] (s.afterRouter caller).1 := by
  unfold Bridge.afterRouter
  split
  · exact h.deliver _
  · rename_i router hrouter
    split
    · rename_i hlookup
      rw [List.append_nil]
      exact h.drop (not_unsent_of_none hlookup)
    · rename_i pending hlookup
      split_ifs with hsent hinitialized
      · rw [List.append_nil]
        exact h.drop (by rw [unsent_iff hlookup]; simp [hsent])
      · -- not initialised: the reply signal is not connected, nothing is promised
        rw [List.append_nil]
        refine { h with covered := fun _ hc => ?_ }
        obtain ⟨r, hr, hi⟩ := h.linked hc
        obtain rfl := Option.some.inj (hrouter.symm.trans hr)
        simp [hi] at hinitialized
      · exact h.dispatch _ _ _

theorem resume {caller : Option Caller} (h : Holding tr [] s) :
    Holding (tr ++ (s.resume caller).2) [] (s.resume caller).1 := by
  cases caller with
  | none => simpa [Bridge.resume] using h
  | some caller => exact (h.weaken (by simp)).afterRouter

theorem drain {caller : Option Caller} {waiting : List String} (h : Holding tr waiting s)
    (hconnected : s.routerConnected = true)
    (hcaller : ∀ c ∈ caller, Unsent c.requestId s → c.requestId ∈ waiting) :
    Holding (tr ++ (s.drain caller waiting).2) [] (s.drain caller waiting).1 := by
  induction waiting with
  | nil => exact h.resume
  | cons id waiting ih =>
      have hskip : ¬ Unsent id s →
          Holding (tr ++ (s.drain caller waiting).2) [] (s.drain caller waiting).1 := fun hsent =>
        ih (h.drop hsent) fun c hc hu => (List.mem_cons.mp (hcaller c hc hu)).resolve_left
          fun he => hsent (he ▸ hu)
      rw [Bridge.drain]
      split
      · rename_i hlookup
        exact hskip (not_unsent_of_none hlookup)
      · rename_i pending hlookup
        split_ifs with hsent
        · exact hskip (by rw [unsent_iff hlookup]; simp [hsent])
        · -- sent: the rest of the loop waits on the stack
          have hdone := h.dispatch pending pending.module pending.method
          have hgone : ∀ i, Unsent i (s.dispatch id pending pending.module pending.method).1 →
              Unsent i s ∧ i ≠ id := by
            rintro i ⟨p, hm, hp⟩
            by_cases hi : i = id
            · subst hi
              rw [Bridge.dispatch, AList.lookup_insert] at hm
              obtain rfl := Option.some.inj hm
              cases hp
            · rw [Bridge.dispatch, AList.lookup_insert_ne hi] at hm
              exact ⟨⟨p, hm, hp⟩, hi⟩
          refine ⟨hdone.linked, fun _ => hconnected, fun frame hm c hc hu => ?_,
            fun hl hc i hu => ?_, hdone.marked⟩
          · obtain ⟨hu', hne⟩ := hgone _ hu
            obtain rfl | hm := List.mem_cons.mp hm
            · exact (List.mem_cons.mp (hcaller c hc hu')).resolve_left hne
            · exact h.callers frame hm c hc hu'
          · refine .inr ?_
            obtain hw | ⟨frame, hm, hw⟩ := hdone.covered hl hc i hu
            · exact ⟨_, List.mem_cons_self, hw⟩
            · exact ⟨frame, List.mem_cons_of_mem _ hm, hw⟩

/-- A step that leaves the pending calls alone. -/
theorem quiet (h : Holding tr extra s) (os : List Obs) (hpending : s'.pending = s.pending)
    (hrouter : s'.router = s.router) (hconnected : s'.routerConnected = s.routerConnected)
    (hstack : s'.stack = s.stack) : Holding (tr ++ os) extra s' :=
  { linked := fun hc => by
      rw [hrouter]
      exact h.linked (hconnected ▸ hc)
    looping := fun hs => by
      rw [hconnected]
      exact h.looping (hstack ▸ hs)
    callers := fun frame hm c hc hu =>
      h.callers frame (hstack ▸ hm) c hc ((unsent_congr hpending).mp hu)
    covered := fun hl hc i hu => by
      rw [hstack]
      exact h.covered (by rwa [Bridge.routerLive, ← hrouter]) (hconnected ▸ hc) i
        ((unsent_congr hpending).mp hu)
    marked := fun i p hm => h.marked_append os i p (hpending ▸ hm) }

/-- The loop starts with all the pending ids. -/
theorem onRouterInitialized (h : Holding tr [] s) {router : Replica} (hrouter : s.router = some router)
    (hinitialized : router.initialized = true) {caller : Option Caller} (connects : Bool)
    {keys : List String} (hkeys : keys.Perm s.pending.keys) :
    Holding (tr ++ (s.onRouterInitialized connects keys caller).2) []
      (s.onRouterInitialized connects keys caller).1 := by
  have hall : ∀ id, Unsent id s → id ∈ keys := by
    rintro id ⟨pending, hm, -⟩
    rw [hkeys.mem_iff, ← AList.mem_keys]
    exact AList.lookup_isSome.mp (by rw [Option.mem_def.mp hm]; rfl)
  unfold Bridge.onRouterInitialized
  split_ifs
  · exact h.resume
  · have hconnected : Holding tr keys { s with routerConnected := true } :=
      { linked := fun _ => ⟨router, hrouter, hinitialized⟩
        looping := fun _ => rfl
        callers := h.callers
        covered := fun _ _ id hu => .inl (hall id hu)
        marked := h.marked }
    exact hconnected.drain rfl fun c _ hu => hall _ hu

theorem ensureRouter {caller : Caller} (h : Holding tr [caller.requestId] s)
    (acquired : Option Replica) (connects : Bool) {keys : List String}
    (hkeys : keys.Perm s.pending.keys) :
    Holding (tr ++ (s.ensureRouter acquired connects keys caller).2) []
      (s.ensureRouter acquired connects keys caller).1 := by
  unfold Bridge.ensureRouter
  split_ifs with hskip
  · exact h.afterRouter
  · have hnone : s.router = none := by
      cases hr : s.router with
      | none => rfl
      | some _ => simp [hr] at hskip
    have hunconnected : s.routerConnected = false := by
      by_contra hc
      obtain ⟨router, hr, -⟩ := h.linked (by simpa using hc)
      simp [hnone] at hr
    have hacquired : ∀ router, Holding tr [] { s with router } := fun router =>
      { linked := fun hc => by simp [hunconnected] at hc
        looping := fun hs => absurd (h.looping hs) (by simp [hunconnected])
        callers := h.callers
        covered := fun _ hc => by simp [hunconnected] at hc
        marked := h.marked }
    cases acquired with
    | none => exact ((hacquired none).weaken (by simp)).afterRouter
    | some router =>
        dsimp only
        split_ifs with hinitialized
        · exact (hacquired _).onRouterInitialized rfl hinitialized connects hkeys
        · exact ((hacquired _).weaken (by simp)).afterRouter

theorem record (h : Holding tr [] s) (ho : Once tr s) (hfew : (issuedIds tr).length + 1 < 2 ^ 64)
    (module method argsJson : String) (callback : QJSValue) (timeoutMs : ℤ) :
    Holding (tr ++ [.issued (s.nextCaller module method) callback])
      [(s.nextCaller module method).requestId]
      (s.record (s.nextCaller module method) argsJson callback timeoutMs) := by
  obtain ⟨-, hfresh⟩ := ho.fresh hfew module method
  generalize s.nextCaller module method = caller at hfresh ⊢
  have hold : ∀ id, id ≠ caller.requestId →
      (s.record caller argsJson callback timeoutMs).pending.lookup id = s.pending.lookup id :=
    fun id hne => AList.lookup_insert_ne hne
  have hunsent : ∀ id, id ≠ caller.requestId →
      (Unsent id (s.record caller argsJson callback timeoutMs) ↔ Unsent id s) := fun id hne => by
    rw [Unsent, hold id hne, Unsent]
  refine ⟨h.linked, h.looping, fun frame hm c hc hu => ?_, fun hl hc id hu => ?_,
    fun id pending hm hd => ?_⟩
  · have hne : c.requestId ≠ caller.requestId := fun he =>
      hfresh (he ▸ mem_issuedIds.mpr ⟨c, rfl, ho.frames frame hm c hc⟩)
    exact h.callers frame hm c hc ((hunsent _ hne).mp hu)
  · by_cases hne : id = caller.requestId
    · exact .inl (by simp [hne])
    · obtain hm | hw := h.covered hl hc id ((hunsent id hne).mp hu)
      · cases hm
      · exact .inr hw
  · by_cases hne : id = caller.requestId
    · subst hne
      rw [Bridge.record, AList.lookup_insert] at hm
      obtain rfl := Option.some.inj hm
      cases hd
    · exact h.marked_append _ id pending (hold id hne ▸ hm) hd

end Holding

/-! ### Every step -/

/-- Acquiring the router: an initialised one is sent to at once, through the loop if its reply
signal can be connected and past it if not. -/
theorem allWentOut_acquire {acquired : Option Replica} {connects : Bool} {keys : List String}
    {caller : Caller} (hnode : s.node = true) (hrouter : s.router = none)
    (hunlinked : s.routerConnected = false) (hunsent : Unsent caller.requestId s)
    (hmem : caller.requestId ∈ keys) :
    AllWentOut (s.ensureRouter acquired connects keys caller).2 ↔
      ∀ router ∈ acquired, router.initialized = true → router.live = true ∧ connects = true := by
  rw [Bridge.ensureRouter, if_neg (by simp [hrouter, hnode])]
  cases acquired with
  | none => simp [allWentOut_afterRouter]
  | some router =>
      simp only [Option.mem_def, Option.some.injEq, forall_eq']
      cases hi : router.initialized with
      | false => simp [allWentOut_afterRouter, hi]
      | true =>
          have hunsent' : ∀ connected, Unsent caller.requestId
              { s with router := some router, routerConnected := connected } := fun _ => hunsent
          simp only [if_true, forall_const, Bridge.onRouterInitialized]
          cases connects with
          | false =>
              rw [if_pos (by simp [hunlinked]), Bridge.resume, allWentOut_afterRouter]
              refine iff_of_false (fun hout => ?_) (by simp)
              have := (hout router rfl hi (hunsent' _)).2
              simp [hunlinked] at this
          | true =>
              rw [if_neg (by simp), allWentOut_drain _ fun c hc _ => by
                rwa [← Option.some.inj (Option.mem_def.mp hc)]]
              constructor
              · exact fun hout => ⟨(hout ⟨_, hmem, hunsent' _⟩).1, rfl⟩
              · exact fun hlive _ => ⟨by simpa [Bridge.routerLive] using hlive.1, rfl⟩

/-- A `callModuleAsync` sends to somebody exactly if it `CanSend`. -/
theorem allWentOut_callModuleAsync (h : Holding tr [] s) {module method argsJson : String}
    {callback : QJSValue} {timeoutMs : ℤ} (acquired : Option Replica) (connects : Bool)
    {keys : List String} (args : List QVariant)
    (hkeys : keys.Perm
      (s.record (s.nextCaller module method) argsJson callback timeoutMs).pending.keys) :
    AllWentOut (s.callModuleAsync module method argsJson callback timeoutMs acquired connects keys).2 ↔
      CanSend tr s
        (.callModuleAsync module method args callback timeoutMs acquired connects keys) := by
  have hissued : ∀ os, AllWentOut (.issued (s.nextCaller module method) callback :: os) ↔
      AllWentOut os := fun os => by simp [AllWentOut, WentOut]
  simp only [Bridge.callModuleAsync, hissued, CanSend]
  generalize hcaller : s.nextCaller module method = caller at hkeys ⊢
  have hunsent : Unsent caller.requestId (s.record caller argsJson callback timeoutMs) :=
    ⟨_, AList.lookup_insert _, rfl⟩
  have hmem : caller.requestId ∈ keys := by
    obtain ⟨pending, hm, -⟩ := hunsent
    rw [hkeys.mem_iff, ← AList.mem_keys]
    exact AList.lookup_isSome.mp (by rw [Option.mem_def.mp hm]; rfl)
  cases hnode : s.node with
  | false => simp [allWentOut_deliver]
  | true =>
      simp only [Bool.not_true, Bool.false_eq_true, if_false, forall_const]
      cases hrouter : s.router with
      | some router =>
          rw [Bridge.ensureRouter, if_pos (by simp [Bridge.record, hrouter]),
            allWentOut_afterRouter]
          simp only [Bridge.record, hrouter, Option.mem_def, Option.some.injEq, forall_eq',
            Bridge.routerLive, Option.any_some, reduceCtorEq, false_implies, and_true]
          exact ⟨fun hout hi => hout hi hunsent, fun hout hi _ => hout hi⟩
      | none =>
          have hunlinked : s.routerConnected = false := by
            by_contra hc
            obtain ⟨router, hm, -⟩ := h.linked (by simpa using hc)
            simp [hrouter] at hm
          simp only [Option.mem_def, reduceCtorEq, false_implies, implies_true, true_and,
            forall_const]
          exact allWentOut_acquire hnode hrouter hunlinked hunsent hmem

theorem Holding.callModuleAsync (h : Holding tr [] s) (ho : Once tr s)
    (hfew : (issuedIds tr).length + 1 < 2 ^ 64) (module method argsJson : String)
    (callback : QJSValue) (timeoutMs : ℤ) (acquired : Option Replica) (connects : Bool)
    {keys : List String} (hkeys : keys.Perm
      (s.record (s.nextCaller module method) argsJson callback timeoutMs).pending.keys) :
    Holding (tr ++ (s.callModuleAsync module method argsJson callback timeoutMs acquired connects
        keys).2) []
      (s.callModuleAsync module method argsJson callback timeoutMs acquired connects keys).1 := by
  have hrecord := h.record ho hfew module method argsJson callback timeoutMs
  simp only [Bridge.callModuleAsync]
  rw [List.append_cons]
  split_ifs
  · exact hrecord.deliver _
  · exact hrecord.ensureRouter acquired connects hkeys

/-- The router says that it can be reached: the loop looks at every pending call. -/
theorem Holding.initialized (h : Holding tr [] s) (connects : Bool) {keys : List String}
    (hkeys : keys.Perm s.pending.keys) :
    Holding (tr ++ ({ s with router := some ⟨true, true⟩ }.onRouterInitialized connects keys none).2)
        [] ({ s with router := some ⟨true, true⟩ }.onRouterInitialized connects keys none).1 ∧
      AllWentOut ({ s with router := some ⟨true, true⟩ }.onRouterInitialized connects keys none).2 := by
  have hall : ∀ id, Unsent id s → id ∈ keys := by
    rintro id ⟨pending, hm, -⟩
    rw [hkeys.mem_iff, ← AList.mem_keys]
    exact AList.lookup_isSome.mp (by rw [Option.mem_def.mp hm]; rfl)
  unfold Bridge.onRouterInitialized
  split_ifs with hfailed
  · have hunconnected : s.routerConnected = false := by simp at hfailed; exact hfailed.1
    refine ⟨?_, List.forall_mem_nil _⟩
    rw [Bridge.resume, List.append_nil]
    exact { linked := fun hc => by simp [hunconnected] at hc
            looping := h.looping
            callers := h.callers
            covered := fun _ hc => by simp [hunconnected] at hc
            marked := h.marked }
  · have hready : Holding tr keys
        { s with router := some ⟨true, true⟩, routerConnected := true } :=
      { linked := fun _ => ⟨_, rfl, rfl⟩
        looping := fun _ => rfl
        callers := h.callers
        covered := fun _ _ id hu => .inl (hall id hu)
        marked := h.marked }
    exact ⟨hready.drain rfl (by simp), (allWentOut_drain _ (by simp)).mpr fun _ => ⟨rfl, rfl⟩⟩

/-- The loop goes on. -/
theorem Holding.ret (h : Holding tr [] s) {frame : Frame} {stack : List Frame}
    (hstack : s.stack = frame :: stack) :
    Holding (tr ++ ({ s with stack }.drain frame.caller frame.waiting).2) []
        ({ s with stack }.drain frame.caller frame.waiting).1 ∧
      (AllWentOut ({ s with stack }.drain frame.caller frame.waiting).2 ↔ CanSend tr s .ret) := by
  have hconnected : s.routerConnected = true := h.looping (by simp [hstack])
  have hcaller : ∀ c ∈ frame.caller, Unsent c.requestId s → c.requestId ∈ frame.waiting :=
    h.callers frame (by simp [hstack])
  have hpopped : Holding tr frame.waiting { s with stack } :=
    { linked := h.linked
      looping := fun _ => hconnected
      callers := fun f hm => h.callers f (by simp [hstack, show f ∈ stack from hm])
      covered := fun hl hc id hu => by
        obtain hm | ⟨f, hm, hw⟩ := h.covered hl hc id hu
        · cases hm
        · rw [hstack] at hm
          obtain rfl | hm := List.mem_cons.mp hm
          · exact .inl hw
          · exact .inr ⟨f, hm, hw⟩
      marked := h.marked }
  have hout := allWentOut_drain { s with stack } hcaller
  refine ⟨hpopped.drain hconnected hcaller, hout.trans ?_⟩
  simp only [CanSend, hstack, List.head?_cons, Option.mem_def, Option.some.injEq, forall_eq']
  exact ⟨fun hout hu => (hout hu).1, fun hlive hu => ⟨hlive hu, hconnected⟩⟩

/-- **Every step keeps the calls covered, and sends nothing into the void exactly if it
`CanSend`.** -/
theorem Holding.step {argsToJson : List QVariant → String} {a : Action} (h : Holding tr [] s)
    (ho : Once tr s) (hassumed : Assumed tr s a) (hs : step argsToJson s a = some (s', os)) :
    Holding (tr ++ os) [] s' ∧ (AllWentOut os ↔ CanSend tr s a) := by
  have hdeliver : ∀ id payload pre, AllWentOut pre → Holding (tr ++ pre) [] s →
      Holding (tr ++ (pre ++ (s.deliver id payload).2)) [] (s.deliver id payload).1 ∧
        AllWentOut (pre ++ (s.deliver id payload).2) := fun id payload pre hpre hp => by
    rw [← List.append_assoc]
    exact ⟨(hp.weaken (by simp)).deliver payload,
      allWentOut_append.mpr ⟨hpre, allWentOut_deliver id payload s⟩⟩
  cases step_cases hs with
  | callModuleAsync module method args callback timeoutMs acquired connects keys hkeys =>
      exact ⟨h.callModuleAsync ho hassumed module method (argsToJson args) callback timeoutMs
        acquired connects hkeys, allWentOut_callModuleAsync h acquired connects args hkeys⟩
  | initialized connects keys _ hkeys =>
      obtain ⟨hholding, hout⟩ := h.initialized connects hkeys
      exact ⟨hholding, iff_of_true hout trivial⟩
  | connectionLost =>
      rw [List.append_nil]
      refine ⟨?_, iff_of_true (List.forall_mem_nil _) trivial⟩
      exact { linked := fun hc => by
                obtain ⟨router, hm, hi⟩ := h.linked hc
                exact ⟨{ router with live := false }, by simp [Option.mem_def.mp hm], hi⟩
              looping := h.looping
              callers := h.callers
              covered := fun hl => by simp [Bridge.routerLive, Option.any_map] at hl
              marked := h.marked }
  | nodeDestroyed =>
      exact ⟨h.quiet [] rfl rfl rfl rfl, iff_of_true (List.forall_mem_nil _) trivial⟩
  | onCallCompleted id payload =>
      obtain ⟨hholding, hout⟩ := hdeliver id payload [.completed id payload]
        (by simp [AllWentOut, WentOut]) (h.quiet _ rfl rfl rfl rfl)
      exact ⟨hholding, iff_of_true hout trivial⟩
  | timeout caller =>
      have herased : Holding tr [caller.requestId] { s with timers := s.timers.erase caller } := by
        have : Holding (tr ++ []) [] { s with timers := s.timers.erase caller } :=
          h.quiet [] rfl rfl rfl rfl
        rw [List.append_nil] at this
        exact this.weaken (by simp)
      have hholding := herased.deliver (timedOut caller)
      have hout := allWentOut_deliver caller.requestId (timedOut caller)
        { s with timers := s.timers.erase caller }
      exact ⟨hholding, iff_of_true hout trivial⟩
  | ret frame stack hstack => exact h.ret hstack

theorem run_holding {argsToJson : List QVariant → String} {node : Bool}
    (h : (machine argsToJson node).Run Assumed tr s) : Holding tr [] s := by
  induction h with
  | start => exact .initial node
  | step h hassumed hs ih => exact (ih.step (run_once h) hassumed hs).1

/-- What a covered run whose messages all went out has lost: nothing. -/
theorem Holding.heldNotLost (h : Holding tr [] s) (hsent : AllWentOut tr) : HeldNotLost tr s where
  sent := hsent
  marked id pending hm hd := by
    obtain ⟨module, method, argsJson, live, connected, hc⟩ := h.marked id pending hm hd
    obtain ⟨rfl, rfl⟩ := hsent _ hc
    exact ⟨module, method, argsJson, hc⟩
  held hl hc hstack id hu := by
    obtain hm | ⟨frame, hm, -⟩ := h.covered hl hc id hu
    · cases hm
    · rw [hstack] at hm
      cases hm

/-- **No call is lost exactly in the runs whose sending steps find the router there.** -/
theorem held_not_lost_iff_canSend (argsToJson : List QVariant → String) (node : Bool) :
    (∀ tr s, (machine argsToJson node).Run (Machine.both Assumed CanSend) tr s →
      HeldNotLost tr s) ∧
    ∀ tr s, (machine argsToJson node).Run
        (Machine.both Assumed ((machine argsToJson node).keeps HeldNotLost)) tr s →
      (machine argsToJson node).Run (Machine.both Assumed CanSend) tr s := by
  apply Machine.Run.exact ((Holding.initial node).heldNotLost (List.forall_mem_nil _))
  intro tr s a s' os hrun hheld hassumed hs
  obtain ⟨hholding, hout⟩ := (run_holding hrun.left).step (run_once hrun.left) hassumed hs
  rw [← hout]
  exact ⟨fun h => (allWentOut_append.mp h.sent).2,
    fun h => hholding.heldNotLost (allWentOut_append.mpr ⟨hheld.sent, h⟩)⟩

/-- A call made while the connection is down is marked dispatched, and the reconnect does not
send it. -/
theorem lost_connection_swallows_call :
    ∃ tr s, (machine (fun _ => "[]") true).Run Assumed tr s ∧ s.routerLive = true ∧
      s.routerConnected = true ∧ s.stack = [] ∧ "2" ∈ s.pendingCallIds ∧
      .call "2" "keystore" "unlock" "[]" false true ∈ tr ∧ callsSent "2" tr = 1 ∧
      ¬ HeldNotLost tr s := by
  have h := Machine.exec_run (M := machine (fun _ => "[]") true) (G := Assumed)
    [.callModuleAsync "keystore" "list" [] ⟨1, true⟩ 0 (some ⟨true, true⟩) true ["1"], .ret,
      .onCallCompleted "1" "ok", .connectionLost,
      .callModuleAsync "keystore" "unlock" [] ⟨2, true⟩ 0 none true ["2"],
      .initialized true ["2"]] rfl
  exact ⟨_, _, h, rfl, rfl, rfl, by decide, by decide, rfl,
    fun hheld => absurd (hheld.sent (.call "2" "keystore" "unlock" "[]" false true) (by decide))
      (by simp [WentOut])⟩

/-- A call made before the router is there is held and sent when it comes up. -/
theorem held_call_is_sent_when_router_comes_up :
    ∃ tr s, (machine (fun _ => "[]") true).Run (Machine.both Assumed CanSend) tr s ∧
      callsSent "1" tr = 1 ∧ HeldNotLost tr s := by
  have h := Machine.exec_run (M := machine (fun _ => "[]") true)
    (G := Machine.both Assumed CanSend)
    [.callModuleAsync "keystore" "unlock" [] ⟨1, true⟩ 0 (some ⟨false, false⟩) true ["1"],
      .initialized true ["1"], .ret] rfl
  exact ⟨_, _, h, rfl, (held_not_lost_iff_canSend _ true).1 _ _ h⟩

end LogosViewRuntime.Web
