import LogosViewRuntime.WebOnce

/-! # What a step of a web bridge sends

`Wired` is the part of a bridge's state that does not depend on its calls: a router that is
initialised has its reply signal connected, provided that the signal can be connected at all.
`Sends` is what every step does to it and to the pending calls: a step that sends a call has it
pending afterwards and is connected to hear the answer. -/

namespace LogosViewRuntime.Web

open Reactive

structure Wired (s : Bridge) : Prop where
  initialized : ∀ router ∈ s.router, router.initialized = true → s.routerConnected = true
  connected : s.routerConnected = true → s.router.isSome = true
  frames : s.stack ≠ [] → s.routerConnected = true

/-- From `s` to `s'` with the observations `os`; `new` are the calls issued on the way. -/
structure Sends (new : List String) (s : Bridge) (os : List Obs) (s' : Bridge) : Prop where
  wired : Wired s'
  connected : s.routerConnected = true → s'.routerConnected = true
  pending : ∀ id ∈ s'.pending, id ∈ s.pending ∨ id ∈ new
  issued : issuedIds os = new
  silent : ∀ id payload, .completed id payload ∉ os
  sends : ∀ id, 0 < callsSent id os → id ∈ s'.pending ∧ s'.routerConnected = true

@[simp] theorem callsSent_append (id : String) (tr os : List Obs) :
    callsSent id (tr ++ os) = callsSent id tr + callsSent id os := List.countP_append

@[simp] theorem callsSent_nil (id : String) : callsSent id [] = 0 := rfl

theorem Wired.initial (node : Bool) : Wired { node } where
  initialized := by simp
  connected := by simp
  frames h := absurd rfl h

variable {s s' : Bridge} {os : List Obs}

/-- Of the state before the step only the pending calls and the connection matter. -/
theorem Sends.congr {new : List String} {r : Bridge} (h : Sends new r os s')
    (hpending : s.pending = r.pending) (hconnected : s.routerConnected = r.routerConnected) :
    Sends new s os s' :=
  ⟨h.wired, hconnected ▸ h.connected, hpending ▸ h.pending, h.issued, h.silent, h.sends⟩

/-! ### What `deliver` does to the pending calls -/

theorem deliver_of_notMem {id : String} (h : id ∉ s.pending) (payload : String) :
    s.deliver id payload = (s, []) := by
  have : s.pending.lookup id = none := AList.lookup_eq_none.mpr h
  simp [Bridge.deliver, this]

theorem notMem_deliver (id payload : String) (s : Bridge) :
    id ∉ (s.deliver id payload).1.pending := by
  unfold Bridge.deliver
  cases hlookup : s.pending.lookup id with
  | none => exact AList.lookup_eq_none.mp hlookup
  | some pending => simp [AList.mem_erase]

theorem answered_mem_deliver {id : String} (h : id ∈ s.pending) (payload : String) :
    .answered id payload ∈ (s.deliver id payload).2 := by
  obtain ⟨pending, hlookup⟩ := Option.isSome_iff_exists.mp (AList.lookup_isSome.mpr h)
  simp [Bridge.deliver, hlookup]

/-! ### Function by function -/

namespace Wired

theorem quiet (h : Wired s) : Sends [] s [] s :=
  ⟨h, fun hc => hc, fun _ => .inl, rfl, by simp, by simp⟩

theorem deliver (h : Wired s) (id payload : String) :
    Sends [] s (s.deliver id payload).2 (s.deliver id payload).1 := by
  unfold Bridge.deliver
  cases hlookup : s.pending.lookup id with
  | none => exact h.quiet
  | some pending =>
      refine ⟨⟨h.initialized, h.connected, h.frames⟩, fun hc => hc, fun i hi => ?_, ?_, ?_, ?_⟩
      · exact .inl (AList.mem_erase.mp hi).2
      · cases hc : pending.callback.isCallable <;> simp [issuedIds, hc]
      · cases hc : pending.callback.isCallable <;> simp [hc]
      · intro i
        cases hc : pending.callback.isCallable <;> simp [callsSent, hc]

theorem dispatch (h : Wired s) {id : String} {pending : PendingCall}
    (hlookup : s.pending.lookup id = some pending) (hconnected : s.routerConnected = true)
    (module method : String) :
    Sends [] s (s.dispatch id pending module method).2 (s.dispatch id pending module method).1 := by
  have hm : id ∈ s.pending := AList.lookup_isSome.mp (by rw [hlookup]; rfl)
  refine ⟨⟨h.initialized, h.connected, h.frames⟩, fun hc => hc, fun i hi => ?_, rfl,
    by simp [Bridge.dispatch], fun i hi => ?_⟩
  · obtain rfl | hi := AList.mem_insert _ |>.mp hi
    · exact .inl hm
    · exact .inl hi
  · obtain rfl : id = i := by
      by_contra hne
      simp [Bridge.dispatch, callsSent, hne] at hi
    exact ⟨AList.mem_insert _ |>.mpr (.inl rfl), hconnected⟩

theorem afterRouter (h : Wired s) (caller : Caller) :
    Sends [] s (s.afterRouter caller).2 (s.afterRouter caller).1 := by
  unfold Bridge.afterRouter
  split
  · apply h.deliver
  · rename_i router hrouter
    split
    · exact h.quiet
    · rename_i pending hlookup
      split_ifs with hsent hinitialized
      · exact h.quiet
      · exact h.quiet
      · exact h.dispatch hlookup (h.initialized router hrouter (by simpa using hinitialized)) _ _

theorem resume (h : Wired s) (caller : Option Caller) :
    Sends [] s (s.resume caller).2 (s.resume caller).1 := by
  cases caller with
  | none => exact h.quiet
  | some caller => exact h.afterRouter caller

theorem drain (h : Wired s) (hconnected : s.routerConnected = true) (caller : Option Caller)
    (waiting : List String) :
    Sends [] s (s.drain caller waiting).2 (s.drain caller waiting).1 := by
  induction waiting with
  | nil => exact h.resume caller
  | cons id waiting ih =>
      rw [Bridge.drain]
      split
      · exact ih
      · rename_i pending hlookup
        split_ifs with hsent
        · exact ih
        · have hpushed : Wired { s with stack := ⟨waiting, caller⟩ :: s.stack } :=
            ⟨h.initialized, h.connected, fun _ => hconnected⟩
          have := hpushed.dispatch hlookup hconnected pending.module pending.method
          exact this.congr rfl rfl

/-- The reply signal gets connected before anything is sent. -/
theorem onRouterInitialized (hrouter : s.router.isSome = true) (caller : Option Caller)
    (keys : List String) :
    Sends [] s (s.onRouterInitialized true keys caller).2
      (s.onRouterInitialized true keys caller).1 := by
  have hwired : Wired { s with routerConnected := true } :=
    ⟨fun _ _ _ => rfl, fun _ => hrouter, fun _ => rfl⟩
  have := hwired.drain rfl caller keys
  simp only [Bridge.onRouterInitialized, Bool.not_true, Bool.and_false, Bool.false_eq_true, if_false]
  exact ⟨this.wired, fun _ => this.connected rfl, this.pending, this.issued, this.silent, this.sends⟩

theorem ensureRouter (h : Wired s) (acquired : Option Replica) (keys : List String)
    (caller : Caller) :
    Sends [] s (s.ensureRouter acquired true keys caller).2
      (s.ensureRouter acquired true keys caller).1 := by
  unfold Bridge.ensureRouter
  split_ifs with hrouter
  · exact h.afterRouter caller
  · have hnone : s.routerConnected = true → False := by
      intro hc
      have := h.connected hc
      simp_all
    cases acquired with
    | none =>
        have hwired : Wired { s with router := none } :=
          ⟨by simp, fun hc => (hnone hc).elim, h.frames⟩
        have := hwired.afterRouter caller
        exact this.congr rfl rfl
    | some router =>
        dsimp only
        split_ifs with hinitialized
        · have := onRouterInitialized (s := { s with router := some router }) rfl (some caller) keys
          exact this.congr rfl rfl
        · have hwired : Wired { s with router := some router } :=
            ⟨by simp [hinitialized], fun _ => rfl, h.frames⟩
          have := hwired.afterRouter caller
          exact this.congr rfl rfl

theorem callModuleAsync (h : Wired s) (module method argsJson : String) (callback : QJSValue)
    (timeoutMs : ℤ) (acquired : Option Replica) (keys : List String) :
    Sends [(s.nextCaller module method).requestId] s
      (s.callModuleAsync module method argsJson callback timeoutMs acquired true keys).2
      (s.callModuleAsync module method argsJson callback timeoutMs acquired true keys).1 := by
  have hrecord : Wired (s.record (s.nextCaller module method) argsJson callback timeoutMs) :=
    ⟨h.initialized, h.connected, h.frames⟩
  have hfrom : ∀ {os s'},
      Sends [] (s.record (s.nextCaller module method) argsJson callback timeoutMs) os s' →
      Sends [(s.nextCaller module method).requestId] s
        (.issued (s.nextCaller module method) callback :: os) s' := by
    intro os s' hs
    refine ⟨hs.wired, hs.connected, fun id hid => ?_, ?_, fun id payload hm => ?_,
      fun id hid => hs.sends id ?_⟩
    · obtain hid | hid := hs.pending id hid
      · obtain rfl | hid := AList.mem_insert _ |>.mp hid
        · exact .inr (List.mem_singleton.mpr rfl)
        · exact .inl hid
      · exact absurd hid List.not_mem_nil
    · have := hs.issued
      simp only [issuedIds] at this ⊢
      rw [List.filterMap_cons, this]
    · exact hs.silent id payload (by simpa using hm)
    · simpa [callsSent, List.countP_cons] using hid
  simp only [Bridge.callModuleAsync]
  split_ifs
  · exact hfrom (hrecord.deliver _ _)
  · exact hfrom (hrecord.ensureRouter acquired keys _)

end Wired

/-- The calls that an action issues. -/
def newIds (s : Bridge) : Action → List String
  | .callModuleAsync module method .. => [(s.nextCaller module method).requestId]
  | _ => []

/-- **Every step** the bridge takes by itself, with a router whose reply signal can be
connected. -/
theorem Wired.step {argsToJson : List QVariant → String} {a : Action} (h : Wired s)
    (hconnects : Connects a) (ha : ∀ id payload, a ≠ .onCallCompleted id payload)
    (hs : step argsToJson s a = some (s', os)) : Sends (newIds s a) s os s' := by
  cases step_cases hs with
  | callModuleAsync module method args callback timeoutMs acquired connects keys =>
      obtain rfl : connects = true := hconnects
      exact h.callModuleAsync module method (argsToJson args) callback timeoutMs acquired keys
  | initialized connects keys =>
      obtain rfl : connects = true := hconnects
      have := Wired.onRouterInitialized (s := { s with router := some ⟨true, true⟩ }) rfl none keys
      exact this.congr rfl rfl
  | connectionLost =>
      refine ⟨⟨?_, ?_, h.frames⟩, fun hc => hc, fun _ => .inl, rfl, by simp, by simp⟩
      · intro router hr hi
        obtain ⟨before, hb, rfl⟩ := Option.map_eq_some_iff.mp hr
        exact h.initialized before hb hi
      · intro hc
        simpa using h.connected hc
  | nodeDestroyed =>
      exact ⟨⟨h.initialized, h.connected, h.frames⟩, fun hc => hc, fun _ => .inl, rfl, by simp, by simp⟩
  | onCallCompleted id payload => exact absurd rfl (ha id payload)
  | timeout caller =>
      have hwired : Wired { s with timers := s.timers.erase caller } :=
        ⟨h.initialized, h.connected, h.frames⟩
      have : Sends [] _ (s.timeout caller).2 (s.timeout caller).1 := hwired.deliver _ _
      exact this.congr rfl rfl
  | ret frame stack hstack =>
      have hconnected : s.routerConnected = true := h.frames (by simp [hstack])
      have hwired : Wired { s with stack } := ⟨h.initialized, h.connected, fun _ => hconnected⟩
      exact (hwired.drain hconnected frame.caller frame.waiting).congr rfl rfl

end LogosViewRuntime.Web
