import LogosViewRuntime.DesktopOnce

/-! # Calls without a deadline

`callModuleAsync` with `timeoutMs <= 0` still waits with a timer, which is to bound the wait for
the module and never the method.  Nothing disarms it when the method is sent, so the runs in which
it does not cap a method are exactly those in which it never fires on a call that has been sent and
waits for its reply (`uncapped_iff`). -/

namespace LogosViewRuntime.Desktop

open Reactive Machine

/-- What happened, and in which step. -/
abbrev Log := List (Action × List Obs)

/-! ### The property and its condition -/

/-- The call `id` was made without a deadline. -/
def unlimited (id : ℕ) (log : Log) : Bool := log.any fun
  | (.callModuleAsync _ _ _ _ timeoutMs _, .called i :: _) => i = id && timeoutMs ≤ 0
  | _ => false

def isDispatch (id : ℕ) : Obs → Bool
  | .invokeRemoteMethodAsync i _ _ _ => i = id
  | _ => false

/-- The method of the call `id` was sent. -/
def dispatched (id : ℕ) (log : Log) : Bool := log.any fun entry => entry.2.any (isDispatch id)

/-- The module was reported ready to the call `id`. -/
def Ready (id : ℕ) (log : Log) : Prop := ∃ os, (.objectAvailable id true, os) ∈ log

/-- What may happen to calls without a deadline after `log`. -/
structure Uncapped (log : Log) (entry : Action × List Obs) : Prop where
  replied : ∀ id payload, unlimited id log = true → dispatched id log = true →
    .invoked id payload ∈ entry.2 → ∃ error result, entry.1 = .reply id error result
  unready : ∀ id payload, unlimited id log = true → entry.1 = .timeout id →
    .invoked id payload ∈ entry.2 → ¬ Ready id log

/-- The timer does not fire on a call without a deadline that was sent and is not answered. -/
def InTime (log : Log) (s : Bridge) : Action → Prop
  | .timeout id => unlimited id log = true → ∀ call ∈ s.calls[id]?, call.sent = true →
      call.fired = true ∨ call.callback.isCallable = false
  | _ => True

instance (log : Log) (s : Bridge) : (a : Action) → Decidable (InTime log s a)
  | .timeout id => inferInstanceAs (Decidable (unlimited id log = true →
      ∀ call ∈ s.calls[id]?, call.sent = true → call.fired = true ∨ call.callback.isCallable = false))
  | .callModuleAsync .. | .objectAvailable .. | .reply .. | .setViewModuleSocket _ | .destroy =>
      inferInstanceAs (Decidable True)

variable {log : Log} {s s' : Bridge} {os : List Obs} {id j : ℕ}

/-! ### What the lambdas do -/

theorem Of.of_mem_invoked (h : Of id os) {payload : String} (hm : .invoked j payload ∈ os) :
    j = id := by
  by_contra hne
  have hmem : .fire payload ∈ lifeOf j os := by
    refine List.mem_flatMap.mpr ⟨_, hm, ?_⟩
    simp [lifeEvents]
  rw [(h j hne).1] at hmem
  cases hmem

theorem Of.isDispatch (h : Of id os) (hj : j ≠ id) : os.any (isDispatch j) = false := by
  rw [List.any_eq_false]
  intro o ho hdispatch
  cases o with
  | invokeRemoteMethodAsync i _ _ _ =>
      obtain rfl : i = j := by simpa [Desktop.isDispatch] using hdispatch
      have hmem : .send ∈ lifeOf i os := List.mem_flatMap.mpr ⟨_, ho, by simp [lifeEvents]⟩
      rw [(h i hj).1] at hmem
      cases hmem
  | called _ | timerFired _ | invoked _ _ => cases hdispatch

/-- Sent is what is sent now or was before, and the latch stays shut. -/
structure Advances (id : ℕ) (call : Call) (done : Call × List Obs) : Prop where
  sent : done.1.sent = (call.sent || done.2.any (isDispatch id))
  fired : call.fired = true → done.1.fired = true

theorem advances_invokeCallback (id : ℕ) (payload : String) (call : Call) :
    Advances id call (call.invokeCallback id payload) := by
  unfold Call.invokeCallback
  split_ifs
  · exact ⟨by simp, fun h => h⟩
  · exact ⟨by simp [isDispatch], fun _ => rfl⟩
  · exact ⟨by simp, fun _ => rfl⟩

theorem advances_timeout (id : ℕ) (call : Call) : Advances id call (call.timeout id) := by
  obtain ⟨hsent, hfired⟩ := advances_invokeCallback id
    (makeErrorPayload "timeout" call.module call.method) { call with timer := none }
  exact ⟨by simpa [Call.timeout, isDispatch] using hsent, hfired⟩

theorem advances_objectAvailable (id : ℕ) (alive ready : Bool) (call : Call) :
    Advances id call (call.objectAvailable id alive ready) := by
  simp only [Call.objectAvailable, Call.dispatch]
  split_ifs with halive hfired
  · exact ⟨by simp, fun h => h⟩
  · exact ⟨by simp, fun h => h⟩
  · obtain ⟨hsent, hfired⟩ := advances_invokeCallback id (makeErrorPayload "Module not reachable"
      call.module "" "the transport reported this module permanently unavailable")
      { call with awaited := false }
    exact ⟨hsent, hfired⟩
  · exact ⟨by simp [isDispatch], fun h => absurd h hfired⟩

theorem advances_reply (serializeResult : QVariant → String) (id : ℕ) (error : Option String)
    (result : QVariant) (call : Call) :
    Advances id call (call.reply serializeResult id error result) := by
  unfold Call.reply
  split <;> exact advances_invokeCallback id _ _

theorem advances_begin (id : ℕ) (client : Bool) (timeoutMs : ℤ) (call : Call) (s : Bridge) :
    Advances id call (s.begin id client timeoutMs call) := by
  simp only [Bridge.begin]
  split_ifs
  · exact advances_invokeCallback id _ _
  · exact advances_invokeCallback id _ _
  · exact advances_invokeCallback id _ _
  · exact ⟨by simp, fun h => h⟩
  · exact ⟨by simp, fun h => h⟩

/-- A ready module is called unless the caller has been answered. -/
theorem ready_objectAvailable (id : ℕ) (call : Call) :
    (call.objectAvailable id true true).1.fired = true ∨
      (call.objectAvailable id true true).1.sent = true := by
  simp only [Call.objectAvailable, Call.dispatch]
  cases call.fired
  · exact .inr rfl
  · exact .inl rfl

/-- The callback is invoked when it is callable and the latch is open. -/
theorem mem_invokeCallback {payload payload' : String} {call : Call} :
    .invoked id payload' ∈ (call.invokeCallback id payload).2 ↔
      call.fired = false ∧ call.callback.isCallable = true ∧ payload' = payload := by
  unfold Call.invokeCallback
  cases call.fired <;> cases call.callback.isCallable <;> simp

/-! ### What the log says of a call -/

/-- The calls are as far as the log says. -/
structure Tracked (log : Log) (s : Bridge) : Prop where
  unborn : ∀ id, s.calls[id]? = none → dispatched id log = false ∧ ¬ Ready id log
  sent : ∀ id call, s.calls[id]? = some call → call.sent = dispatched id log
  ready : ∀ id call, s.calls[id]? = some call → Ready id log → s.alive = true →
    call.fired = true ∨ call.sent = true

theorem dispatched_snoc (id : ℕ) (log : Log) (a : Action) (os : List Obs) :
    dispatched id (log ++ [(a, os)]) = (dispatched id log || os.any (isDispatch id)) := by
  simp [dispatched]

theorem ready_snoc {a : Action} :
    Ready id (log ++ [(a, os)]) ↔ Ready id log ∨ a = .objectAvailable id true := by
  simp only [Ready, List.mem_append, List.mem_singleton, Prod.mk.injEq]
  constructor
  · rintro ⟨os', h | ⟨h, -⟩⟩
    · exact .inl ⟨os', h⟩
    · exact .inr h.symm
  · rintro (⟨os', h⟩ | rfl)
    · exact ⟨os', .inl h⟩
    · exact ⟨os, .inr ⟨rfl, rfl⟩⟩

namespace Tracked

theorem initial (logosAPI : Bool) : Tracked [] { logosAPI } where
  unborn _ _ := ⟨rfl, nofun⟩
  sent _ _ h := by cases h
  ready _ _ h := by cases h

/-- A step that only concerns the call `id`. -/
theorem touch (h : Tracked log s) {a : Action} (hos : Of id os)
    (hready : ∀ j, a = .objectAvailable j true → j = id)
    (hother : ∀ j ≠ id, s'.calls[j]? = s.calls[j]?) (halive : s'.alive = s.alive)
    (hself : ∃ call, s'.calls[id]? = some call ∧
      call.sent = dispatched id (log ++ [(a, os)]) ∧
      (Ready id (log ++ [(a, os)]) → s.alive = true → call.fired = true ∨ call.sent = true)) :
    Tracked (log ++ [(a, os)]) s' := by
  obtain ⟨call, hcall, hsent, hself⟩ := hself
  have hdispatched : ∀ j ≠ id, dispatched j (log ++ [(a, os)]) = dispatched j log := by
    intro j hj
    rw [dispatched_snoc, hos.isDispatch hj, Bool.or_false]
  have hnot : ∀ j ≠ id, Ready j (log ++ [(a, os)]) → Ready j log := by
    intro j hj hr
    obtain hr | he := ready_snoc.mp hr
    · exact hr
    · exact absurd (hready j he) hj
  refine ⟨fun j hj => ?_, fun j call' hj => ?_, fun j call' hj hr ha => ?_⟩
  · have hne : j ≠ id := by
      rintro rfl
      rw [hcall] at hj
      cases hj
    obtain ⟨hd, hr⟩ := h.unborn j (hother j hne ▸ hj)
    exact ⟨(hdispatched j hne).trans hd, fun hr' => hr (hnot j hne hr')⟩
  · by_cases hne : j = id
    · subst hne
      obtain rfl := Option.some.inj (hcall.symm.trans hj)
      exact hsent
    · rw [hdispatched j hne]
      exact h.sent j call' (hother j hne ▸ hj)
  · rw [halive] at ha
    by_cases hne : j = id
    · subst hne
      obtain rfl := Option.some.inj (hcall.symm.trans hj)
      exact hself hr ha
    · exact h.ready j call' (hother j hne ▸ hj) (hnot j hne hr) ha

/-- A step that concerns no call. -/
theorem quiet (h : Tracked log s) {a : Action} (hready : ∀ j, a ≠ .objectAvailable j true)
    (hcalls : s'.calls = s.calls) (halive : s'.alive = true → s.alive = true) :
    Tracked (log ++ [(a, [])]) s' := by
  have hdispatched : ∀ j, dispatched j (log ++ [(a, [])]) = dispatched j log := by
    intro j
    rw [dispatched_snoc, List.any_nil, Bool.or_false]
  have hnot : ∀ j, Ready j (log ++ [(a, [])]) → Ready j log := fun j hr =>
    (ready_snoc.mp hr).resolve_right (hready j)
  refine ⟨fun j hj => ?_, fun j call hj => ?_, fun j call hj hr ha => ?_⟩
  · obtain ⟨hd, hr⟩ := h.unborn j (hcalls ▸ hj)
    exact ⟨(hdispatched j).trans hd, fun hr' => hr (hnot j hr')⟩
  · rw [hdispatched]
    exact h.sent j call (hcalls ▸ hj)
  · exact h.ready j call (hcalls ▸ hj) (hnot j hr) (halive ha)

theorem runLambda (h : Tracked log s) {a : Action} {held : Call → Bool}
    {body : Call → Call × List Obs} (hs : s.runLambda id held body = some (s', os))
    (hof : ∀ call, Of id (body call).2) (hadvances : ∀ call, Advances id call (body call))
    (hready : ∀ j, a = .objectAvailable j true → j = id)
    (hbody : a = .objectAvailable id true → ∀ call, s.alive = true →
      (body call).1.fired = true ∨ (body call).1.sent = true) :
    Tracked (log ++ [(a, os)]) s' := by
  obtain ⟨call, hcall, -, rfl, rfl⟩ := runLambda_eq_some hs
  have hlt : id < s.calls.length := (List.getElem?_eq_some_iff.mp hcall).1
  obtain ⟨hsent, hfired⟩ := hadvances call
  refine h.touch (hof call) hready (fun j hj => List.getElem?_set_ne (Ne.symm hj)) rfl
    ⟨(body call).1, List.getElem?_set_self hlt, ?_, fun hr ha => ?_⟩
  · rw [dispatched_snoc, hsent, h.sent id call hcall]
  · obtain hr | he := ready_snoc.mp hr
    · obtain hf | hd := h.ready id call hcall hr ha
      · exact .inl (hfired hf)
      · right
        rw [hsent, hd, Bool.true_or]
    · exact hbody he call ha

/-- A new call is the next one. -/
theorem callModuleAsync (h : Tracked log s) (module method : String) (args : List QVariant)
    (callback : QJSValue) (timeoutMs : ℤ) (client : Bool) :
    Tracked (log ++ [(.callModuleAsync module method args callback timeoutMs client,
        .called s.calls.length :: (s.begin s.calls.length client timeoutMs
          { module, method, args, callback }).2)])
      { s with calls := s.calls ++
        [(s.begin s.calls.length client timeoutMs { module, method, args, callback }).1] } := by
  obtain ⟨hd, hr⟩ := h.unborn s.calls.length (List.getElem?_eq_none le_rfl)
  refine h.touch (of_begin s.calls.length client timeoutMs _ s) (by simp) (fun j hj => ?_) rfl
    ⟨(s.begin s.calls.length client timeoutMs { module, method, args, callback }).1,
      by simp, ?_, fun hr' => ?_⟩
  · obtain hlt | hge := Nat.lt_or_ge j s.calls.length
    · exact List.getElem?_append_left hlt
    · rw [List.getElem?_eq_none (l := s.calls) hge, List.getElem?_eq_none]
      simp only [List.length_append, List.length_singleton]
      omega
  · rw [dispatched_snoc, hd, (advances_begin s.calls.length client timeoutMs _ s).sent]
    simp [isDispatch]
  · obtain hr' | he := ready_snoc.mp hr'
    · exact absurd hr' hr
    · cases he

theorem step {serializeResult : QVariant → String} {a : Action} (h : Tracked log s)
    (hs : step serializeResult s a = some (s', os)) : Tracked (log ++ [(a, os)]) s' := by
  cases a with
  | callModuleAsync module method args callback timeoutMs client =>
      obtain ⟨-, rfl, rfl⟩ := Machine.taken_if hs
      exact h.callModuleAsync module method args callback timeoutMs client
  | timeout id =>
      exact h.runLambda hs (of_timeout id) (advances_timeout id) (by simp) (by simp)
  | objectAvailable id ready =>
      refine h.runLambda hs (of_objectAvailable id s.alive ready)
        (advances_objectAvailable id s.alive ready) (fun j he => ?_) fun he call ha => ?_
      · exact (Action.objectAvailable.inj he).1.symm
      · obtain ⟨-, rfl⟩ := Action.objectAvailable.inj he
        rw [ha]
        exact ready_objectAvailable id call
  | reply id error result =>
      exact h.runLambda hs (of_reply serializeResult id error result)
        (advances_reply serializeResult id error result) (by simp) (by simp)
  | setViewModuleSocket module =>
      obtain ⟨-, rfl, rfl⟩ := Machine.taken_if hs
      exact h.quiet (by simp) rfl id
  | destroy =>
      obtain ⟨-, rfl, rfl⟩ := Machine.taken_if hs
      exact h.quiet (by simp) rfl (by simp)

end Tracked

/-! ### Runs -/

section run

variable {serializeResult : QVariant → String} {logosAPI : Bool}

theorem run_tracked {G : Log → Bridge → Action → Prop}
    (h : (machine serializeResult logosAPI).logged.Run G log s) : Tracked log s := by
  refine h.invariant (I := Tracked) (Tracked.initial logosAPI) fun {_ _ a _ _} hi _ hs => ?_
  obtain ⟨os, hos, rfl⟩ := logged_step.mp hs
  exact hi.step hos

/-- A lambda that answers a call which was not sent, or that is no timer. -/
theorem uncapped_of {a : Action} (hof : Of id os) (hdispatched : dispatched id log = false)
    (hnot : ∀ j, a ≠ .timeout j) : Uncapped log (a, os) where
  replied j payload _ hd hm := by
    obtain rfl := hof.of_mem_invoked hm
    rw [hdispatched] at hd
    cases hd
  unready j payload _ he := absurd he (hnot j)

/-- The timer caps a call that was sent and is not answered. -/
theorem uncapped_timeout_iff (htracked : Tracked log s)
    (hs : step serializeResult s (.timeout id) = some (s', os)) :
    Uncapped log (.timeout id, os) ↔ InTime log s (.timeout id) := by
  obtain ⟨call, hcall, hheld, rfl, rfl⟩ := runLambda_eq_some hs
  have halive : s.alive = true := (Bool.and_eq_true_iff.mp hheld).1
  have hinvoked : ∀ j payload, .invoked j payload ∈ (call.timeout id).2 →
      j = id ∧ call.fired = false ∧ call.callback.isCallable = true := by
    intro j payload hm
    obtain rfl := (of_timeout id call).of_mem_invoked hm
    obtain ⟨hfired, hcallable, -⟩ := mem_invokeCallback.mp (List.mem_of_ne_of_mem (by simp) hm)
    exact ⟨rfl, hfired, hcallable⟩
  have hcondition : InTime log s (.timeout id) ↔ (unlimited id log = true →
      call.sent = true → call.fired = true ∨ call.callback.isCallable = false) := by
    refine ⟨fun h hu => h hu call hcall, fun h hu call' hcall' => ?_⟩
    obtain rfl := Option.some.inj (hcall.symm.trans hcall')
    exact h hu
  rw [hcondition]
  constructor
  · -- the timer would answer a call that was sent
    intro h hu hsent
    by_contra hopen
    simp only [not_or, Bool.not_eq_true, Bool.not_eq_false] at hopen
    have hd := (htracked.sent id call hcall).symm.trans hsent
    obtain ⟨error, result, he⟩ := h.replied id (makeErrorPayload "timeout" call.module call.method)
      hu hd (List.mem_cons_of_mem _ (mem_invokeCallback.mpr ⟨hopen.1, hopen.2, rfl⟩))
    cases he
  · intro h
    have hcapped : ∀ j payload, unlimited j log = true →
        .invoked j payload ∈ (call.timeout id).2 → call.sent = false ∧ call.fired = false := by
      intro j payload hu hm
      obtain ⟨rfl, hfired, hcallable⟩ := hinvoked j payload hm
      refine ⟨Bool.eq_false_iff.mpr fun hsent => ?_, hfired⟩
      obtain hf | hc := h hu hsent
      · exact Bool.false_ne_true (hfired.symm.trans hf)
      · exact Bool.false_ne_true (hc.symm.trans hcallable)
    constructor
    · intro j payload hu hd hm
      obtain ⟨rfl, -⟩ := hinvoked j payload hm
      rw [← htracked.sent _ call hcall, (hcapped _ payload hu hm).1] at hd
      cases hd
    · intro j payload hu _ hm hr
      obtain ⟨rfl, -⟩ := hinvoked j payload hm
      obtain ⟨hsent, hfired⟩ := hcapped _ payload hu hm
      obtain hf | hd := htracked.ready _ call hcall hr halive
      · exact Bool.false_ne_true (hfired.symm.trans hf)
      · exact Bool.false_ne_true (hsent.symm.trans hd)

/-- What is sent is sent, unless the timer caps it. -/
theorem uncapped_step_iff {a : Action} (htracked : Tracked log s)
    (hunsent : ∀ (id : ℕ) (call : Call), s.calls[id]? = some call → call.awaited = true →
      call.sent = false)
    (hs : step serializeResult s a = some (s', os)) :
    Uncapped log (a, os) ↔ InTime log s a := by
  cases a with
  | callModuleAsync module method args callback timeoutMs client =>
      obtain ⟨-, rfl, rfl⟩ := Machine.taken_if hs
      refine iff_of_true
        (uncapped_of (of_begin s.calls.length client timeoutMs _ s) ?_ (by simp)) trivial
      exact (htracked.unborn _ (List.getElem?_eq_none le_rfl)).1
  | timeout id => exact uncapped_timeout_iff htracked hs
  | objectAvailable id ready =>
      obtain ⟨call, hcall, hheld, rfl, rfl⟩ := runLambda_eq_some hs
      refine iff_of_true
        (uncapped_of (of_objectAvailable id s.alive ready call) ?_ (by simp)) trivial
      rw [← htracked.sent id call hcall]
      exact hunsent id call hcall hheld
  | reply id error result =>
      obtain ⟨call, hcall, hheld, rfl, rfl⟩ := runLambda_eq_some hs
      refine iff_of_true ⟨fun j payload _ _ hm => ?_, by simp⟩ trivial
      obtain rfl := (of_reply serializeResult id error result call).of_mem_invoked hm
      exact ⟨error, result, rfl⟩
  | setViewModuleSocket module =>
      obtain ⟨-, rfl, rfl⟩ := Machine.taken_if hs
      exact iff_of_true ⟨by simp, by simp⟩ trivial
  | destroy =>
      obtain ⟨-, rfl, rfl⟩ := Machine.taken_if hs
      exact iff_of_true ⟨by simp, by simp⟩ trivial

/-- **A call without a deadline is answered by its reply only** once it was sent, and by its timer
only if its module was not ready, in exactly the runs in which the timer fires on no call that was
sent and is not answered. -/
theorem uncapped_iff (serializeResult : QVariant → String) (logosAPI : Bool) :
    (∀ log s, (machine serializeResult logosAPI).logged.Run InTime log s → Each Uncapped log) ∧
      ∀ log s, (machine serializeResult logosAPI).logged.Run
        ((machine serializeResult logosAPI).logged.keeps fun log _ => Each Uncapped log) log s →
          (machine serializeResult logosAPI).logged.Run InTime log s := by
  refine Run.exact_always (P := fun log _ => Each Uncapped log) (each_nil _)
    fun {_ _ a _ _} hrun hP hs => ?_
  obtain ⟨os, hos, rfl⟩ := logged_step.mp hs
  rw [each_snoc, and_iff_right hP]
  exact uncapped_step_iff (run_tracked hrun)
    (fun id call hcall => ((run_once hrun.unlogged).latched id call hcall).unsent) hos

end run

/-- One call is answered before its timer fires, the module of another never becomes ready. -/
theorem answered_in_time : ∃ log s, (machine (fun _ => "5") true).logged.Run InTime log s ∧
    Each Uncapped log ∧ invocations 0 (log.flatMap (·.2)) = ["5"] ∧
    invocations 1 (log.flatMap (·.2)) = [makeErrorPayload "timeout" "chat" "list"] := by
  have h := Machine.exec_run (M := (machine (fun _ => "5") true).logged) (G := InTime)
    [.callModuleAsync "wallet" "send" [] ⟨1, true⟩ 0 true,
      .callModuleAsync "chat" "list" [] ⟨2, true⟩ (-1) true, .objectAvailable 0 true,
      .reply 0 none (.int 5), .timeout 0, .timeout 1] rfl
  exact ⟨_, _, h, (uncapped_iff (fun _ => "5") true).1 _ _ h, rfl, rfl⟩

/-- A method that takes longer than the wait may last is answered with a timeout. -/
theorem slow_method_is_capped : ∃ log s,
    (machine (fun _ => "5") true).logged.Run Machine.always log s ∧ ¬ Each Uncapped log ∧
    invocations 0 (log.flatMap (·.2)) = [makeErrorPayload "timeout" "wallet" "send"] := by
  have h := Machine.exec_run (M := (machine (fun _ => "5") true).logged) (G := Machine.always)
    [.callModuleAsync "wallet" "send" [] ⟨1, true⟩ 0 true, .objectAvailable 0 true, .timeout 0,
      .reply 0 none (.int 5)] rfl
  refine ⟨_, _, h, fun hcapped => ?_, rfl⟩
  obtain ⟨hreplied, -⟩ := hcapped (List.take 2 _) _ _ (List.take_append_drop 2 _).symm
  obtain ⟨error, result, he⟩ := hreplied 0 _ rfl rfl (List.mem_cons_of_mem _ List.mem_cons_self)
  cases he

end LogosViewRuntime.Desktop
