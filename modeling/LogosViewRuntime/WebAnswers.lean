import LogosViewRuntime.ErrorEnvelope
import LogosViewRuntime.WebMatch

/-! # What a view is answered

A callback is handed a string, and the view parses it.  Between the view's call and that string are
three places that make one up when there is no answer: the bridge's deadline, the bridge without a
backend and the router without a handler.  Whoever made it up, it reads as an error about a call
that was made with that id, and everything else is what the host's handler answered
(`answers_readable`).  Nothing is assumed about the ids, so this holds where bridges share them, too;
only about the router's error the view may then be told of somebody else's call. -/

namespace LogosViewRuntime

open Reactive

namespace Web

/-! ### What a bridge knows of its calls -/

/-- Every call the bridge still keeps anything of is one of `P`. -/
structure Knows (P : Caller → Prop) (s : Bridge) : Prop where
  pending : ∀ id pending, s.pending.lookup id = some pending →
    P ⟨id, pending.module, pending.method⟩
  timers : ∀ caller ∈ s.timers, P caller
  frames : ∀ frame ∈ s.stack, ∀ caller ∈ frame.caller, P caller

/-- The payload is the one that was given, or an error payload of the bridge's own. -/
def Vouched (P : Caller → Prop) (given : Option (String × String)) (id payload : String) : Prop :=
  given = some (id, payload) ∨
    ∃ caller, caller.requestId = id ∧ P caller ∧ payload ∈ ownErrors caller

/-- What is sent is one of `P`, and what is answered is vouched for. -/
def Allowed (P : Caller → Prop) (given : Option (String × String)) : Obs → Prop
  | .call id module method _ _ _ => P ⟨id, module, method⟩
  | .invoked id payload => Vouched P given id payload
  | _ => True

/-- What comes of a function that is called with what it may know. -/
def Honest (P : Caller → Prop) (given : Option (String × String)) (done : Bridge × List Obs) :
    Prop := Knows P done.1 ∧ ∀ o ∈ done.2, Allowed P given o

/-- The payload a step is given from outside. -/
def given : Action → Option (String × String)
  | .onCallCompleted id payload => some (id, payload)
  | _ => none

variable {P Q : Caller → Prop} {s s' : Bridge} {os : List Obs} {g : Option (String × String)}

namespace Knows

theorem initial (P : Caller → Prop) (node : Bool) : Knows P { node } where
  pending _ _ h := by cases h
  timers := by simp
  frames := by simp

theorem mono (h : Knows P s) (hPQ : ∀ caller, P caller → Q caller) : Knows Q s where
  pending id pending hl := hPQ _ (h.pending id pending hl)
  timers caller hm := hPQ _ (h.timers caller hm)
  frames frame hf caller hc := hPQ _ (h.frames frame hf caller hc)

/-- The router is none of it. -/
theorem congr (h : Knows P s) (hpending : s'.pending = s.pending) (htimers : s'.timers = s.timers)
    (hstack : s'.stack = s.stack) : Knows P s' :=
  ⟨hpending ▸ h.pending, htimers ▸ h.timers, hstack ▸ h.frames⟩

theorem quiet (h : Knows P s) : Honest P g (s, []) := ⟨h, by simp⟩

theorem deliver (h : Knows P s) {id payload : String} (hpayload : Vouched P g id payload) :
    Honest P g (s.deliver id payload) := by
  unfold Bridge.deliver
  cases hlookup : s.pending.lookup id with
  | none => exact h.quiet
  | some pending =>
      refine ⟨⟨fun i p hl => ?_, h.timers, h.frames⟩, ?_⟩
      · by_cases hi : i = id
        · subst hi
          rw [AList.lookup_erase] at hl
          cases hl
        · rw [AList.lookup_erase_ne hi] at hl
          exact h.pending i p hl
      · cases pending.callback.isCallable <;> simp [Allowed, hpayload]

theorem dispatch (h : Knows P s) {id module method : String} {pending : PendingCall}
    (hpending : P ⟨id, pending.module, pending.method⟩) (hcall : P ⟨id, module, method⟩) :
    Honest P g (s.dispatch id pending module method) := by
  refine ⟨⟨fun i p hl => ?_, h.timers, h.frames⟩, by simpa [Bridge.dispatch, Allowed] using hcall⟩
  simp only [Bridge.dispatch] at hl
  by_cases hi : i = id
  · subst hi
    rw [AList.lookup_insert] at hl
    obtain rfl := Option.some.inj hl
    exact hpending
  · rw [AList.lookup_insert_ne hi] at hl
    exact h.pending i p hl

theorem afterRouter (h : Knows P s) {caller : Caller} (hcaller : P caller) :
    Honest P g (s.afterRouter caller) := by
  unfold Bridge.afterRouter
  split
  · exact h.deliver (.inr ⟨caller, rfl, hcaller, by simp [ownErrors]⟩)
  · split
    · exact h.quiet
    · rename_i pending hlookup
      split_ifs
      · exact h.quiet
      · exact h.quiet
      · exact h.dispatch (h.pending _ _ hlookup) hcaller

theorem resume (h : Knows P s) {caller : Option Caller} (hcaller : ∀ c ∈ caller, P c) :
    Honest P g (s.resume caller) := by
  cases caller with
  | none => exact h.quiet
  | some caller => exact h.afterRouter (hcaller caller rfl)

theorem drain (h : Knows P s) {caller : Option Caller} (hcaller : ∀ c ∈ caller, P c)
    (waiting : List String) : Honest P g (s.drain caller waiting) := by
  induction waiting with
  | nil => exact h.resume hcaller
  | cons id waiting ih =>
      rw [Bridge.drain]
      split
      · exact ih
      · rename_i pending hlookup
        split_ifs
        · exact ih
        · have hpushed : Knows P { s with stack := ⟨waiting, caller⟩ :: s.stack } := by
            refine ⟨h.pending, h.timers, fun frame hf => ?_⟩
            obtain rfl | hf := List.mem_cons.mp hf
            · exact hcaller
            · exact h.frames frame hf
          exact hpushed.dispatch (h.pending id pending hlookup) (h.pending id pending hlookup)

theorem onRouterInitialized (h : Knows P s) {caller : Option Caller} (hcaller : ∀ c ∈ caller, P c)
    (connects : Bool) (keys : List String) :
    Honest P g (s.onRouterInitialized connects keys caller) := by
  unfold Bridge.onRouterInitialized
  split_ifs
  · exact h.resume hcaller
  · exact (h.congr rfl rfl rfl : Knows P { s with routerConnected := true }).drain hcaller keys

theorem ensureRouter (h : Knows P s) {caller : Caller} (hcaller : P caller)
    (acquired : Option Replica) (connects : Bool) (keys : List String) :
    Honest P g (s.ensureRouter acquired connects keys caller) := by
  unfold Bridge.ensureRouter
  split_ifs
  · exact h.afterRouter hcaller
  · have hacquired : Knows P { s with router := acquired } := h.congr rfl rfl rfl
    dsimp only
    split
    · exact hacquired.afterRouter hcaller
    · split_ifs
      · exact hacquired.onRouterInitialized (fun c hc => by cases hc; exact hcaller) connects keys
      · exact hacquired.afterRouter hcaller

theorem record (h : Knows P s) {caller : Caller} (hcaller : P caller) (argsJson : String)
    (callback : QJSValue) (timeoutMs : ℤ) : Knows P (s.record caller argsJson callback timeoutMs) := by
  refine ⟨fun id pending hl => ?_, fun c hc => ?_, h.frames⟩
  · simp only [Bridge.record] at hl
    by_cases hid : id = caller.requestId
    · subst hid
      rw [AList.lookup_insert] at hl
      obtain rfl := Option.some.inj hl
      exact hcaller
    · rw [AList.lookup_insert_ne hid] at hl
      exact h.pending id pending hl
  · simp only [Bridge.record] at hc
    split_ifs at hc
    · obtain rfl | hc := List.mem_cons.mp hc
      · exact hcaller
      · exact h.timers c hc
    · exact h.timers c hc

theorem callModuleAsync (h : Knows P s) {module method : String}
    (hcaller : P (s.nextCaller module method)) (argsJson : String) (callback : QJSValue)
    (timeoutMs : ℤ) (acquired : Option Replica) (connects : Bool) (keys : List String) :
    Honest P g
      (s.callModuleAsync module method argsJson callback timeoutMs acquired connects keys) := by
  have hrecord := h.record hcaller argsJson callback timeoutMs
  have hissued : ∀ done : Bridge × List Obs, Honest P g done →
      Honest P g (done.1, .issued (s.nextCaller module method) callback :: done.2) :=
    fun done hdone => ⟨hdone.1, List.forall_mem_cons.mpr ⟨trivial, hdone.2⟩⟩
  unfold Bridge.callModuleAsync
  apply hissued
  split_ifs
  · exact hrecord.deliver (.inr ⟨_, rfl, hcaller, by simp [ownErrors]⟩)
  · exact hrecord.ensureRouter hcaller acquired connects keys

/-- **Every step** adds the call it makes to those it knows. -/
theorem step {argsToJson : List QVariant → String} {a : Action} (h : Knows P s)
    (hs : step argsToJson s a = some (s', os)) :
    Honest (fun caller => P caller ∨ Issued caller os) (given a) (s', os) := by
  have hmono : ∀ {r : Bridge}, Knows P r → Knows (fun caller => P caller ∨ Issued caller os) r :=
    fun hr => hr.mono fun _ => .inl
  cases step_cases hs with
  | callModuleAsync module method args callback timeoutMs acquired connects keys =>
      have hcaller : P (s.nextCaller module method) ∨ Issued (s.nextCaller module method)
          (s.callModuleAsync module method (argsToJson args) callback timeoutMs acquired connects
            keys).2 := .inr ⟨callback, List.mem_cons_self⟩
      exact (hmono h).callModuleAsync hcaller (argsToJson args) callback timeoutMs acquired connects
        keys
  | initialized connects keys =>
      have hrouter : Knows _ { s with router := some ⟨true, true⟩ } := (hmono h).congr rfl rfl rfl
      exact hrouter.onRouterInitialized (fun _ hc => by cases hc) connects keys
  | connectionLost => exact ⟨(hmono h).congr rfl rfl rfl, by simp⟩
  | nodeDestroyed => exact ⟨(hmono h).congr rfl rfl rfl, by simp⟩
  | onCallCompleted id payload =>
      have hdeliver := (hmono h).deliver (g := some (id, payload)) (.inl rfl)
      exact ⟨hdeliver.1, List.forall_mem_cons.mpr ⟨trivial, hdeliver.2⟩⟩
  | timeout caller hm =>
      have hknown := hmono h
      have herased : Knows _ { s with timers := s.timers.erase caller } :=
        ⟨hknown.pending, fun c hc => hknown.timers c (List.mem_of_mem_erase hc), hknown.frames⟩
      exact herased.deliver (.inr ⟨caller, rfl, hknown.timers caller hm, by simp [ownErrors]⟩)
  | ret frame stack hstack =>
      have hknown := hmono h
      have hpopped : Knows _ { s with stack } :=
        ⟨hknown.pending, hknown.timers, fun f hf => hknown.frames f (by simp [hstack, hf])⟩
      exact hpopped.drain (hknown.frames frame (by simp [hstack])) frame.waiting

end Knows

/-- Who may know more may say more. -/
theorem Honest.mono {done : Bridge × List Obs} (h : Honest P g done)
    (hPQ : ∀ caller, P caller → Q caller) : Honest Q g done := by
  refine ⟨h.1.mono hPQ, fun o ho => ?_⟩
  have hallowed := h.2 o ho
  cases o with
  | call id module method argsJson live connected => exact hPQ _ hallowed
  | invoked id payload =>
      exact hallowed.imp_right fun ⟨caller, hid, hP, hown⟩ => ⟨caller, hid, hPQ caller hP, hown⟩
  | _ => trivial

end Web

namespace CallRouter

/-- The labels of a run and what was observed. -/
abbrev Log := List (Action × List Obs)

/-- The bridge `b` made that call. -/
def Made (b : ℕ) (caller : Web.Caller) (log : Log) : Prop :=
  ∃ e ∈ log, ∃ callback, .bridge b (.issued caller callback) ∈ e.2

/-- The host's handler completed a call of that id with that payload. -/
def Handled (id payload : String) (log : Log) : Prop :=
  ∃ e ∈ log, ∃ call : Call, call.requestId = id ∧
    (e.1 = .complete call payload ∨ e.1 = .completeAgain call payload)

/-- The host installs its handler. -/
def installs : Action → Bool
  | .setHandler handler => handler
  | _ => false

/-- The payload reads as an error about that call. -/
structure Explains (caller : Web.Caller) (payload : String) : Prop where
  error : field "error" payload ∈
    [some "Call timed out", some "No backend", some "No backend router"]
  module : (field "module" payload).getD "" = caller.module
  method : (field "method" payload).getD "" = caller.method

/-- Where an answer to the bridge `b` may come from. -/
def Answers (b : ℕ) (id payload : String) (log : Log) : Prop :=
  Handled id payload log ∨ ∃ b' caller, caller.requestId = id ∧ Made b' caller log ∧
    Explains caller payload ∧ (b' = b ∨ field "error" payload = some "No backend router")

/-- The error of a router without a handler, about a call that was made. -/
def Refused (id payload : String) (log : Log) : Prop :=
  ∃ b caller, caller.requestId = id ∧ Made b caller log ∧ payload = Web.noBackendRouter caller

variable {log : Log} {e : Action × List Obs} {s s' : System}

theorem Made.snoc {b : ℕ} {caller : Web.Caller} (h : Made b caller log) :
    Made b caller (log ++ [e]) :=
  let ⟨e', hm, hissued⟩ := h
  ⟨e', List.mem_append_left _ hm, hissued⟩

theorem Handled.snoc {id payload : String} (h : Handled id payload log) :
    Handled id payload (log ++ [e]) :=
  let ⟨e', hm, hcall⟩ := h
  ⟨e', List.mem_append_left _ hm, hcall⟩

theorem Refused.snoc {id payload : String} (h : Refused id payload log) :
    Refused id payload (log ++ [e]) :=
  let ⟨b, caller, hid, hmade, hpayload⟩ := h
  ⟨b, caller, hid, hmade.snoc, hpayload⟩

theorem getD_left_out (s : String) : (if s = "" then none else some s).getD "" = s := by
  split_ifs with hs
  · exact hs.symm
  · rfl

/-- A bridge's own error payloads name the call. -/
theorem explains_of_mem_ownErrors {caller : Web.Caller} {payload : String}
    (h : payload ∈ Web.ownErrors caller) : Explains caller payload := by
  have hfields : ∀ error detail,
      some error ∈ [some "Call timed out", some "No backend", some "No backend router"] →
      Explains caller (makeErrorPayload error caller.module caller.method detail) := by
    intro error detail hm
    obtain ⟨herror, hmodule, hmethod, -⟩ :=
      field_makeErrorPayload error caller.module caller.method detail
    exact ⟨herror ▸ hm, by rw [hmodule, getD_left_out], by rw [hmethod, getD_left_out]⟩
  simp only [Web.ownErrors, List.mem_cons, List.not_mem_nil, or_false] at h
  obtain rfl | rfl | rfl := h
  · exact hfields _ _ (by simp)
  · exact hfields _ _ (by simp)
  · exact hfields _ _ (by simp)

theorem Refused.answers {id payload : String} (h : Refused id payload log) (b : ℕ) :
    Answers b id payload log := by
  obtain ⟨b', caller, hid, hmade, rfl⟩ := h
  exact .inr ⟨b', caller, hid, hmade, explains_of_mem_ownErrors (by simp [Web.ownErrors]),
    .inr (field_makeErrorPayload ..).1⟩

/-! ### What is under way -/

/-- Calls that are under way or handled were made, and replies were completed by the handler or
refused by the router. -/
structure Accounted (log : Log) (s : System) : Prop where
  bridges : ∀ b bridge, s.bridges.lookup b = some bridge →
    Web.Knows (fun caller => Made b caller log) bridge
  calls : ∀ call ∈ s.calls ++ s.handling ++ s.handled,
    Made call.bridge ⟨call.requestId, call.module, call.method⟩ log
  replies : ∀ reply ∈ s.replies,
    Handled reply.requestId reply.payload log ∨ Refused reply.requestId reply.payload log
  unhandled : (∀ e ∈ log, installs e.1 = false) →
    s.router.handler = false ∧ s.handling = [] ∧ s.handled = []

theorem Accounted.initial : Accounted [] {} where
  bridges b bridge h := by cases h
  calls := by simp
  replies := by simp
  unhandled _ := ⟨rfl, rfl, rfl⟩

namespace Accounted

theorem snoc (h : Accounted log s) : Accounted (log ++ [e]) s where
  bridges b bridge hl := (h.bridges b bridge hl).mono fun _ => Made.snoc
  calls call hm := (h.calls call hm).snoc
  replies reply hm := (h.replies reply hm).imp Handled.snoc Refused.snoc
  unhandled hall := h.unhandled fun e' hm => hall e' (List.mem_append_left _ hm)

theorem createBridge (h : Accounted log s) (node : Bool) : Accounted log
    { s with bridges := s.bridges.insert s.created { node }, created := s.created + 1 } := by
  refine { h with bridges := fun b bridge hl => ?_ }
  by_cases hb : b = s.created
  · subst hb
    rw [AList.lookup_insert] at hl
    obtain rfl := Option.some.inj hl
    exact Web.Knows.initial _ node
  · rw [AList.lookup_insert_ne hb] at hl
    exact h.bridges b bridge hl

theorem destroyBridge (h : Accounted log s) (b : ℕ) :
    Accounted log { s with bridges := s.bridges.erase b } := by
  refine { h with bridges := fun b' bridge hl => ?_ }
  by_cases hb : b' = b
  · subst hb
    rw [AList.lookup_erase] at hl
    cases hl
  · rw [AList.lookup_erase_ne hb] at hl
    exact h.bridges b' bridge hl

/-- A bridge goes on, with what it may know of its calls. -/
theorem run (h : Accounted log s) {b : ℕ} {done : Web.Bridge × List Web.Obs}
    {g : Option (String × String)} (hdone : Web.Honest (fun caller => Made b caller log) g done) :
    Accounted log (s.run b done).1 := by
  refine ⟨fun b' bridge hl => ?_, fun call hm => ?_, h.replies, h.unhandled⟩
  · by_cases hb : b' = b
    · subst hb
      obtain rfl := Option.some.inj (lookup_run.symm.trans hl)
      exact hdone.1
    · rw [lookup_run_ne hb] at hl
      exact h.bridges b' bridge hl
  · simp only [System.run, List.append_assoc, List.mem_append] at hm
    obtain hm | hm | hm := hm
    · exact h.calls call (by simp [hm])
    · -- only what the step sent is new
      obtain ⟨o, ho, he⟩ := List.mem_filterMap.mp hm
      cases o with
      | call id module method argsJson live connected =>
          cases live with
          | false => cases he
          | true =>
              obtain rfl := Option.some.inj he
              exact hdone.2 _ ho
      | _ => cases he
    · exact h.calls call (by simpa using .inr hm)

/-- A completion is put under way to every replica. -/
theorem broadcast (h : Accounted log s) {id payload : String}
    (hpayload : Handled id payload log ∨ Refused id payload log) :
    Accounted log (s.broadcast id payload) := by
  refine { h with replies := fun reply hm => ?_ }
  obtain hm | hm := List.mem_append.mp hm
  · exact h.replies reply hm
  · obtain ⟨b, -, rfl⟩ := List.mem_map.mp hm
    exact hpayload

/-- The host calls `complete`. -/
theorem complete (h : Accounted log s) {id payload : String} (hpayload : Handled id payload log) :
    Accounted log (s.complete id payload) := by
  have hrouter : Accounted log { s with router := (s.router.complete id).1 } := by
    refine { h with unhandled := fun hall => ?_ }
    obtain ⟨hhandler, hrest⟩ := h.unhandled hall
    refine ⟨?_, hrest⟩
    unfold LogosWebCallRouter.complete
    split_ifs <;> exact hhandler
  unfold System.complete
  dsimp only
  split_ifs
  · exact hrouter.broadcast (.inl hpayload)
  · exact hrouter

theorem receiveCall (h : Accounted log s) {call : Call} (hm : call ∈ s.calls) :
    Accounted log (s.receiveCall call).1 := by
  have hmade := h.calls call (by simp [hm])
  have hcalls : ∀ c ∈ s.calls.erase call ++ s.handling ++ s.handled,
      Made c.bridge ⟨c.requestId, c.module, c.method⟩ log := by
    intro c hc
    simp only [List.append_assoc, List.mem_append] at hc
    obtain hc | hc := hc
    · exact h.calls c (by simp [List.mem_of_mem_erase hc])
    · exact h.calls c (by simpa using .inr hc)
  unfold System.receiveCall
  by_cases hid : call.requestId = ""
  · have hignored : s.router.call call.requestId call.module call.method = (s.router, .ignored) := by
      simp [LogosWebCallRouter.call, hid]
    simp only [hignored]
    exact ⟨h.bridges, hcalls, h.replies, h.unhandled⟩
  · cases hhandler : s.router.handler with
    | false =>
        simp only [LogosWebCallRouter.call_unhandled hid hhandler]
        have herased : Accounted log { s with
            router := { s.router with
              inFlight := (insert call.requestId s.router.inFlight).erase call.requestId }
            calls := s.calls.erase call } :=
          ⟨h.bridges, hcalls, h.replies, h.unhandled⟩
        exact herased.broadcast (.inr ⟨call.bridge, _, rfl, hmade, rfl⟩)
    | true =>
        simp only [LogosWebCallRouter.call_handled hid hhandler]
        refine ⟨h.bridges, fun c hc => ?_, h.replies, fun hall => ?_⟩
        · simp only [List.append_assoc, List.mem_append, List.mem_cons] at hc
          obtain hc | (rfl | hc) | hc := hc
          · exact hcalls c (by simp [hc])
          · exact hmade
          · exact hcalls c (by simp [hc])
          · exact hcalls c (by simp [hc])
        · rw [(h.unhandled hall).1] at hhandler
          cases hhandler

end Accounted

/-! ### Whole runs -/

/-- What a bridge answers of what it was given or made up itself is accounted for. -/
theorem answers_of_honest {b : ℕ} {done : Web.Bridge × List Web.Obs}
    {g : Option (String × String)}
    (hdone : Web.Honest (fun caller => Made b caller log) g done)
    (hg : ∀ id payload, g = some (id, payload) → Answers b id payload log) :
    ∀ b' id payload, .bridge b' (.invoked id payload) ∈ done.2.map (Obs.bridge b) →
      Answers b' id payload log := by
  intro b' id payload hm
  obtain ⟨o, ho, he⟩ := List.mem_map.mp hm
  obtain ⟨rfl, rfl⟩ := Obs.bridge.inj he
  obtain hgiven | ⟨caller, hid, hmade, hown⟩ := hdone.2 _ ho
  · exact hg id payload hgiven
  · exact .inr ⟨b, caller, hid, hmade, explains_of_mem_ownErrors hown, .inl rfl⟩

/-- One step, with the log that shows it. -/
theorem Accounted.step {argsToJson : List QVariant → String} {a : Action} {os : List Obs}
    (h : Accounted log s) (hs : step argsToJson s a = some (s', os)) :
    Accounted (log ++ [(a, os)]) s' ∧
      ∀ b id payload, .bridge b (.invoked id payload) ∈ os →
        Answers b id payload (log ++ [(a, os)]) := by
  have hlogged : Accounted (log ++ [(a, os)]) s := h.snoc
  cases a with
  | createBridge node =>
      obtain ⟨rfl, rfl⟩ := Prod.mk.inj (Option.some.inj hs)
      exact ⟨hlogged.createBridge node, by simp⟩
  | destroyBridge b =>
      obtain ⟨rfl, rfl⟩ := Prod.mk.inj (Option.some.inj hs)
      exact ⟨hlogged.destroyBridge b, by simp⟩
  | bridge b a =>
      have hself : ∀ id payload, a ≠ .onCallCompleted id payload := by
        rintro id payload rfl
        cases hs
      obtain ⟨bridge, hl, os', bridge', hstep, hrun⟩ := step_bridge hself hs
      obtain ⟨rfl, rfl⟩ := Prod.mk.inj hrun
      have hdone := ((h.bridges b bridge hl).step hstep).mono (Q := fun caller =>
        Made b caller (log ++ [(.bridge b a, os'.map (.bridge b))])) <| by
          rintro caller (hmade | ⟨callback, hissued⟩)
          · exact hmade.snoc
          · exact ⟨_, List.mem_append_right _ (List.mem_singleton.mpr rfl), callback,
              List.mem_map_of_mem hissued⟩
      refine ⟨hlogged.run hdone, answers_of_honest hdone fun id payload hgiven => ?_⟩
      cases a with
      | onCallCompleted id' payload' => exact absurd rfl (hself id' payload')
      | _ => cases hgiven
  | setHandler handler =>
      obtain ⟨rfl, rfl⟩ := Prod.mk.inj (Option.some.inj hs)
      refine ⟨{ hlogged with unhandled := fun hall => ?_ }, by simp⟩
      exact ⟨hall _ (List.mem_append_right _ (List.mem_singleton.mpr rfl)),
        (hlogged.unhandled hall).2⟩
  | receiveCall call =>
      obtain ⟨hm, rfl, rfl⟩ := Machine.taken_if hs
      refine ⟨hlogged.receiveCall hm, fun b id payload ho => ?_⟩
      unfold System.receiveCall at ho
      dsimp only at ho
      split at ho <;> simp at ho
  | complete call payload =>
      obtain ⟨hm, rfl, rfl⟩ := Machine.taken_if hs
      have hmoved : Accounted (log ++ [(.complete call payload,
          [.completed call.bridge call.requestId payload])])
          { s with handling := s.handling.erase call, handled := call :: s.handled } := by
        refine { hlogged with calls := fun c hc => ?_, unhandled := fun hall => ?_ }
        · simp only [List.append_assoc, List.mem_append, List.mem_cons] at hc
          obtain hc | hc | rfl | hc := hc
          · exact hlogged.calls c (by simp [hc])
          · exact hlogged.calls c (by simp [List.mem_of_mem_erase hc])
          · exact hlogged.calls c (by simp [hm])
          · exact hlogged.calls c (by simp [hc])
        · rw [(hlogged.unhandled hall).2.1] at hm
          cases hm
      exact ⟨hmoved.complete ⟨_, List.mem_append_right _ (List.mem_singleton.mpr rfl), call, rfl,
        .inl rfl⟩, by simp⟩
  | completeAgain call payload =>
      obtain ⟨hm, rfl, rfl⟩ := Machine.taken_if hs
      exact ⟨hlogged.complete ⟨_, List.mem_append_right _ (List.mem_singleton.mpr rfl), call, rfl,
        .inr rfl⟩, by simp⟩
  | receiveReply reply =>
      obtain ⟨hm, he⟩ := Option.ite_none_right_eq_some.mp hs
      have hreply := hlogged.replies reply hm
      have herased : Accounted (log ++ [(.receiveReply reply, os)])
          { s with replies := s.replies.erase reply } :=
        { hlogged with replies := fun r hr => hlogged.replies r (List.mem_of_mem_erase hr) }
      unfold System.receiveReply at he
      dsimp only at he
      split at he
      · obtain ⟨rfl, rfl⟩ := Prod.mk.inj (Option.some.inj he)
        exact ⟨herased, by simp⟩
      · rename_i bridge hl
        split_ifs at he
        · obtain ⟨rfl, rfl⟩ := Prod.mk.inj (Option.some.inj he)
          have hdone := (herased.bridges _ bridge hl).deliver
            (g := some (reply.requestId, reply.payload)) (.inl rfl)
          refine ⟨herased.run hdone, answers_of_honest hdone fun id payload hgiven => ?_⟩
          obtain ⟨rfl, rfl⟩ := Prod.mk.inj (Option.some.inj hgiven)
          obtain hhandled | hrefused := hreply
          · exact .inl hhandled
          · exact hrefused.answers _
        · obtain ⟨rfl, rfl⟩ := Prod.mk.inj (Option.some.inj he)
          exact ⟨herased, by simp⟩

theorem run_accounted {argsToJson : List QVariant → String}
    (h : (machine argsToJson).logged.Run Machine.always log s) :
    Accounted log s ∧ Machine.Each (fun before e => ∀ b id payload,
      .bridge b (.invoked id payload) ∈ e.2 → Answers b id payload (before ++ [e])) log := by
  refine h.invariant (I := fun log s => Accounted log s ∧ Machine.Each (fun before e =>
    ∀ b id payload, .bridge b (.invoked id payload) ∈ e.2 → Answers b id payload (before ++ [e])) log)
    ⟨Accounted.initial, Machine.each_nil _⟩ fun {log _ a _ _} ⟨hlog, heach⟩ _ hs => ?_
  obtain ⟨os, hos, rfl⟩ := Machine.logged_step.mp hs
  obtain ⟨hlog', hnew⟩ := hlog.step hos
  exact ⟨hlog', Machine.each_snoc.mpr ⟨heach, hnew⟩⟩

/-- **Whatever a view is answered, it can read.**  In every run of any bridges and the router, a
callback gets a payload that the host's handler completed a call of that id with, or the text of an
object whose `error` says what is wrong and whose `module` and `method` are those of a call that was
made with that id: the bridge's own call, except in the error of a router without a handler.  As
long as no handler is installed there is nothing but such errors. -/
theorem answers_readable {argsToJson : List QVariant → String}
    (h : (machine argsToJson).logged.Run Machine.always log s) :
    Machine.Each (fun before e => ∀ b id payload, .bridge b (.invoked id payload) ∈ e.2 →
      Answers b id payload (before ++ [e])) log ∧
    ((∀ e ∈ log, installs e.1 = false) → ∀ id payload, ¬ Handled id payload log) := by
  refine ⟨(run_accounted h).2, fun hall => ?_⟩
  refine h.invariant (I := fun log s => Accounted log s ∧ ((∀ e ∈ log, installs e.1 = false) →
    ∀ id payload, ¬ Handled id payload log)) ⟨Accounted.initial, ?_⟩ ?_ |>.2 hall
  · rintro - id payload ⟨e, hm, -⟩
    cases hm
  · intro log s a s' es ⟨hlog, hnone⟩ _ hs
    obtain ⟨os, hos, rfl⟩ := Machine.logged_step.mp hs
    refine ⟨(hlog.step hos).1, fun hall => ?_⟩
    have hbefore : ∀ e ∈ log, installs e.1 = false := fun e hm =>
      hall e (List.mem_append_left _ hm)
    obtain ⟨-, hhandling, hhandled⟩ := hlog.unhandled hbefore
    rintro id payload ⟨e, hm, call, hid, hcompletes⟩
    obtain hm | hm := List.mem_append.mp hm
    · exact hnone hbefore id payload ⟨e, hm, call, hid, hcompletes⟩
    · obtain rfl := List.mem_singleton.mp hm
      -- nothing was handed to a handler that could be completed
      obtain rfl | rfl := hcompletes
      · obtain ⟨hm, -⟩ := Machine.taken_if hos
        rw [hhandling] at hm
        cases hm
      · obtain ⟨hm, -⟩ := Machine.taken_if hos
        rw [hhandled] at hm
        cases hm

/-- A call that a router without a handler refuses, and one that times out. -/
theorem refused_and_timed_out : ∃ log s, (machine fun _ => "[]").logged.Run Machine.always log s ∧
    .bridge 0 (.invoked "1" (Web.noBackendRouter ⟨"1", "wallet", "send"⟩)) ∈ log.flatMap (·.2) ∧
    Machine.Each (fun before e => ∀ b id payload, .bridge b (.invoked id payload) ∈ e.2 →
      Answers b id payload (before ++ [e])) log ∧ ∀ id payload, ¬ Handled id payload log := by
  obtain ⟨log, s, h, hinvoked, hall⟩ := Machine.exec_any (M := (machine fun _ => "[]").logged)
    (G := Machine.always)
    [.createBridge true,
      .bridge 0 (.callModuleAsync "wallet" "send" [] ⟨0, true⟩ 0 (some ⟨true, true⟩) true ["1"]),
      .receiveCall ⟨0, "1", "wallet", "send", "[]"⟩,
      .receiveReply ⟨0, "1", Web.noBackendRouter ⟨"1", "wallet", "send"⟩⟩,
      .bridge 0 (.callModuleAsync "wallet" "lock" [] ⟨1, true⟩ 5000 none true ["2"]),
      .bridge 0 (.timeout ⟨"2", "wallet", "lock"⟩)]
    (p := fun log _ => .bridge 0 (.invoked "1" (Web.noBackendRouter ⟨"1", "wallet", "send"⟩)) ∈
      log.flatMap (·.2) ∧ ∀ e ∈ log, installs e.1 = false) (by decide +kernel)
  obtain ⟨heach, hnone⟩ := answers_readable h
  exact ⟨log, s, h, hinvoked, heach, hnone hall⟩

end CallRouter

end LogosViewRuntime
