import LogosViewRuntime.DesktopDeadline
import LogosViewRuntime.ErrorEnvelope

/-! # What a desktop view is answered

The desktop bridge answers by a callback or, from `callModule`, on the spot.  Either way the view
gets text: the serialised result of the module, or an error that it can read and that names no
module or method but the ones it called (`desktop_answers_readable`). -/

namespace LogosViewRuntime.Desktop

open Reactive

/-! ### `LogosQmlBridge::callModule` -/

def kStartupCallBudgetMs : ℕ := 1500

/-- What a `LogosAPIClient` says to one call: whether it is connected before it, what comes of the
invocation, and whether it is connected afterwards. -/
structure Client where
  isConnected : Bool
  error : Option String
  result : QVariant
  stillConnected : Bool

/-- The invocation of a remote method that blocks for at most `budgetMs`. -/
structure Invocation where
  module : String
  method : String
  args : List QVariant
  budgetMs : ℕ

/-- The module did not come up in time. -/
def notReachableYet (module method : String) : String :=
  makeErrorPayload "Module not reachable yet" module method
    (s!"still not reachable after {kStartupCallBudgetMs} ms; if this call happens at " ++
      "startup use logos.callModuleAsync(), which waits for the module instead of giving up")

/-- What is returned for what the client said. -/
def Client.answer (serializeResult : QVariant → String) (module method : String)
    (client : Client) : String :=
  match client.error, client.result with
  | some message, _ =>
      if !client.stillConnected then notReachableYet module method
      else makeErrorPayload "Module source unavailable" module method message
  | none, .invalid =>
      if !client.stillConnected then notReachableYet module method
      else makeErrorPayload "Invalid response" module method
  | none, result => serializeResult result

/-- What is returned, and what was invoked on the way. -/
def Bridge.callModule (serializeResult : QVariant → String) (defaultBudgetMs : ℕ)
    (module method : String) (args : List QVariant) (client : Option Client) (s : Bridge) :
    String × List Invocation :=
  if module ∈ s.viewModuleSockets then
    ("\x7b\"error\":\"view modules must be called via logos.module()\"\x7d", [])
  else if !s.logosAPI then ("\x7b\"error\":\"LogosAPI not available\"\x7d", [])
  else
    match client with
    | none => (makeErrorPayload "Module not connected" module, [])
    | some client =>
        let budgetMs := if client.isConnected then defaultBudgetMs else kStartupCallBudgetMs
        (client.answer serializeResult module method, [⟨module, method, args, budgetMs⟩])

/-! ### What the payloads say -/

/-- What the bridge calls the things that go wrong. -/
def errors : List String :=
  ["view modules must be called via logos.module()", "LogosAPI not available",
    "Module not connected", "timeout", "Module not reachable", "Module not reachable yet",
    "Module source unavailable", "Invalid response"]

/-- The payload reads as an error that names nothing but that call. -/
structure Explains (module method : String) (payload : String) : Prop where
  error : ∃ error ∈ errors, field "error" payload = some error
  module : ∀ m ∈ field "module" payload, m = module
  method : ∀ m ∈ field "method" payload, m = method

section

variable {module method : String}

theorem eq_of_mem_left_out {s t : String} (h : t ∈ if s = "" then none else some s) : t = s := by
  split_ifs at h
  · cases h
  · exact (Option.some.inj h).symm

/-- The error payloads that name the method, too. -/
theorem explains_makeErrorPayload {error : String} (herror : error ∈ errors) (detail : String) :
    Explains module method (makeErrorPayload error module method detail) := by
  obtain ⟨hread, hmodule, hmethod, -⟩ := field_makeErrorPayload error module method detail
  exact ⟨⟨error, herror, hread⟩, hmodule ▸ fun m => eq_of_mem_left_out,
    hmethod ▸ fun m => eq_of_mem_left_out⟩

/-- The ones that do not. -/
theorem explains_of_module {error : String} (herror : error ∈ errors) (detail : String) :
    Explains module method (makeErrorPayload error module "" detail) := by
  obtain ⟨hread, hmodule, hmethod, -⟩ := field_makeErrorPayload error module "" detail
  exact ⟨⟨error, herror, hread⟩, hmodule ▸ fun m => eq_of_mem_left_out,
    by rw [hmethod]; simp⟩

/-- The ones that are written out. -/
theorem explains_of_read {payload : String} (error : String) (herror : error ∈ errors)
    (hread : JsonText.read payload = some [("error", error)]) : Explains module method payload := by
  refine ⟨⟨error, herror, by rw [field, hread]; rfl⟩, ?_, ?_⟩ <;>
    simp [field, hread, List.lookup_cons]

theorem explains_viewModule : Explains module method
    "\x7b\"error\":\"view modules must be called via logos.module()\"\x7d" :=
  explains_of_read "view modules must be called via logos.module()" (by simp [errors]) (by decide)

theorem explains_noLogosAPI : Explains module method
    "\x7b\"error\":\"LogosAPI not available\"\x7d" :=
  explains_of_read "LogosAPI not available" (by simp [errors]) (by decide)

/-- The client's result, or an error. -/
theorem answer_explains (serializeResult : QVariant → String) (client : Client) :
    (client.error = none ∧ client.result ≠ .invalid ∧
        client.answer serializeResult module method = serializeResult client.result) ∨
      Explains module method (client.answer serializeResult module method) := by
  obtain ⟨isConnected, error, result, stillConnected⟩ := client
  unfold Client.answer
  dsimp only
  split
  · split_ifs
    · exact .inr (explains_makeErrorPayload (by simp [errors]) _)
    · exact .inr (explains_makeErrorPayload (by simp [errors]) _)
  · split_ifs
    · exact .inr (explains_makeErrorPayload (by simp [errors]) _)
    · exact .inr (explains_makeErrorPayload (by simp [errors]) _)
  · rename_i hinvalid
    exact .inl ⟨rfl, fun he => hinvalid he, rfl⟩

/-- What `callModule` returns. -/
theorem callModule_explains (serializeResult : QVariant → String) (defaultBudgetMs : ℕ)
    (args : List QVariant) (client : Option Client) (s : Bridge) :
    (∃ c ∈ client, c.error = none ∧ c.result ≠ .invalid ∧
      (s.callModule serializeResult defaultBudgetMs module method args client).1 =
        serializeResult c.result) ∨
      Explains module method
        (s.callModule serializeResult defaultBudgetMs module method args client).1 := by
  unfold Bridge.callModule
  split_ifs
  · exact .inr explains_viewModule
  · exact .inr explains_noLogosAPI
  · cases client with
    | none => exact .inr (explains_of_module (by simp [errors]) _)
    | some client =>
        obtain ⟨herror, hresult, hanswer⟩ | hexplains := answer_explains serializeResult client
        · exact .inl ⟨client, rfl, herror, hresult, hanswer⟩
        · exact .inr hexplains

end

/-! ### Whole runs -/

/-- The module and the method of each call, in the order in which they were made. -/
def begun (log : Log) : List (String × String) := log.filterMap fun
  | (.callModuleAsync module method _ _ _ _, _) => some (module, method)
  | _ => none

/-- The step is the reply of the client, and the payload its result. -/
def Replied (serializeResult : QVariant → String) (id : ℕ) (payload : String) (a : Action) : Prop :=
  ∃ result, result ≠ .invalid ∧ a = .reply id none result ∧ payload = serializeResult result

/-- What an invocation of a callback tells of the call. -/
def Answers (serializeResult : QVariant → String) (before : Log) (e : Action × List Obs) : Prop :=
  ∀ id payload, .invoked id payload ∈ e.2 → Replied serializeResult id payload e.1 ∨
    ∃ call ∈ (begun (before ++ [e]))[id]?, Explains call.1 call.2 payload

/-- The calls there are, by module and method. -/
def Bridge.called (s : Bridge) : List (String × String) :=
  s.calls.map fun call => (call.module, call.method)

/-- A lambda of the call `id` leaves it the call it is and tells its callback a result or an error
about it. -/
structure Tells (serializeResult : QVariant → String) (a : Action) (id : ℕ) (call : Call)
    (done : Call × List Obs) : Prop where
  called : (done.1.module, done.1.method) = (call.module, call.method)
  answers : ∀ i payload, .invoked i payload ∈ done.2 → i = id ∧
    (Replied serializeResult id payload a ∨ Explains call.module call.method payload)

section

variable {serializeResult : QVariant → String} {a : Action} {id : ℕ} {call : Call}

theorem tells_nothing : Tells serializeResult a id call (call, []) := ⟨rfl, by simp⟩

theorem tells_invokeCallback {payload : String}
    (h : Replied serializeResult id payload a ∨ Explains call.module call.method payload) :
    Tells serializeResult a id call (call.invokeCallback id payload) := by
  unfold Call.invokeCallback
  split_ifs
  · exact tells_nothing
  · refine ⟨rfl, fun i p hm => ?_⟩
    obtain ⟨rfl, rfl⟩ := Obs.invoked.inj (List.mem_singleton.mp hm)
    exact ⟨rfl, h⟩
  · exact ⟨rfl, by simp⟩

theorem tells_timeout : Tells serializeResult a id call (call.timeout id) := by
  have htold : Tells serializeResult a id { call with timer := none }
      ({ call with timer := none }.invokeCallback id
        (makeErrorPayload "timeout" call.module call.method)) :=
    tells_invokeCallback (.inr (explains_makeErrorPayload (by simp [errors]) _))
  exact ⟨htold.called, fun i p hm => htold.answers i p (by simpa [Call.timeout] using hm)⟩

theorem tells_objectAvailable (alive ready : Bool) :
    Tells serializeResult a id call (call.objectAvailable id alive ready) := by
  have hnothing : Tells serializeResult a id call ({ call with awaited := false }, []) :=
    ⟨rfl, by simp⟩
  simp only [Call.objectAvailable]
  split_ifs with halive hfired hready
  · exact hnothing
  · exact hnothing
  · have htold : Tells serializeResult a id { call with awaited := false }
        ({ call with awaited := false }.invokeCallback id
          (makeErrorPayload "Module not reachable" call.module ""
            "the transport reported this module permanently unavailable")) :=
      tells_invokeCallback (.inr (explains_of_module (by simp [errors]) _))
    exact ⟨htold.called, htold.answers⟩
  · simp only [Call.dispatch]
    split_ifs
    exact ⟨rfl, by simp⟩

theorem tells_reply (error : Option String) (result : QVariant) :
    Tells serializeResult (.reply id error result) id call
      (call.reply serializeResult id error result) := by
  unfold Call.reply
  split
  · exact tells_invokeCallback (.inr (explains_makeErrorPayload (by simp [errors]) _))
  · exact tells_invokeCallback (.inr (explains_makeErrorPayload (by simp [errors]) _))
  · rename_i hinvalid
    exact tells_invokeCallback (.inl ⟨result, hinvalid, rfl, rfl⟩)

theorem tells_begin (client : Bool) (timeoutMs : ℤ) (s : Bridge) :
    Tells serializeResult a id call (s.begin id client timeoutMs call) := by
  unfold Bridge.begin
  split_ifs
  · exact tells_invokeCallback (.inr explains_viewModule)
  · exact tells_invokeCallback (.inr explains_noLogosAPI)
  · exact tells_invokeCallback (.inr (explains_of_module (by simp [errors]) _))
  all_goals exact ⟨rfl, by simp⟩

end

section

variable {serializeResult : QVariant → String} {log : Log} {s s' : Bridge} {os : List Obs}
  {a : Action}

theorem begun_append (log log' : Log) : begun (log ++ log') = begun log ++ begun log' :=
  List.filterMap_append

/-- A step that makes no call. -/
theorem begun_snoc (ha : begun [(a, os)] = []) : begun (log ++ [(a, os)]) = begun log := by
  rw [begun_append, ha, List.append_nil]

/-- A lambda of a call. -/
theorem answers_runLambda {id : ℕ} {held : Call → Bool} {body : Call → Call × List Obs}
    (h : s.called = begun log) (ha : begun [(a, os)] = [])
    (hs : s.runLambda id held body = some (s', os))
    (hbody : ∀ call, Tells serializeResult a id call (body call)) :
    s'.called = begun (log ++ [(a, os)]) ∧ Answers serializeResult log (a, os) := by
  obtain ⟨call, hcall, -, rfl, rfl⟩ := runLambda_eq_some hs
  have htells := hbody call
  rw [begun_snoc ha, ← h]
  have hat : s.called[id]? = some (call.module, call.method) := by
    rw [Bridge.called, List.getElem?_map, hcall, Option.map_some]
  constructor
  · rw [Bridge.called, List.map_set, htells.called]
    obtain ⟨hlt, hget⟩ := List.getElem?_eq_some_iff.mp hat
    rw [← hget]
    exact List.set_getElem_self hlt
  · intro i payload hm
    obtain ⟨rfl, hreplied | hexplains⟩ := htells.answers i payload hm
    · exact .inl hreplied
    · exact .inr ⟨_, by rw [begun_snoc ha, ← h]; exact hat, hexplains⟩

theorem answers_step (h : s.called = begun log) (hs : step serializeResult s a = some (s', os)) :
    s'.called = begun (log ++ [(a, os)]) ∧ Answers serializeResult log (a, os) := by
  cases a with
  | callModuleAsync module method args callback timeoutMs client =>
      obtain ⟨-, rfl, rfl⟩ := Machine.taken_if hs
      have htells : Tells serializeResult
          (.callModuleAsync module method args callback timeoutMs client) s.calls.length
          { module, method, args, callback }
          (s.begin s.calls.length client timeoutMs { module, method, args, callback }) :=
        tells_begin client timeoutMs s
      have hbegun : begun [(.callModuleAsync module method args callback timeoutMs client,
          (s.callModuleAsync module method args callback timeoutMs client).2)] =
          [(module, method)] := rfl
      have hlength : (begun log).length = s.calls.length := by rw [← h, Bridge.called, List.length_map]
      constructor
      · rw [begun_append, hbegun, ← h]
        simp only [Bridge.called, Bridge.callModuleAsync, List.map_append, List.map_singleton]
        rw [htells.called]
      · intro i payload hm
        obtain hm | hm := List.mem_cons.mp hm
        · cases hm
        · obtain ⟨rfl, hreplied | hexplains⟩ := htells.answers i payload hm
          · exact .inl hreplied
          · refine .inr ⟨(module, method), ?_, hexplains⟩
            rw [begun_append, hbegun, ← hlength, List.getElem?_concat_length]
            rfl
  | timeout id => exact answers_runLambda h rfl hs fun _ => tells_timeout
  | objectAvailable id ready =>
      exact answers_runLambda h rfl hs fun _ => tells_objectAvailable s.alive ready
  | reply id error result =>
      exact answers_runLambda h rfl hs fun _ => tells_reply error result
  | setViewModuleSocket module =>
      obtain ⟨-, rfl, rfl⟩ := Machine.taken_if hs
      exact ⟨h.trans (begun_snoc rfl).symm, by simp [Answers]⟩
  | destroy =>
      obtain ⟨-, rfl, rfl⟩ := Machine.taken_if hs
      exact ⟨h.trans (begun_snoc rfl).symm, by simp [Answers]⟩

/-- **What a desktop view is answered is a result or an error it can read.**  In every run a
callback gets the serialised result that the client replied to that call, or the text of an object
with an `error` that names no module or method but those of that call.  `callModule` returns one or
the other in every state. -/
theorem desktop_answers_readable {logosAPI : Bool}
    (h : (machine serializeResult logosAPI).logged.Run Machine.always log s) :
    Machine.Each (Answers serializeResult) log ∧
      ∀ defaultBudgetMs module method args client, (∃ c ∈ client, c.error = none ∧
        c.result ≠ .invalid ∧
        (s.callModule serializeResult defaultBudgetMs module method args client).1 =
          serializeResult c.result) ∨
        Explains module method
          (s.callModule serializeResult defaultBudgetMs module method args client).1 := by
  refine ⟨?_, fun defaultBudgetMs module method args client =>
    callModule_explains serializeResult defaultBudgetMs args client s⟩
  have hboth := h.invariant (I := fun log s => s.called = begun log ∧
    Machine.Each (Answers serializeResult) log) ⟨rfl, Machine.each_nil _⟩ fun {log _ a _ _} hi _ hs => by
      obtain ⟨os, hos, rfl⟩ := Machine.logged_step.mp hs
      obtain ⟨hcalled, hanswers⟩ := answers_step hi.1 hos
      exact ⟨hcalled, Machine.each_snoc.mpr ⟨hi.2, hanswers⟩⟩
  exact hboth.2

end

/-- A call that times out, and one that the client answers. -/
theorem timed_out_and_replied : ∃ log s,
    (machine (fun _ => "5") true).logged.Run Machine.always log s ∧
    invocations 0 (log.flatMap (·.2)) = [makeErrorPayload "timeout" "wallet" "send"] ∧
    invocations 1 (log.flatMap (·.2)) = ["5"] ∧ Machine.Each (Answers fun _ => "5") log := by
  have h := Machine.exec_run (M := (machine (fun _ => "5") true).logged) (G := Machine.always)
    [.callModuleAsync "wallet" "send" [] ⟨0, true⟩ 5000 true,
      .callModuleAsync "wallet" "balance" [] ⟨1, true⟩ 0 true, .objectAvailable 1 true,
      .reply 1 none (.int 5), .timeout 0] rfl
  exact ⟨_, _, h, rfl, rfl, (desktop_answers_readable h).1⟩

end LogosViewRuntime.Desktop
