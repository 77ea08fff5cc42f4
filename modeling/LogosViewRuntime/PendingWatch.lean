import LogosViewRuntime.Lib.Machine
import LogosViewRuntime.Variant
import Mathlib.Logic.Function.Basic

/-! # `watch` and when the call finishes

Both bridges resolve a pending call for a view: at once when it has finished, through a watcher
when it has not.  The watcher decides by the return value which callback to call and the fast path
does not, so exactly a call that had failed before it was watched is told apart from one that fails
later (`timeless_iff`); it is reported as a success (`failed_before_is_a_success`). -/

namespace LogosViewRuntime.Watch

open Reactive

/-- How a bridge makes JavaScript values: `toScriptValue` of its engine if it has one. -/
structure Conversion where
  engine : Option (QVariant → QJSValue)
  toString : QVariant → String
  ofString : String → QJSValue

def Conversion.toJsValue (js : Conversion) (v : QVariant) : QJSValue :=
  match js.engine with
  | some toScriptValue => toScriptValue v
  | none => js.ofString (js.toString v)

/-- `QVariant::isValid` -/
def isValid : QVariant → Bool
  | .invalid => false
  | _ => true

/-- What `watch` is given: a value that is no pending call, or one that converts to a call. -/
inductive Argument where
  | value (v : QVariant)
  | pending (call : ℕ)

/-- A callback and what it is called with. -/
structure Invocation where
  callback : QJSValue
  argument : QJSValue
deriving DecidableEq, Repr

/-- The return values of the calls that have finished. -/
abbrev Results := ℕ → Option QVariant

namespace LogosQmlBridge

/-- What is invoked at once, and the call that is left to a watcher. -/
def watch (js : Conversion) (results : Results) (pendingCall : Argument)
    (onSuccess onError : QJSValue) : List Invocation × Option ℕ :=
  let toJs := js.toJsValue
  match pendingCall with
  | .value v =>
      if !isValid v then
        (if onError.isCallable then [⟨onError, js.ofString "call failed"⟩] else [], none)
      else (if onSuccess.isCallable then [⟨onSuccess, toJs v⟩] else [], none)
  | .pending call =>
      match results call with
      | some returnValue =>
          (if onSuccess.isCallable then [⟨onSuccess, toJs returnValue⟩] else [], none)
      | none => ([], some call)

/-- The lambda connected to the watcher. -/
def finished (js : Conversion) (onSuccess onError : QJSValue) (rv : QVariant) : List Invocation :=
  if isValid rv && onSuccess.isCallable then [⟨onSuccess, js.toJsValue rv⟩]
  else if !isValid rv && onError.isCallable then [⟨onError, js.ofString "call failed"⟩]
  else []

end LogosQmlBridge

namespace LogosWebBridge

/-- What is invoked at once, and the call that is left to a watcher. -/
def watch (js : Conversion) (results : Results) (pendingCall : Argument)
    (onSuccess onError : QJSValue) : List Invocation × Option ℕ :=
  match pendingCall with
  | .value v =>
      if !isValid v then
        (if onError.isCallable then [⟨onError, js.ofString "call failed"⟩] else [], none)
      else (if onSuccess.isCallable then [⟨onSuccess, js.toJsValue v⟩] else [], none)
  | .pending call =>
      match results call with
      | some returnValue =>
          (if onSuccess.isCallable then [⟨onSuccess, js.toJsValue returnValue⟩] else [], none)
      | none => ([], some call)

/-- The lambda connected to the watcher. -/
def finished (js : Conversion) (onSuccess onError : QJSValue) (rv : QVariant) : List Invocation :=
  if isValid rv && onSuccess.isCallable then [⟨onSuccess, js.toJsValue rv⟩]
  else if !isValid rv && onError.isCallable then [⟨onError, js.ofString "call failed"⟩]
  else []

end LogosWebBridge

inductive Kind where
  | qml
  | web
deriving DecidableEq, Repr

def watch : Kind → Conversion → Results → Argument → QJSValue → QJSValue →
    List Invocation × Option ℕ
  | .qml => LogosQmlBridge.watch
  | .web => LogosWebBridge.watch

def finished : Kind → Conversion → QJSValue → QJSValue → QVariant → List Invocation
  | .qml => LogosQmlBridge.finished
  | .web => LogosWebBridge.finished

/-- One call of `watch`. -/
structure Request where
  bridge : Kind
  pendingCall : Argument
  onSuccess : QJSValue
  onError : QJSValue

/-- A watcher that the request number `id` left behind. -/
structure Watcher where
  id : ℕ
  call : ℕ
  request : Request

structure System where
  results : Results := fun _ => none
  watchers : List Watcher := []
  watched : ℕ := 0

inductive Obs where
  | watched (id : ℕ) (request : Request)
  | invoked (id : ℕ) (invocation : Invocation)

inductive Action where
  | watch (request : Request)
  | finish (call : ℕ) (returnValue : QVariant)

variable (js : Kind → Conversion)

def Request.watch (r : Request) (results : Results) : List Invocation × Option ℕ :=
  Watch.watch r.bridge (js r.bridge) results r.pendingCall r.onSuccess r.onError

def Request.finished (r : Request) (rv : QVariant) : List Invocation :=
  Watch.finished r.bridge (js r.bridge) r.onSuccess r.onError rv

/-- A call finishes once, and then its watchers emit `finished`. -/
def step (s : System) : Action → Option (System × List Obs)
  | .watch r =>
      let done := r.watch js s.results
      some ({ s with
          watched := s.watched + 1
          watchers := s.watchers ++ done.2.toList.map fun call => ⟨s.watched, call, r⟩ },
        .watched s.watched r :: done.1.map (.invoked s.watched))
  | .finish call returnValue =>
      match s.results call with
      | some _ => none
      | none =>
          some ({ s with
              results := Function.update s.results call (some returnValue)
              watchers := s.watchers.filter (·.call ≠ call) },
            (s.watchers.filter (·.call = call)).flatMap fun w =>
              (w.request.finished js returnValue).map (.invoked w.id))

/-- Two bridges, and calls none of which has finished. -/
def machine : Machine System Action Obs where
  init := {}
  step := step js

/-! ### The property and its condition -/

/-- What is invoked of a request. -/
def invocations (id : ℕ) (tr : List Obs) : List Invocation :=
  tr.flatMap fun
    | .invoked id' invocation => if id' = id then [invocation] else []
    | .watched _ _ => []

def invoke (callback argument : QJSValue) : List Invocation :=
  if callback.isCallable then [⟨callback, argument⟩] else []

/-- What a value comes to: `onSuccess` with it when it is valid, `onError` otherwise. -/
def answer (js : Conversion) (onSuccess onError : QJSValue) (v : QVariant) : List Invocation :=
  if isValid v then invoke onSuccess (js.toJsValue v)
  else invoke onError (js.ofString "call failed")

/-- What an argument comes to, if it comes to something by now. -/
def Argument.result (results : Results) : Argument → Option QVariant
  | .value v => some v
  | .pending call => results call

def Request.answer (r : Request) (v : QVariant) : List Invocation :=
  Watch.answer (js r.bridge) r.onSuccess r.onError v

/-- A request is answered by what its call comes to, whenever the call finishes. -/
def Timeless (tr : List Obs) (s : System) : Prop :=
  ∀ id r, .watched id r ∈ tr →
    invocations id tr = (r.pendingCall.result s.results).elim [] (r.answer js)

/-- A call that has failed is not watched by anyone who could hear of it. -/
def Unfailed (_ : List Obs) (s : System) : Action → Prop
  | .watch ⟨_, .pending call, onSuccess, onError⟩ => ∀ returnValue ∈ s.results call,
      isValid returnValue = false → onSuccess.isCallable = false ∧ onError.isCallable = false
  | _ => True

instance (tr : List Obs) (s : System) : (a : Action) → Decidable (Unfailed tr s a)
  | .watch ⟨_, .pending call, onSuccess, onError⟩ => inferInstanceAs (Decidable
      (∀ returnValue ∈ s.results call, isValid returnValue = false →
        onSuccess.isCallable = false ∧ onError.isCallable = false))
  | .watch ⟨_, .value _, _, _⟩ | .finish _ _ => inferInstanceAs (Decidable True)

/-- What Qt says of the values that a failure is told by: `undefined` and the empty string are not
the text that a failure is reported with. -/
structure Conversion.Faithful (js : Conversion) : Prop where
  toScriptValue_invalid : ∀ toScriptValue ∈ js.engine,
    toScriptValue .invalid ≠ js.ofString "call failed"
  toString_invalid : js.toString .invalid = ""
  ofString_ne : js.ofString "" ≠ js.ofString "call failed"

/-! ### One request -/

variable {js} {c : Conversion} {results : Results} {onSuccess onError : QJSValue} {v : QVariant}

theorem Conversion.Faithful.toJsValue_ne (h : c.Faithful) :
    c.toJsValue .invalid ≠ c.ofString "call failed" := by
  unfold Conversion.toJsValue
  split
  · rename_i toScriptValue hengine
    exact h.toScriptValue_invalid toScriptValue hengine
  · rw [h.toString_invalid]
    exact h.ofString_ne

theorem eq_invalid (h : isValid v = false) : v = .invalid := by
  cases v with
  | invalid => rfl
  | _ => cases h

theorem watch_qml_eq_web : LogosQmlBridge.watch = LogosWebBridge.watch := rfl

theorem watch_eq_web (bridge : Kind) : watch bridge = LogosWebBridge.watch := by
  cases bridge with
  | qml => exact watch_qml_eq_web
  | web => rfl

theorem finished_qml_eq_web : LogosQmlBridge.finished = LogosWebBridge.finished := rfl

/-- The watcher decides by the return value. -/
theorem finished_eq (bridge : Kind) (c : Conversion) :
    finished bridge c onSuccess onError v = answer c onSuccess onError v := by
  have h : LogosWebBridge.finished c onSuccess onError v = answer c onSuccess onError v := by
    unfold LogosWebBridge.finished answer invoke
    cases isValid v <;> simp
  cases bridge with
  | qml => rw [finished, finished_qml_eq_web, h]
  | web => exact h

theorem invoke_eq_iff {callback callback' argument argument' : QJSValue}
    (h : argument ≠ argument') : invoke callback argument = invoke callback' argument' ↔
      callback.isCallable = false ∧ callback'.isCallable = false := by
  unfold invoke
  cases callback.isCallable <;> cases callback'.isCallable <;> simp [h]

/-- What is invoked at once is the answer, unless a call has failed by now and someone could hear
of it. -/
theorem watch_iff (h : c.Faithful) (bridge : Kind) (pendingCall : Argument) :
    (watch bridge c results pendingCall onSuccess onError).1 =
        (pendingCall.result results).elim [] (answer c onSuccess onError) ↔
      ∀ call, pendingCall = .pending call → ∀ v ∈ results call, isValid v = false →
        onSuccess.isCallable = false ∧ onError.isCallable = false := by
  rw [watch_eq_web]
  cases pendingCall with
  | value v =>
      refine iff_of_true ?_ nofun
      simp only [LogosWebBridge.watch, Argument.result, Option.elim_some, answer, invoke]
      cases isValid v <;> rfl
  | pending call =>
      simp only [LogosWebBridge.watch, Argument.result]
      cases hresult : results call with
      | none =>
          refine iff_of_true rfl fun call' he v hv => ?_
          obtain rfl := Argument.pending.inj he
          rw [hresult] at hv
          cases hv
      | some v =>
          have hanswer : invoke onSuccess (c.toJsValue v) = answer c onSuccess onError v ↔
              (isValid v = false → onSuccess.isCallable = false ∧ onError.isCallable = false) := by
            unfold answer
            by_cases hvalid : isValid v = true
            · simp [hvalid]
            · have hinvalid := Bool.eq_false_iff.mpr hvalid
              obtain rfl := eq_invalid hinvalid
              rw [if_neg hvalid, invoke_eq_iff h.toJsValue_ne]
              simp [hinvalid]
          refine hanswer.trans ⟨fun hanswered call' he v' hv' => ?_, fun hanswered => ?_⟩
          · obtain rfl := Argument.pending.inj he
            rw [hresult] at hv'
            obtain rfl := Option.some.inj hv'
            exact hanswered
          · exact hanswered call rfl v hresult

/-! ### What has been invoked -/

variable {tr os : List Obs} {s s' : System}

theorem invocations_append (id : ℕ) (tr os : List Obs) :
    invocations id (tr ++ os) = invocations id tr ++ invocations id os := List.flatMap_append

theorem invocations_map (id id' : ℕ) (l : List Invocation) :
    invocations id (l.map (.invoked id')) = if id' = id then l else [] := by
  induction l with
  | nil => simp [invocations]
  | cons i l ih =>
      rw [List.map_cons, ← List.singleton_append, invocations_append, ih]
      by_cases h : id' = id <;> simp [invocations, h]

theorem invocations_flatMap (id : ℕ) (ws : List Watcher) (f : Watcher → List Invocation) :
    invocations id (ws.flatMap fun w => (f w).map (.invoked w.id)) =
      ws.flatMap fun w => if w.id = id then f w else [] := by
  induction ws with
  | nil => rfl
  | cons w ws ih =>
      rw [List.flatMap_cons, invocations_append, ih, invocations_map, List.flatMap_cons]

/-- One element of a list without duplicates is all that counts. -/
theorem flatMap_eq_of_mem {α β : Type*} {l : List α} (hnodup : l.Nodup) {x : α} (hx : x ∈ l)
    {f : α → List β} (hother : ∀ y ∈ l, y ≠ x → f y = []) : l.flatMap f = f x := by
  obtain ⟨l₁, l₂, rfl⟩ := List.append_of_mem hx
  obtain ⟨-, hright, hleft⟩ := List.nodup_append.mp hnodup
  have hnone₁ : l₁.flatMap f = [] := List.flatMap_eq_nil_iff.mpr fun y hy =>
    hother y (by simp [hy]) (hleft y hy x List.mem_cons_self)
  have hnone₂ : l₂.flatMap f = [] := List.flatMap_eq_nil_iff.mpr fun y hy =>
    hother y (by simp [hy]) fun he => (List.nodup_cons.mp hright).1 (he ▸ hy)
  rw [List.flatMap_append, List.flatMap_cons, hnone₁, hnone₂, List.append_nil, List.nil_append]

/-- What the bridges have in hand is what has been asked for. -/
structure Logged (tr : List Obs) (s : System) : Prop where
  lt : ∀ id r, .watched id r ∈ tr → id < s.watched
  once : ∀ id r r', .watched id r ∈ tr → .watched id r' ∈ tr → r = r'
  quiet : ∀ id i, .invoked id i ∈ tr → id < s.watched
  watcher : ∀ w ∈ s.watchers, .watched w.id w.request ∈ tr ∧
    w.request.pendingCall = .pending w.call ∧ s.results w.call = none
  waiting : ∀ id r call, .watched id r ∈ tr → r.pendingCall = .pending call →
    s.results call = none → ⟨id, call, r⟩ ∈ s.watchers
  nodup : s.watchers.Nodup

theorem Logged.initial : Logged [] {} := ⟨nofun, nofun, nofun, nofun, nofun, .nil⟩

/-- A watcher is known by its number. -/
theorem Logged.watcher_eq (h : Logged tr s) {w w' : Watcher} (hw : w ∈ s.watchers)
    (hw' : w' ∈ s.watchers) (hid : w.id = w'.id) : w = w' := by
  obtain ⟨hmem, hcall, -⟩ := h.watcher w hw
  obtain ⟨hmem', hcall', -⟩ := h.watcher w' hw'
  obtain ⟨id, call, r⟩ := w
  obtain ⟨id', call', r'⟩ := w'
  obtain rfl : id = id' := hid
  obtain rfl := h.once id r r' hmem hmem'
  obtain rfl := Argument.pending.inj (hcall.symm.trans hcall')
  rfl

theorem Logged.invocations_eq_nil (h : Logged tr s) : invocations s.watched tr = [] := by
  refine List.flatMap_eq_nil_iff.mpr fun o ho => ?_
  cases o with
  | watched id r => rfl
  | invoked id i =>
      have hne : id ≠ s.watched := Nat.ne_of_lt (h.quiet id i ho)
      exact if_neg hne

/-! ### Steps -/

theorem mem_watched {id id' : ℕ} {r r' : Request} {l : List Invocation} :
    .watched id r ∈ (.watched id' r' :: l.map (.invoked id') : List Obs) ↔ id = id' ∧ r = r' := by
  simp

theorem step_watch {r : Request} (hs : step js s (.watch r) = some (s', os)) :
    s'.results = s.results ∧ s'.watched = s.watched + 1 ∧
      os = .watched s.watched r :: (r.watch js s.results).1.map (.invoked s.watched) ∧
      s'.watchers = s.watchers ++
        (r.watch js s.results).2.toList.map fun call => ⟨s.watched, call, r⟩ := by
  obtain ⟨rfl, rfl⟩ := Prod.mk.inj (Option.some.inj hs)
  exact ⟨rfl, rfl, rfl, rfl⟩

/-- A watcher is left behind for a call that has not finished. -/
theorem watch_watcher {r : Request} {call : ℕ} : (r.watch js results).2 = some call ↔
    r.pendingCall = .pending call ∧ results call = none := by
  rw [Request.watch, watch_eq_web]
  cases r.pendingCall with
  | value v =>
      simp only [LogosWebBridge.watch]
      split <;> simp
  | pending call' =>
      simp only [LogosWebBridge.watch, Argument.pending.injEq]
      cases hresult : results call' with
      | none =>
          simp only [Option.some.injEq]
          constructor
          · rintro rfl
            exact ⟨rfl, hresult⟩
          · exact fun h => h.1
      | some v =>
          refine iff_of_false nofun ?_
          rintro ⟨rfl, hnone⟩
          rw [hresult] at hnone
          cases hnone

theorem Logged.watch (h : Logged tr s) {r : Request} (hs : step js s (.watch r) = some (s', os)) :
    Logged (tr ++ os) s' := by
  obtain ⟨hresults, hwatched, rfl, hwatchers⟩ := step_watch hs
  have hnew : ∀ {id r'}, .watched id r' ∈ tr ++ .watched s.watched r ::
      (r.watch js s.results).1.map (.invoked s.watched) →
      .watched id r' ∈ tr ∨ id = s.watched ∧ r' = r := fun hm =>
    (List.mem_append.mp hm).imp_right mem_watched.mp
  refine ⟨fun id r' hm => ?_, fun id r₁ r₂ h₁ h₂ => ?_, fun id i hm => ?_, fun w hw => ?_,
    fun id r' call hm hcall hnone => ?_, ?_⟩
  · obtain hm | ⟨rfl, -⟩ := hnew hm
    · have := h.lt id r' hm
      omega
    · omega
  · obtain hold₁ | ⟨hid, rfl⟩ := hnew h₁
    · obtain hold₂ | ⟨rfl, -⟩ := hnew h₂
      · exact h.once id r₁ r₂ hold₁ hold₂
      · exact absurd (h.lt _ _ hold₁) (Nat.lt_irrefl _)
    · obtain hold₂ | ⟨-, rfl⟩ := hnew h₂
      · exact absurd (h.lt _ _ hold₂) (by omega)
      · rfl
  · obtain hm | hm := List.mem_append.mp hm
    · have := h.quiet id i hm
      omega
    · obtain ⟨rfl, -⟩ : s.watched = id ∧ i ∈ (r.watch js s.results).1 := by
        simpa [and_comm] using hm
      omega
  · rw [hwatchers] at hw
    rw [hresults]
    obtain hw | hw := List.mem_append.mp hw
    · obtain ⟨hm, hcall, hnone⟩ := h.watcher w hw
      exact ⟨List.mem_append_left _ hm, hcall, hnone⟩
    · obtain ⟨call, hcall, rfl⟩ := List.mem_map.mp hw
      obtain ⟨hpending, hnone⟩ := watch_watcher.mp (Option.mem_toList.mp hcall)
      exact ⟨by simp, hpending, hnone⟩
  · rw [hresults] at hnone
    rw [hwatchers]
    obtain hm | ⟨rfl, rfl⟩ := hnew hm
    · exact List.mem_append_left _ (h.waiting id r' call hm hcall hnone)
    · apply List.mem_append_right
      exact List.mem_map.mpr ⟨call, Option.mem_toList.mpr (watch_watcher.mpr ⟨hcall, hnone⟩), rfl⟩
  · rw [hwatchers]
    refine List.nodup_append.mpr ⟨h.nodup, ?_, fun w hw w' hw' => ?_⟩
    · cases (r.watch js s.results).2 <;> simp
    · rintro rfl
      obtain ⟨call, -, rfl⟩ := List.mem_map.mp hw'
      exact absurd (h.lt _ _ (h.watcher _ hw).1) (Nat.lt_irrefl _)

theorem step_finish {call : ℕ} {v : QVariant}
    (hs : step js s (.finish call v) = some (s', os)) : s.results call = none ∧
      s' = { s with
        results := Function.update s.results call (some v)
        watchers := s.watchers.filter (·.call ≠ call) } ∧
      os = (s.watchers.filter (·.call = call)).flatMap fun w =>
        (w.request.finished js v).map (.invoked w.id) := by
  simp only [step] at hs
  split at hs
  · cases hs
  · rename_i hnone
    obtain ⟨rfl, rfl⟩ := Prod.mk.inj (Option.some.inj hs)
    exact ⟨hnone, rfl, rfl⟩

theorem Logged.finish (h : Logged tr s) {call : ℕ} {v : QVariant}
    (hs : step js s (.finish call v) = some (s', os)) : Logged (tr ++ os) s' := by
  obtain ⟨hnone, rfl, hos⟩ := step_finish hs
  have hinvoked : ∀ o ∈ os, ∃ w ∈ s.watchers, ∃ i, o = .invoked w.id i := by
    rw [hos]
    intro o ho
    obtain ⟨w, hw, ho⟩ := List.mem_flatMap.mp ho
    obtain ⟨i, -, rfl⟩ := List.mem_map.mp ho
    exact ⟨w, (List.mem_filter.mp hw).1, i, rfl⟩
  have hold : ∀ {id r}, .watched id r ∈ tr ++ os → .watched id r ∈ tr := by
    intro id r hm
    obtain hm | hm := List.mem_append.mp hm
    · exact hm
    · obtain ⟨w, -, i, he⟩ := hinvoked _ hm
      cases he
  refine ⟨fun id r hm => h.lt id r (hold hm),
    fun id r r' h₁ h₂ => h.once id r r' (hold h₁) (hold h₂), fun id i hm => ?_, fun w hw => ?_,
    fun id r call' hm hcall hnone' => ?_, h.nodup.filter _⟩
  · obtain hm | hm := List.mem_append.mp hm
    · exact h.quiet id i hm
    · obtain ⟨w, hw, i', he⟩ := hinvoked _ hm
      obtain ⟨rfl, -⟩ := Obs.invoked.inj he
      exact h.lt _ _ (h.watcher w hw).1
  · obtain ⟨hw, hne⟩ := List.mem_filter.mp hw
    obtain ⟨hm, hcall, hnone'⟩ := h.watcher w hw
    have hne : w.call ≠ call := by simpa using hne
    exact ⟨List.mem_append_left _ hm, hcall, (Function.update_of_ne hne ..).trans hnone'⟩
  · have hne : call' ≠ call := by
      rintro rfl
      simp at hnone'
    have hnone' : Function.update s.results call (some v) call' = none := hnone'
    rw [Function.update_of_ne hne] at hnone'
    exact List.mem_filter.mpr ⟨h.waiting id r call' (hold hm) hcall hnone', by simpa using hne⟩

/-- A call that finishes answers the requests that wait for it, and no others. -/
theorem Timeless.finish (h : Timeless js tr s) (hlogged : Logged tr s) {call : ℕ} {v : QVariant}
    (hs : step js s (.finish call v) = some (s', os)) : Timeless js (tr ++ os) s' := by
  obtain ⟨hnone, rfl, rfl⟩ := step_finish hs
  intro id r hm
  have hm : .watched id r ∈ tr := by
    obtain hm | hm := List.mem_append.mp hm
    · exact hm
    · obtain ⟨w, -, ho⟩ := List.mem_flatMap.mp hm
      obtain ⟨i, -, he⟩ := List.mem_map.mp ho
      cases he
  rw [invocations_append, h id r hm, invocations_flatMap]
  by_cases hcall : r.pendingCall = .pending call
  · have hw : ⟨id, call, r⟩ ∈ s.watchers.filter (·.call = call) :=
      List.mem_filter.mpr ⟨hlogged.waiting id r call hm hcall hnone, by simp⟩
    rw [flatMap_eq_of_mem (hlogged.nodup.filter _) hw]
    · simp [hcall, Argument.result, hnone, Request.finished, Request.answer, finished_eq]
    · intro w' hw' hne
      have hw' := (List.mem_filter.mp hw').1
      exact if_neg fun hid => hne (hlogged.watcher_eq hw' (List.mem_filter.mp hw).1 hid)
  · have hnil : (s.watchers.filter (·.call = call)).flatMap
        (fun w => if w.id = id then w.request.finished js v else []) = [] := by
      refine List.flatMap_eq_nil_iff.mpr fun w hw => if_neg ?_
      rintro rfl
      obtain ⟨hw, hwcall⟩ := List.mem_filter.mp hw
      obtain ⟨hmem, hpending, -⟩ := hlogged.watcher w hw
      obtain rfl := hlogged.once _ _ _ hm hmem
      have hwcall : w.call = call := by simpa using hwcall
      exact hcall (hwcall ▸ hpending)
    rw [hnil, List.append_nil]
    -- the call of this request is not the one that finishes
    cases hpending : r.pendingCall with
    | value v' => rfl
    | pending call' =>
        have hne : call' ≠ call := by
          rintro rfl
          exact hcall hpending
        simp [Argument.result, Function.update_of_ne hne]

/-- A request is answered as it has to be exactly when its call has not failed before. -/
theorem timeless_watch_iff (hjs : ∀ bridge, (js bridge).Faithful) (h : Timeless js tr s)
    (hlogged : Logged tr s) {r : Request} (hs : step js s (.watch r) = some (s', os)) :
    Timeless js (tr ++ os) s' ↔ Unfailed tr s (.watch r) := by
  obtain ⟨hresults, -, rfl, -⟩ := step_watch hs
  have hcondition : Unfailed tr s (.watch r) ↔
      ∀ call, r.pendingCall = .pending call → ∀ v ∈ s.results call, isValid v = false →
        r.onSuccess.isCallable = false ∧ r.onError.isCallable = false := by
    obtain ⟨bridge, pendingCall, onSuccess, onError⟩ := r
    cases pendingCall with
    | value v => exact iff_of_true trivial nofun
    | pending call =>
        refine ⟨fun h call' he => ?_, fun h => h call rfl⟩
        obtain rfl := Argument.pending.inj he
        exact h
  have hother : ∀ id < s.watched, invocations id (tr ++ .watched s.watched r ::
      (r.watch js s.results).1.map (.invoked s.watched)) = invocations id tr := by
    intro id hid
    rw [invocations_append, ← List.singleton_append, invocations_append, invocations_map,
      if_neg (Nat.ne_of_gt hid)]
    simp [invocations]
  have hself : invocations s.watched (tr ++ .watched s.watched r ::
      (r.watch js s.results).1.map (.invoked s.watched)) = (r.watch js s.results).1 := by
    rw [invocations_append, ← List.singleton_append, invocations_append, invocations_map, if_pos rfl,
      hlogged.invocations_eq_nil]
    simp [invocations]
  rw [hcondition, ← watch_iff (hjs r.bridge) r.bridge r.pendingCall]
  constructor
  · intro h'
    have := h' s.watched r (by simp)
    rw [hself, hresults] at this
    exact this
  · intro hanswered id r' hm
    rw [hresults]
    obtain hm | hm := List.mem_append.mp hm
    · rw [hother id (hlogged.lt id r' hm)]
      exact h id r' hm
    · obtain ⟨rfl, rfl⟩ := mem_watched.mp hm
      rw [hself]
      exact hanswered

theorem run_logged {G : List Obs → System → Action → Prop} (h : (machine js).Run G tr s) :
    Logged tr s := by
  refine h.invariant (I := Logged) Logged.initial fun {_ _ a _ _} hi _ hs => ?_
  cases a with
  | watch r => exact hi.watch hs
  | finish call v => exact hi.finish hs

/-! ### Runs -/

/-- **When a call finishes makes no difference** in exactly the runs in which no call that has
failed is watched by anyone who could hear of it; the two bridges never differ. -/
theorem timeless_iff (js : Kind → Conversion) (hjs : ∀ bridge, (js bridge).Faithful) :
    ((∀ tr s, (machine js).Run Unfailed tr s → Timeless js tr s) ∧
      ∀ tr s, (machine js).Run ((machine js).keeps (Timeless js)) tr s →
        (machine js).Run Unfailed tr s) ∧
    (∀ c results pendingCall onSuccess onError,
      LogosQmlBridge.watch c results pendingCall onSuccess onError =
        LogosWebBridge.watch c results pendingCall onSuccess onError) ∧
    ∀ c onSuccess onError rv, LogosQmlBridge.finished c onSuccess onError rv =
      LogosWebBridge.finished c onSuccess onError rv := by
  refine ⟨?_, fun _ _ _ _ _ => by rw [watch_qml_eq_web], fun _ _ _ _ => by
    rw [finished_qml_eq_web]⟩
  refine Machine.Run.exact_always nofun fun {_ _ a _ _} hrun h hs => ?_
  cases a with
  | watch r => exact timeless_watch_iff hjs h (run_logged hrun) hs
  | finish call v => exact iff_of_true (h.finish (run_logged hrun) hs) trivial

/-- A page whose values are `undefined`, a number, and two strings. -/
def page : Conversion where
  engine := some fun v => if isValid v then ⟨1, false⟩ else ⟨0, false⟩
  toString _ := ""
  ofString s := if s = "" then ⟨2, false⟩ else ⟨3, false⟩

theorem page_faithful : page.Faithful := by
  refine ⟨fun toScriptValue h => ?_, rfl, by decide⟩
  obtain rfl := Option.some.inj h
  decide

/-- One call is watched before and after it returns, another fails while it is watched. -/
theorem early_and_late : ∃ tr s, (machine fun _ => page).Run Unfailed tr s ∧
    Timeless (fun _ => page) tr s ∧ invocations 0 tr = [⟨⟨10, true⟩, ⟨1, false⟩⟩] ∧
    invocations 1 tr = [⟨⟨11, true⟩, ⟨3, false⟩⟩] ∧ invocations 2 tr = [⟨⟨12, true⟩, ⟨1, false⟩⟩] := by
  have h := Machine.exec_run (M := machine fun _ => page) (G := Unfailed)
    [.watch ⟨.qml, .pending 0, ⟨10, true⟩, ⟨11, true⟩⟩,
      .watch ⟨.web, .pending 1, ⟨10, true⟩, ⟨11, true⟩⟩, .finish 0 (.int 5), .finish 1 .invalid,
      .watch ⟨.web, .pending 0, ⟨12, true⟩, ⟨11, true⟩⟩] rfl
  exact ⟨_, _, h, (timeless_iff (fun _ => page) fun _ => page_faithful).1.1 _ _ h, rfl, rfl, rfl⟩

/-- A call fails before it is watched: its failure arrives as a success. -/
theorem failed_before_is_a_success : ∃ js : Kind → Conversion, (∀ bridge, (js bridge).Faithful) ∧
    ∃ tr s, (machine js).Run Machine.always tr s ∧ ¬ Timeless js tr s ∧
      invocations 0 tr = [⟨⟨10, true⟩, ⟨0, false⟩⟩] := by
  have h := Machine.exec_run (M := machine fun _ => page) (G := Machine.always)
    [.finish 0 .invalid, .watch ⟨.qml, .pending 0, ⟨10, true⟩, ⟨11, true⟩⟩] rfl
  refine ⟨fun _ => page, fun _ => page_faithful, _, _, h, fun hless => ?_, rfl⟩
  have := hless 0 ⟨.qml, .pending 0, ⟨10, true⟩, ⟨11, true⟩⟩ List.mem_cons_self
  revert this
  decide

end LogosViewRuntime.Watch
