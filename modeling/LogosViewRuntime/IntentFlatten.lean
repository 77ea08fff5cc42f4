import LogosViewRuntime.IntentBridge

/-! # What `respond` hands to the router

`data` is an untyped `QVariant`, so it reaches `respond` as QML built it: a `QJSValue` at the top,
plain containers, or containers with `QJSValue`s somewhere in them.  `flattenForCrossEngine`
converts the first kind and hands the others on, whatever is inside. -/

namespace LogosViewRuntime.Intent

open Reactive
open Bridge (flattenForCrossEngine)

/-- A `QJSValue` lies in the value, at some depth. -/
inductive EngineBound : QVariant → Prop
  | jsValue (v : QJSValue) : EngineBound (.jsValue v)
  | element {l : List QVariant} {element : QVariant} (hmem : element ∈ l)
      (h : EngineBound element) : EngineBound (.list l)
  | entry {m : QVariantMap} {key : String} {value : QVariant} (hmem : (key, value) ∈ m)
      (h : EngineBound value) : EngineBound (.map m)

theorem engineBound_map {m : QVariantMap} :
    EngineBound (.map m) ↔ ∃ key value, (key, value) ∈ m ∧ EngineBound value := by
  constructor
  · rintro (_ | _ | ⟨hmem, h⟩)
    exact ⟨_, _, hmem, h⟩
  · rintro ⟨key, value, hmem, h⟩
    exact .entry hmem h

theorem not_engineBound_string (s : String) : ¬ EngineBound (.string s) := by
  rintro ⟨⟩

/-- The value is a `QJSValue` itself, if there is one in it at all. -/
def Wrapped (data : QVariant) : Prop := EngineBound data → ∃ v, data = .jsValue v

variable {toVariant : QJSValue → QVariant}

/-- A value that is not a `QJSValue` itself is handed on as it is. -/
theorem flattenForCrossEngine_id {data : QVariant} (h : ∀ v, data ≠ .jsValue v) :
    flattenForCrossEngine toVariant data = data := by
  cases data with
  | jsValue v => exact absurd rfl (h v)
  | _ => rfl

theorem flattenForCrossEngine_plain {data : QVariant} (h : ¬ EngineBound data) :
    flattenForCrossEngine toVariant data = data :=
  flattenForCrossEngine_id fun v hv => h (hv ▸ .jsValue v)

/-- What is handed on holds no `QJSValue` exactly if there was none below the top. -/
theorem flattenForCrossEngine_iff (htoVariant : ∀ v, ¬ EngineBound (toVariant v))
    (data : QVariant) : ¬ EngineBound (flattenForCrossEngine toVariant data) ↔ Wrapped data := by
  by_cases h : ∃ v, data = .jsValue v
  · obtain ⟨v, rfl⟩ := h
    exact iff_of_true (htoVariant v) fun _ => ⟨v, rfl⟩
  · rw [flattenForCrossEngine_id fun v hv => h ⟨v, hv⟩, Wrapped]
    constructor
    · intro hplain hbound
      exact absurd hbound hplain
    · intro hwrapped hbound
      exact h (hwrapped hbound)

/-- A bridge with a router hands it one value for one call of `respond`; the value holds no
`QJSValue`, and is `data` itself if there was none in it, exactly if `data` holds none below the
top. -/
theorem respond_flattens_iff (htoVariant : ∀ v, ¬ EngineBound (toVariant v)) (s : Bridge)
    {router : RouterId} (hrouter : s.intentRouter = some router) (requestId : String) (ok : Bool)
    (data : QVariant) (error : String) :
    ∃ routed, (s.respond toVariant requestId ok data error).2 =
        [.routeIntentResponse router requestId ok routed error] ∧
      ((¬ EngineBound routed ∧ (¬ EngineBound data → routed = data)) ↔ Wrapped data) := by
  refine ⟨flattenForCrossEngine toVariant data, by simp [Bridge.respond, hrouter], ?_⟩
  rw [flattenForCrossEngine_iff htoVariant]
  exact and_iff_left flattenForCrossEngine_plain

/-- A JavaScript object `{ provider: "wallet_b" }` and its conversion. -/
def walletObject : QJSValue := { handle := 0, isCallable := false }

/-- `QJSValue::toVariant` in an engine that holds that object only. -/
def walletToVariant (v : QJSValue) : QVariant :=
  if v = walletObject then .map [("provider", .string "wallet_b")] else .invalid

theorem walletToVariant_plain (v : QJSValue) : ¬ EngineBound (walletToVariant v) := by
  unfold walletToVariant
  split_ifs
  · rw [engineBound_map]
    rintro ⟨key, value, hmem, h⟩
    obtain ⟨-, rfl⟩ := Prod.mk.inj (List.mem_singleton.mp hmem)
    exact not_engineBound_string _ h
  · rintro ⟨⟩

/-- The object at the top arrives as the map it stands for. -/
theorem respond_flattens_object : ∃ routed,
    (({ intentRouter := some 0 } : Bridge).respond walletToVariant "dispatch-1" true
      (.jsValue walletObject) "").2 = [.routeIntentResponse 0 "dispatch-1" true routed ""] ∧
    ¬ EngineBound routed := by
  obtain ⟨routed, hrouted, hiff⟩ := respond_flattens_iff walletToVariant_plain
    { intentRouter := some 0 } rfl "dispatch-1" true (.jsValue walletObject) ""
  exact ⟨routed, hrouted, (hiff.mpr fun _ => ⟨_, rfl⟩).1⟩

/-- The same object inside a list reaches the router as the engine's handle. -/
theorem respond_hands_on_nested_object :
    (({ intentRouter := some 0 } : Bridge).respond walletToVariant "dispatch-1" true
      (.list [.jsValue walletObject]) "").2 =
        [.routeIntentResponse 0 "dispatch-1" true (.list [.jsValue walletObject]) ""] ∧
    EngineBound (.list [.jsValue walletObject]) :=
  ⟨rfl, .element List.mem_cons_self (.jsValue _)⟩

/-! ### Runs -/

/-- No value a router was handed as an answer holds a `QJSValue`. -/
def Flattened (tr : List Obs) : Prop := ∀ router requestId ok routed error,
  .routeIntentResponse router requestId ok routed error ∈ tr → ¬ EngineBound routed

/-- `respond` of a bridge that has a router is called with values that hold no `QJSValue` below
the top. -/
def WrappedAnswers (_ : List Obs) (s : Bridge) : Action → Prop
  | .respond _ _ data _ => s.intentRouter ≠ none → Wrapped data
  | _ => True

variable {tr os : List Obs} {s s' : Bridge} {a : Action}

/-- The answers a step hands to a router are those of a `respond`. -/
def Answers (toVariant : QJSValue → QVariant) (s : Bridge) (a : Action) (o : Obs) : Prop :=
  ∀ router requestId ok routed error, o = .routeIntentResponse router requestId ok routed error →
    ∃ data, a = .respond requestId ok data error ∧ s.intentRouter = some router ∧
      routed = flattenForCrossEngine toVariant data

theorem deliverIntentResult_answers (requestId : String) (envelope : QVariantMap) (s t : Bridge)
    (a : Action) : ∀ o ∈ (s.deliverIntentResult requestId envelope).2, Answers toVariant t a o := by
  unfold Bridge.deliverIntentResult
  split
  · simp [Answers]
  · dsimp only
    split_ifs <;> simp [Answers]

theorem runQueued_answers (q : QueuedResult) (s t : Bridge) (a : Action) :
    ∀ o ∈ (s.runQueued q).2, Answers toVariant t a o := by
  unfold Bridge.runQueued
  split_ifs <;> simp [Answers]

theorem step_answers (hs : step toVariant s a = some (s', os)) :
    ∀ o ∈ os, Answers toVariant s a o := by
  cases a with
  | request requestId intent params callback =>
      obtain ⟨-, -, rfl⟩ := Machine.taken_unless hs
      unfold Bridge.request
      split
      · exact List.forall_mem_cons.mpr ⟨by simp [Answers], deliverIntentResult_answers _ _ _ _ _⟩
      · simp [Answers]
  | respond requestId ok data error =>
      obtain ⟨-, -, rfl⟩ := Machine.taken_unless hs
      unfold Bridge.respond
      split
      · simp
      · rename_i router hrouter
        refine List.forall_mem_singleton.mpr ?_
        rintro _ _ _ _ _ ⟨⟩
        exact ⟨data, rfl, hrouter, rfl⟩
  | deliverIntentResult requestId envelope =>
      obtain ⟨-, -, rfl⟩ := Machine.taken_unless hs
      exact deliverIntentResult_answers _ _ _ _ _
  | abandonPendingIntents requestIds =>
      obtain ⟨-, -, rfl⟩ := Machine.taken_unless hs
      unfold Bridge.abandonPendingIntents
      dsimp only
      split_ifs
      · simp [Answers]
      · split <;> simp [Answers]
  | setIntentRouter router =>
      obtain ⟨-, -, rfl⟩ := Machine.taken_unless hs
      simp
  | destroy =>
      obtain ⟨-, -, rfl⟩ := Machine.taken_if hs
      unfold Bridge.destroy
      dsimp only
      split <;> simp [Answers]
  | turn =>
      simp only [step] at hs
      split at hs
      · rw [show os = _ from (congrArg Prod.snd (Option.some.inj hs)).symm]
        exact runQueued_answers _ _ _ _
      · cases hs
  | ret =>
      obtain ⟨_, -, he⟩ := Option.map_eq_some_iff.mp hs
      rw [← (Prod.mk.inj he).2]
      simp
  | bindEngine engine =>
      obtain ⟨-, -, rfl⟩ := Machine.taken_unless hs
      simp
  | destroyEngine engine =>
      rw [← (Prod.mk.inj (Option.some.inj hs)).2]
      simp

theorem flattened_step (htoVariant : ∀ v, ¬ EngineBound (toVariant v)) (hflat : Flattened tr)
    (hs : step toVariant s a = some (s', os)) : Flattened (tr ++ os) ↔ WrappedAnswers tr s a := by
  have hanswers := step_answers hs
  constructor
  · intro hflat'
    cases a with
    | respond requestId ok data error =>
        intro hrouter
        obtain ⟨router, hrouter⟩ := Option.ne_none_iff_exists'.mp hrouter
        obtain ⟨-, -, rfl⟩ := Machine.taken_unless hs
        rw [← flattenForCrossEngine_iff htoVariant]
        exact hflat' router requestId ok _ error
          (List.mem_append_right _ (by simp [Bridge.respond, hrouter]))
    | _ => trivial
  · intro hwrapped router requestId ok routed error hm
    obtain hm | hm := List.mem_append.mp hm
    · exact hflat router requestId ok routed error hm
    · obtain ⟨data, rfl, hrouter, rfl⟩ := hanswers _ hm router requestId ok routed error rfl
      rw [flattenForCrossEngine_iff htoVariant]
      exact hwrapped (by simp [hrouter])

/-- Whatever else the bridge does, no router is ever handed a `QJSValue` in an answer if and only
if every `respond` with a router is called with values that hold none below the top. -/
theorem flattened_iff_wrapped (htoVariant : ∀ v, ¬ EngineBound (toVariant v)) (tr : List Obs)
    (s : Bridge) :
    ((machine toVariant).Run WrappedAnswers tr s → Flattened tr) ∧
      ((machine toVariant).Run ((machine toVariant).keeps fun tr _ => Flattened tr) tr s →
        (machine toVariant).Run WrappedAnswers tr s) := by
  obtain ⟨hflat, hwrapped⟩ := Machine.Run.exact_always (M := machine toVariant)
    (C := WrappedAnswers) (P := fun tr _ => Flattened tr) (by simp [Flattened])
    fun _ hflat hs => flattened_step htoVariant hflat hs
  exact ⟨hflat tr s, hwrapped tr s⟩

end LogosViewRuntime.Intent
