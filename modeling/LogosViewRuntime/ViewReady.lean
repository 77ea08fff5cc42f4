import LogosViewRuntime.ViewHeap
import LogosViewRuntime.Lib.Told

/-! # The readiness signal and the readiness query

`notifyViewModuleCrashed` emits after it has dropped the replica; a changed socket and a changed
plugin drop a replica as well and emit nothing, and a replica that was dropped is still connected
until it is deleted.  Exactly the runs in which neither happens to matter keep the signal and the
query in agreement (`agree_iff_agreeing`): a view that follows the signal is otherwise told that a
module is ready which is not (`changed_socket_is_not_told`). -/

namespace LogosViewRuntime.ViewModules

open Reactive

/-! ### The property and its condition -/

/-- The signal of the readiness of modules. -/
def readySignal : Signal Obs String Bool where
  tell := .viewModuleReadyChanged
  read
    | .viewModuleReadyChanged moduleName ready now => some (moduleName, ready, now)
    | _ => none
  read_eq_some o m ready now := by cases o <;> simp

@[simp] theorem readySignal_tell (m : String) (ready now : Bool) :
    readySignal.tell m ready now = .viewModuleReadyChanged m ready now := rfl

/-- What the signal said last about a module among these observations. -/
def lastTold (m : String) (tr : List Obs) : Option Bool := readySignal.last m tr

/-- The signal never says anything else than the query, and what it said last is what the query
answers. -/
def Agree (tr : List Obs) (s : Bridge) : Prop :=
  readySignal.Agrees false (s.alive = true) (fun m => s.isViewModuleReady m) tr

/-- A changed socket or plugin finds the module not ready, and a replica that has been dropped
changes to what the module is. -/
def Agreeing (_ : List Obs) (s : Bridge) : Action → Prop
  | .setViewModuleSocket module socket =>
      s.viewModuleSockets.lookup module ≠ some socket → s.isViewModuleReady module = false
  | .setViewReplicaPlugin module path _ =>
      s.replicaPluginPaths.lookup module ≠ some path → s.isViewModuleReady module = false
  | .stateChanged d state => s.alive = true → ∀ object ∈ s.objects d,
      match object with
      | .replica module _ _ _ => s.cache.lookup (.replica module) ≠ some d →
          s.isViewModuleReady module = decide (state = .valid)
      | _ => True
  | _ => True

instance (tr : List Obs) (s : Bridge) : (a : Action) → Decidable (Agreeing tr s a)
  | .setViewModuleSocket module socket => inferInstanceAs (Decidable
      (s.viewModuleSockets.lookup module ≠ some socket → s.isViewModuleReady module = false))
  | .setViewReplicaPlugin module path _ => inferInstanceAs (Decidable
      (s.replicaPluginPaths.lookup module ≠ some path → s.isViewModuleReady module = false))
  | .stateChanged d state =>
      match hobject : s.objects d with
      | some (.replica module _ _ _) => decidable_of_iff (s.alive = true →
          s.cache.lookup (.replica module) ≠ some d →
            s.isViewModuleReady module = decide (state = .valid)) (by simp [Agreeing, hobject])
      | none | some (.node ..) | some (.loader ..) | some (.modelReplica ..) =>
          .isTrue (by simp [Agreeing, hobject])
  | .module .. | .model .. | .replayViewModuleState | .notifyViewModuleCrashed _ | .turn |
    .destroy => inferInstanceAs (Decidable True)

variable {s s' : Bridge} {tr os : List Obs}

/-! ### When a module becomes ready -/

theorem isValid_congr {d : ℕ} (h : s'.objects d = s.objects d) : s'.isValid d = s.isValid d := by
  unfold Bridge.isValid
  rw [h]

theorem isViewModuleReady_congr {m : String}
    (hcache : s'.cache.lookup (.replica m) = s.cache.lookup (.replica m))
    (hobjects : ∀ d ∈ s.cache.lookup (.replica m), s'.objects d = s.objects d) :
    s'.isViewModuleReady m = s.isViewModuleReady m := by
  unfold Bridge.isViewModuleReady
  rw [hcache]
  cases hlookup : s.cache.lookup (.replica m) with
  | none => rfl
  | some d => exact isValid_congr (hobjects d hlookup)

theorem isViewModuleReady_none {m : String} (h : s.cache.lookup (.replica m) = none) :
    s.isViewModuleReady m = false := by
  unfold Bridge.isViewModuleReady
  rw [h]
  rfl

theorem Grows.isViewModuleReady (h : Coherent s) (hgrows : Grows s s') (m : String) :
    s'.isViewModuleReady m = s.isViewModuleReady m := by
  refine isViewModuleReady_congr (hgrows.acquired _ m rfl) fun d hd => hgrows.old d ?_
  obtain ⟨-, o, ho, -⟩ := h.cached _ d hd
  exact h.lt_created ho

theorem Releases.isViewModuleReady {p : Slot → Prop} (h : Releases p s s') (m : String)
    (hp : ¬ p (.replica m)) : s'.isViewModuleReady m = s.isViewModuleReady m :=
  isViewModuleReady_congr (h.kept _ hp) fun d _ => congrFun h.objects d

/-- A new object leaves every other module alone. -/
theorem isViewModuleReady_store (h : Coherent s) {object : Object} {m : String}
    (hm : object.slot ≠ .replica m) :
    (s.store object).isViewModuleReady m = s.isViewModuleReady m := by
  apply isViewModuleReady_congr (lookup_store_ne (Ne.symm hm))
  intro d hd
  obtain ⟨-, o, ho, -⟩ := h.cached _ d hd
  exact Function.update_of_ne (Nat.ne_of_lt (h.lt_created ho)) ..

theorem isViewModuleReady_storeReplica (m : String) (node factory : ℕ) (state : Option State) :
    (s.store (.replica m node factory state)).isViewModuleReady m = decide (state = some .valid) := by
  have hobject : (s.store (.replica m node factory state)).objects s.created =
      some (.replica m node factory state) := Function.update_self ..
  have hcached : (s.store (.replica m node factory state)).cache.lookup (.replica m) =
      some s.created := lookup_store_self (.replica m node factory state) s
  unfold Bridge.isViewModuleReady Bridge.isValid
  rw [hcached, Option.any_some, hobject]
  rcases state with _ | _ | _ | _ | _ <;> rfl

theorem isViewModuleReady_turn (h : Coherent s) (m : String) :
    s.turn.1.isViewModuleReady m = s.isViewModuleReady m := by
  unfold Bridge.turn
  cases hqueue : s.queue with
  | nil => rfl
  | cons d queue =>
      dsimp only [Bridge.destroyObject]
      split
      · rfl
      · refine isViewModuleReady_congr rfl fun d' hd' => Function.update_of_ne ?_ ..
        rintro rfl
        exact (h.cached _ d' hd').1 (by simp [hqueue])

theorem isViewModuleReady_stateChanged (h : Coherent s) {d : ℕ} {m : String} {node factory : ℕ}
    {old : Option State} (hd : s.objects d = some (.replica m node factory old)) (state : State)
    (m' : String) : (s.stateChanged d m node factory state).1.isViewModuleReady m' =
      if s.cache.lookup (.replica m) = some d ∧ m' = m then decide (state = .valid)
      else s.isViewModuleReady m' := by
  split_ifs with hcached
  · obtain ⟨hcached, rfl⟩ := hcached
    unfold Bridge.stateChanged Bridge.isViewModuleReady Bridge.isValid
    simp only [hcached, Option.any_some, Function.update_self]
    cases state <;> rfl
  · refine isViewModuleReady_congr rfl fun d' hd' => Function.update_of_ne ?_ ..
    rintro rfl
    obtain ⟨-, o, ho, hslot⟩ := h.cached _ d' hd'
    obtain rfl := Option.some.inj (hd.symm.trans ho)
    obtain rfl := Slot.replica.inj hslot
    exact hcached ⟨hd', rfl⟩

/-! ### Step by step -/

/-- A replica is dropped and nothing is emitted: right exactly when the module was not ready. -/
theorem Agree.dropped_iff (h : Agree tr s) (halive : s.alive = true) (halive' : s'.alive = true)
    {m : String} (hdropped : s'.isViewModuleReady m = false)
    (hother : ∀ m' ≠ m, s'.isViewModuleReady m' = s.isViewModuleReady m') :
    Agree (tr ++ []) s' ↔ s.isViewModuleReady m = false := by
  apply (h.silent_iff halive halive' (by simp)).trans
  constructor
  · intro hsame
    rw [← hsame m, hdropped]
  · intro hready m'
    by_cases hm : m' = m
    · rw [hm, hdropped, hready]
    · exact hother m' hm

theorem agree_module (hsane : Coherent s) (h : Agree tr s) (m : String) (load : Load)
    (acquired : Option (Option State)) :
    Agree (tr ++ (s.module m load acquired).2) (s.module m load acquired).1 := by
  obtain ⟨s₁, r, -, hgrows, -, he⟩ | ⟨s₁, node, factory, state, hs₁, hgrows, -, hslot, -, -, he⟩ :=
    hsane.module_cases m load acquired
  · rw [he]
    exact h.quiet hgrows.alive.symm.trans (hgrows.isViewModuleReady hsane) (by simp)
  · rw [he]
    have hbefore : s.isViewModuleReady m = false := by
      rw [← hgrows.isViewModuleReady hsane m]
      exact isViewModuleReady_none hslot
    have hafter := isViewModuleReady_storeReplica (s := s₁) m node factory state
    refine h.extend (fun ha => ⟨hgrows.alive ▸ ha, fun m' => ?_⟩) fun m' ready now hm => ?_
    · by_cases hm : m' = m
      · subst hm
        by_cases hvalid : state = some .valid
        · exact .inr ⟨true, (s₁.store (.replica m' node factory state)).isViewModuleReady m', by
            simp [hvalid, Bridge.readyChanged]⟩
        · exact .inl (by rw [hbefore, hafter, decide_eq_false hvalid])
      · left
        rw [← hgrows.isViewModuleReady hsane m']
        exact isViewModuleReady_store hs₁ fun he => hm (Slot.replica.inj he).symm
    · by_cases hvalid : state = some .valid
      · obtain ⟨rfl, rfl, rfl⟩ : m' = m ∧ ready = true ∧
            now = (s₁.store (.replica m node factory state)).isViewModuleReady m := by
          simpa [hvalid, Bridge.readyChanged] using hm
        exact ⟨by rw [hafter, decide_eq_true hvalid], rfl⟩
      · simp [hvalid] at hm

theorem agree_model (hsane : Coherent s) (h : Agree tr s) (m x : String) (acquired : Bool) :
    Agree (tr ++ (s.model m x acquired).2) (s.model m x acquired).1 := by
  obtain ⟨s₁, r, -, hgrows, -, he⟩ | ⟨s₁, node, hs₁, hgrows, -, -, -, he⟩ :=
    hsane.model_cases m x acquired
  · rw [he]
    exact h.quiet hgrows.alive.symm.trans (hgrows.isViewModuleReady hsane) (by simp)
  · rw [he]
    refine h.quiet hgrows.alive.symm.trans (fun m' => ?_) (by simp)
    rw [← hgrows.isViewModuleReady hsane m']
    exact isViewModuleReady_store hs₁ (by simp [Object.slot])

theorem agree_replay (h : Agree tr s) : Agree (tr ++ s.replayViewModuleState) s := by
  refine h.extend (fun ha => ⟨ha, fun m => .inl rfl⟩) fun m ready now hm => ?_
  obtain ⟨m', hm', he⟩ := List.mem_map.mp hm
  obtain ⟨rfl, rfl, rfl⟩ := Obs.viewModuleReadyChanged.inj he
  exact ⟨(List.mem_filter.mp hm').2.symm, rfl⟩

theorem agree_stateChanged_iff (hsane : Sane s) (h : Agree tr s) {d : ℕ} {m : String}
    {node factory : ℕ} {old : Option State} (hd : s.objects d = some (.replica m node factory old))
    (state : State) :
    Agree (tr ++ (s.stateChanged d m node factory state).2)
      (s.stateChanged d m node factory state).1 ↔ Agreeing tr s (.stateChanged d state) := by
  have hcondition : Agreeing tr s (.stateChanged d state) ↔ (s.alive = true →
      s.cache.lookup (.replica m) ≠ some d → s.isViewModuleReady m = decide (state = .valid)) := by
    simp [Agreeing, hd]
  rw [hcondition]
  cases halive : s.alive with
  | false =>
      refine iff_of_true (h.extend (fun ha => ?_) fun m' ready now hm => ?_) nofun
      · have : s.alive = true := ha
        rw [halive] at this
        cases this
      · simp [Bridge.stateChanged, halive] at hm
  | true =>
      have hready := isViewModuleReady_stateChanged (hsane halive) hd state
      have hos : (s.stateChanged d m node factory state).2 =
          [.viewModuleReadyChanged m (decide (state = .valid))
            ((s.stateChanged d m node factory state).1.isViewModuleReady m)] := by
        simp [Bridge.stateChanged, halive, Bridge.readyChanged]
      rw [hos]
      by_cases hcached : s.cache.lookup (.replica m) = some d
      · refine iff_of_true (h.extend (fun _ => ⟨halive, fun m' => ?_⟩) fun m' ready now hm => ?_)
          fun _ hne => absurd hcached hne
        · by_cases hm : m' = m
          · exact .inr ⟨_, _, by rw [hm]; exact List.mem_singleton.mpr rfl⟩
          · exact .inl (by rw [hready, if_neg fun hc => hm hc.2])
        · obtain ⟨rfl, rfl, rfl⟩ := Obs.viewModuleReadyChanged.inj (List.mem_singleton.mp hm)
          exact ⟨by rw [hready, if_pos ⟨hcached, rfl⟩], rfl⟩
      · have hsame : ∀ m', (s.stateChanged d m node factory state).1.isViewModuleReady m' =
            s.isViewModuleReady m' := fun m' => by rw [hready, if_neg fun hc => hcached hc.1]
        constructor
        · intro h' _ _
          have := h'.emitted m _ _ (List.mem_append_right _ (List.mem_singleton.mpr rfl))
          rw [this, hsame]
        · intro hagrees
          refine h.extend (fun _ => ⟨halive, fun m' => .inl (hsame m')⟩) fun m' ready now hm => ?_
          obtain ⟨rfl, rfl, rfl⟩ := Obs.viewModuleReadyChanged.inj (List.mem_singleton.mp hm)
          exact ⟨by rw [hsame, hagrees rfl hcached], rfl⟩

theorem not_belongsTo {m m' : String} (hm : m' ≠ m) : ¬ Slot.BelongsTo m (.replica m') := by
  rintro (hof | he | he)
  · exact hm hof
  · cases he
  · cases he

theorem mem_destroyObject {d : ℕ} {o : Obs} (h : o ∈ (s.destroyObject d).2) : o = .destroyed d := by
  unfold Bridge.destroyObject at h
  split at h
  · cases h
  · exact List.mem_singleton.mp h

theorem mem_turn {o : Obs} (h : o ∈ s.turn.2) : ∃ d, o = .destroyed d := by
  unfold Bridge.turn at h
  split at h
  · cases h
  · exact ⟨_, mem_destroyObject h⟩

theorem mem_deleteChildren {children : List ℕ} {o : Obs} (h : o ∈ (s.deleteChildren children).2) :
    ∃ d, o = .destroyed d := by
  induction children generalizing s with
  | nil => cases h
  | cons d children ih =>
      obtain h | h := List.mem_append.mp h
      · exact ⟨d, mem_destroyObject h⟩
      · exact ih h

theorem agree_setViewModuleSocket_iff (hsane : Coherent s) (h : Agree tr s) (halive : s.alive = true)
    (m socket : String) : Agree (tr ++ []) (s.setViewModuleSocket m socket) ↔
      Agreeing tr s (.setViewModuleSocket m socket) := by
  have hcondition : Agreeing tr s (.setViewModuleSocket m socket) ↔
      (s.viewModuleSockets.lookup m ≠ some socket → s.isViewModuleReady m = false) := .rfl
  rw [hcondition]
  obtain ⟨hsame, he⟩ | ⟨hne, -, hreleases⟩ := hsane.setViewModuleSocket_cases m socket
  · rw [he, List.append_nil]
    exact iff_of_true h fun hne => absurd hsame hne
  · refine (h.dropped_iff halive (hreleases.alive.trans halive) ?_ fun m' hm => ?_).trans
      ⟨fun hr _ => hr, fun hr => hr hne⟩
    · exact isViewModuleReady_none (hreleases.gone _ (.inl rfl))
    · exact hreleases.isViewModuleReady m' (not_belongsTo hm)

theorem agree_setViewReplicaPlugin_iff (hsane : Coherent s) (h : Agree tr s)
    (halive : s.alive = true) (m path : String) (load : Load) :
    Agree (tr ++ []) (s.setViewReplicaPlugin m path load) ↔
      Agreeing tr s (.setViewReplicaPlugin m path load) := by
  have hcondition : Agreeing tr s (.setViewReplicaPlugin m path load) ↔
      (s.replicaPluginPaths.lookup m ≠ some path → s.isViewModuleReady m = false) := .rfl
  rw [hcondition]
  obtain ⟨hsame, he⟩ | ⟨hne, s₁, hs₁, hreleases, -, hgrows⟩ :=
    hsane.setViewReplicaPlugin_cases m path load
  · rw [he, List.append_nil]
    exact iff_of_true h fun hne => absurd hsame hne
  · have hready := hgrows.isViewModuleReady hs₁
    have halive' := hgrows.alive.trans (hreleases.alive.trans halive)
    refine (h.dropped_iff halive halive' ?_ fun m' hm => ?_).trans
      ⟨fun hr _ => hr, fun hr => hr hne⟩
    · exact (hready m).trans (isViewModuleReady_none (hreleases.gone _ (.inl rfl)))
    · apply (hready m').trans
      apply hreleases.isViewModuleReady m'
      simpa using hm

theorem agree_crashed (h : Agree tr s) (halive : s.alive = true) (m : String) :
    Agree (tr ++ (s.notifyViewModuleCrashed m).2) (s.notifyViewModuleCrashed m).1 := by
  obtain ⟨hdrop, -⟩ := releases_drop m s
  have hgone : (s.dropViewModuleCaches m).isViewModuleReady m = false :=
    isViewModuleReady_none (hdrop.gone _ (.inl rfl))
  refine h.extend (fun _ => ⟨halive, fun m' => ?_⟩) fun m' ready now hm => ?_
  · by_cases hm : m' = m
    · exact .inr ⟨false, _, by rw [hm]; exact List.mem_cons_self⟩
    · exact .inl (hdrop.isViewModuleReady m' (not_belongsTo hm))
  · obtain ⟨rfl, rfl, rfl⟩ : m' = m ∧ ready = false ∧
        now = (s.dropViewModuleCaches m).isViewModuleReady m := by
      simpa [Bridge.readyChanged, Bridge.notifyViewModuleCrashed] using hm
    exact ⟨hgone.symm, rfl⟩

theorem agree_turn (hsane : Sane s) (h : Agree tr s) : Agree (tr ++ s.turn.2) s.turn.1 := by
  refine h.extend (fun ha => ?_) fun m ready now hm => ?_
  · have halive : s.alive = true := turn_alive s ▸ ha
    exact ⟨halive, fun m => .inl (isViewModuleReady_turn (hsane halive) m)⟩
  · obtain ⟨d, hd⟩ := mem_turn hm
    cases hd

theorem agree_destroy (h : Agree tr s) : Agree (tr ++ s.destroy.2) s.destroy.1 := by
  refine h.extend (fun ha => ?_) fun m ready now hm => ?_
  · exact absurd ((destroy_alive s).symm.trans ha) Bool.false_ne_true
  · obtain ⟨d, hd⟩ := mem_deleteChildren hm
    cases hd

/-- **Every step** keeps the signal and the query in agreement exactly when it meets the
condition. -/
theorem agree_step_iff {a : Action} (hsane : Sane s) (h : Agree tr s)
    (hs : step s a = some (s', os)) : Agree (tr ++ os) s' ↔ Agreeing tr s a := by
  cases step_cases hs with
  | module m load acquired halive =>
      exact iff_of_true (agree_module (hsane halive) h m load acquired) trivial
  | model m x acquired halive =>
      exact iff_of_true (agree_model (hsane halive) h m x acquired) trivial
  | replayViewModuleState _ =>
      exact iff_of_true (agree_replay h) trivial
  | setViewModuleSocket m socket halive =>
      exact agree_setViewModuleSocket_iff (hsane halive) h halive m socket
  | setViewReplicaPlugin m path load halive =>
      exact agree_setViewReplicaPlugin_iff (hsane halive) h halive m path load
  | notifyViewModuleCrashed m halive =>
      exact iff_of_true (agree_crashed h halive m) trivial
  | stateChanged d state m node factory old hobject =>
      exact agree_stateChanged_iff hsane h hobject state
  | turn =>
      exact iff_of_true (agree_turn hsane h) trivial
  | destroy _ =>
      exact iff_of_true (agree_destroy h) trivial

/-! ### Runs -/

/-- **The signal and the query agree** in exactly the runs in which a changed socket or plugin
finds the module not ready and a dropped replica changes to what the module is. -/
theorem agree_iff_agreeing (tr : List Obs) (s : Bridge) :
    (machine.Run Agreeing tr s → Agree tr s) ∧
      (machine.Run (machine.keeps Agree) tr s → machine.Run Agreeing tr s) := by
  have hinit : Agree [] machine.init := Signal.Agrees.initial fun _ => rfl
  have hexact := Machine.Run.exact_always (M := machine) (C := Agreeing) hinit
    fun hrun h hs => agree_step_iff (run_sane hrun) h hs
  exact ⟨hexact.1 tr s, hexact.2 tr s⟩

/-- A module becomes ready, crashes, comes back on another socket and becomes ready again, while
the replica that was dropped notices the crash. -/
theorem crashed_module_is_told : ∃ tr s, machine.Run Agreeing tr s ∧
    s.isViewModuleReady "chat" = true ∧ lastTold "chat" tr = some true := by
  have h := Machine.exec_run (M := machine) (G := Agreeing)
    [.setViewReplicaPlugin "chat" "/chat.so" .factory, .setViewModuleSocket "chat" "a",
      .module "chat" .factory (some (some .valid)), .notifyViewModuleCrashed "chat",
      .setViewModuleSocket "chat" "b", .stateChanged 3 .suspect, .turn, .turn, .turn, .turn,
      .module "chat" .factory (some (some .default)), .stateChanged 6 .valid] rfl
  have hagree := (agree_iff_agreeing _ _).1 h
  exact ⟨_, _, h, (hagree.told rfl "chat").trans rfl, rfl⟩

/-- A socket changes under a ready module: nothing says that the module is not ready any more. -/
theorem changed_socket_is_not_told : ∃ tr s, machine.Run Machine.always tr s ∧ ¬ Agree tr s ∧
    lastTold "chat" tr = some true ∧ s.isViewModuleReady "chat" = false := by
  have h := Machine.exec_run (M := machine) (G := Machine.always)
    [.setViewReplicaPlugin "chat" "/chat.so" .factory, .setViewModuleSocket "chat" "a",
      .module "chat" .factory (some (some .valid)), .setViewModuleSocket "chat" "b"] rfl
  refine ⟨_, _, h, fun hagree => ?_, rfl, rfl⟩
  cases hagree.told rfl "chat"

/-- A replica that has been dropped becomes valid and announces a module that has none. -/
example : ∃ tr s, machine.Run Machine.always tr s ∧ ¬ Agree tr s ∧
    .viewModuleReadyChanged "chat" true false ∈ tr := by
  have h := Machine.exec_run (M := machine) (G := Machine.always)
    [.setViewReplicaPlugin "chat" "/chat.so" .factory, .setViewModuleSocket "chat" "a",
      .module "chat" .factory (some (some .default)), .notifyViewModuleCrashed "chat",
      .stateChanged 3 .valid] rfl
  refine ⟨_, _, h, fun hagree => ?_, ?_⟩
  · cases hagree.emitted "chat" true false (by decide)
  · decide

end LogosViewRuntime.ViewModules
