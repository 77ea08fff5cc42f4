import LogosViewRuntime.WebReady

/-! # How a web view comes by its backend

`module` answers null until the replica is valid, so a view that asks once while it is completed
and again on each signal has the replica whenever its module is ready: the replica under a name
never changes, and what is ready without a signal was ready when the view asked
(`views_get_their_backend`).  A view that only listens is served by the next replay. -/

namespace LogosViewRuntime.WebViews

open Reactive

variable {s s' : Bridge} {tr os : List Obs} {m : String} {d : ℕ}

/-- If the module of a view is ready, the view has its replica. -/
def Binds (s : Bridge) (view : View) : Prop :=
  s.isViewModuleReady view.moduleName = true → view.backend = s.replicas.lookup view.moduleName

/-- `acquireDynamic` does not return null to a view that is completed. -/
def Obtains (_ : List (Machine.Taken Bridge Action Obs)) (s : Bridge) : Action → Prop
  | .mount m asked acquired => asked = true → s.node = true → s.replicas.lookup m = none →
      acquired ≠ none
  | _ => True

instance (tr : List (Machine.Taken Bridge Action Obs)) (s : Bridge) :
    (a : Action) → Decidable (Obtains tr s a)
  | .mount m asked acquired => inferInstanceAs (Decidable
      (asked = true → s.node = true → s.replicas.lookup m = none → acquired ≠ none))
  | .module .. | .ensureRouter _ | .stateChanged .. | .replayViewModuleState _ | .unmount _ |
    .destroy => inferInstanceAs (Decidable True)

/-- The books of the views and of what `module` has answered. -/
structure Bound (tr : List Obs) (s : Bridge) : Prop where
  cached : Cached s
  answered : ∀ m d, .module m (some d) ∈ tr → s.replicas.lookup m = some d
  taken : ∀ view ∈ s.views, ∀ d ∈ view.backend, .module view.moduleName (some d) ∈ tr
  acquired : ∀ view ∈ s.views, view.asked = true → s.node = true →
    s.replicas.lookup view.moduleName ≠ none
  binds : ∀ view ∈ s.views, view.asked = true → Binds s view

/-- What `module` answers in a step is a valid replica, the one under that name; after a replay
every view of a module that is ready has it. -/
structure Answers (t : Machine.Taken Bridge Action Obs) : Prop where
  valid : ∀ m d, .module m (some d) ∈ t.os →
    t.after.replicas.lookup m = some d ∧ t.after.isValid d = true
  replayed : ∀ order, t.label = .replayViewModuleState order →
    ∀ view ∈ t.after.views, Binds t.after view

/-! ### Answers -/

theorem module_answer {acquired : Option ViewModules.State}
    (h : (s.module m acquired).2 = some d) :
    (s.module m acquired).1.replicas.lookup m = some d ∧
      (s.module m acquired).1.isValid d = true := by
  unfold Bridge.module at h ⊢
  obtain ⟨hfound, hvalid⟩ := Option.filter_eq_some_iff.mp h
  refine ⟨?_, hvalid⟩
  have hcases := replicaFor_found m acquired s
  generalize s.replicaFor m acquired = found at *
  cases hcases with
  | cached d' hd =>
      obtain rfl := Option.some.inj hfound
      exact hd
  | nothing hm => cases hfound
  | acquired state hm =>
      obtain rfl := Option.some.inj hfound
      exact AList.lookup_insert _

theorem module_of_ready (acquired : Option ViewModules.State)
    (h : s.isViewModuleReady m = true) :
    (s.module m acquired).2 = s.replicas.lookup m := by
  obtain ⟨d, hd, hvalid⟩ := exists_of_ready h
  rw [module_of_lookup acquired hd, if_pos hvalid, hd]

theorem Same.isValid (h : Same s s') (d : ℕ) : s'.isValid d = s.isValid d := by
  unfold Bridge.isValid
  rw [h.state]

theorem Same.binds (h : Same s s') (view : View) : Binds s' view ↔ Binds s view := by
  unfold Binds
  rw [h.isViewModuleReady, h.replicas]

theorem Acquires.lookup {captured : Option String} {state : ViewModules.State}
    (h : Acquires captured state s s') (hd : s.replicas.lookup m = some d) :
    s'.replicas.lookup m = some d := by
  rw [h.replicas, if_neg, hd]
  intro hm
  rw [h.fresh m hm] at hd
  cases hd

/-- A view without a replica to have is bound to nothing. -/
theorem Binds.of_none {view : View} (h : s.replicas.lookup view.moduleName = none) :
    Binds s view := fun hready => by
  rw [isViewModuleReady_none h] at hready
  cases hready

/-! ### Emissions -/

/-- The slot of a view binds it, if the signal is about its module and says that it is ready. -/
theorem hear_binds {ready : Bool} (hready : ready = true → s.isViewModuleReady m = true)
    {view : View} (hview : view.moduleName = m → ready = false → Binds s view)
    (hother : view.moduleName ≠ m → Binds s view) : Binds s (s.hear m ready view) := by
  unfold Bridge.hear
  split
  · rename_i hc
    obtain ⟨rfl, rfl⟩ := hc
    exact fun _ => module_of_ready none (hready rfl)
  · rename_i hc
    by_cases hm : view.moduleName = m
    · refine hview hm ?_
      cases ready with
      | false => rfl
      | true => exact absurd ⟨hm, rfl⟩ hc
    · exact hother hm

@[simp] theorem hear_moduleName (m : String) (ready : Bool) (s : Bridge) (view : View) :
    (s.hear m ready view).moduleName = view.moduleName := by
  unfold Bridge.hear
  split <;> rfl

@[simp] theorem hear_asked (m : String) (ready : Bool) (s : Bridge) (view : View) :
    (s.hear m ready view).asked = view.asked := by
  unfold Bridge.hear
  split <;> rfl

theorem hear_taken {ready : Bool} {view : View} (hview : view ∈ s.views)
    (h : d ∈ (s.hear m ready view).backend) :
    d ∈ view.backend ∨ .module view.moduleName (some d) ∈ (s.emitReady m ready).2 := by
  unfold Bridge.hear at h
  split at h
  · rename_i hc
    right
    apply List.mem_cons_of_mem
    refine List.mem_map.mpr ⟨view, List.mem_filter.mpr ⟨hview, decide_eq_true hc⟩, ?_⟩
    obtain ⟨rfl, rfl⟩ := hc
    exact congrArg (Obs.module _) (Option.mem_def.mp h)
  · exact .inl h

theorem answer_emitReady {m' : String} {ready : Bool}
    (h : .module m' (some d) ∈ (s.emitReady m ready).2) :
    s.replicas.lookup m' = some d ∧ s.isValid d = true := by
  obtain h | h := List.mem_cons.mp h
  · cases h
  · obtain ⟨view, -, he⟩ := List.mem_map.mp h
    obtain ⟨rfl, hanswer⟩ := Obs.module.inj he
    simpa using module_answer hanswer

/-- What an emission leaves of the books: all views but those it is about are as they were. -/
structure Held (m : String) (tr : List Obs) (s : Bridge) : Prop where
  cached : Cached s
  answered : ∀ m d, .module m (some d) ∈ tr → s.replicas.lookup m = some d
  taken : ∀ view ∈ s.views, ∀ d ∈ view.backend, .module view.moduleName (some d) ∈ tr
  acquired : ∀ view ∈ s.views, view.asked = true → s.node = true →
    s.replicas.lookup view.moduleName ≠ none
  others : ∀ view ∈ s.views, view.asked = true → view.moduleName ≠ m → Binds s view

theorem Bound.held (h : Bound tr s) (m : String) : Held m tr s where
  cached := h.cached
  answered := h.answered
  taken := h.taken
  acquired := h.acquired
  others view hview hasked _ := h.binds view hview hasked

theorem Held.emitReady {ready : Bool} (h : Held m tr s)
    (hready : s.isViewModuleReady m = ready) :
    Bound (tr ++ (s.emitReady m ready).2) (s.emitReady m ready).1 where
  cached := (same_emitReady m ready s).cached h.cached
  answered m' d hm := by
    obtain hm | hm := List.mem_append.mp hm
    · exact h.answered m' d hm
    · exact (answer_emitReady hm).1
  taken view hview d hd := by
    obtain ⟨old, hold, rfl⟩ := List.mem_map.mp hview
    rw [hear_moduleName]
    obtain hd | hd := hear_taken hold hd
    · exact List.mem_append_left _ (h.taken old hold d hd)
    · exact List.mem_append_right _ hd
  acquired view hview hasked := by
    obtain ⟨old, hold, rfl⟩ := List.mem_map.mp hview
    rw [hear_moduleName]
    exact h.acquired old hold (hear_asked m ready s old ▸ hasked)
  binds view hview hasked := by
    obtain ⟨old, hold, rfl⟩ := List.mem_map.mp hview
    rw [(same_emitReady m ready s).binds]
    refine hear_binds (fun hr => hready.trans hr) (fun hm hr htrue => ?_)
      (h.others old hold (hear_asked m ready s old ▸ hasked))
    rw [hm, hready, hr] at htrue
    cases htrue

/-! ### Steps -/

theorem module_binds (acquired : Option ViewModules.State)
    (hready : (s.module m acquired).1.isViewModuleReady m = true) :
    (s.module m acquired).2 = (s.module m acquired).1.replicas.lookup m := by
  unfold Bridge.module at hready ⊢
  have hcases := replicaFor_found m acquired s
  generalize s.replicaFor m acquired = found at *
  cases hcases with
  | cached d hd =>
      simp only at hready ⊢
      rw [isViewModuleReady_of_lookup hd] at hready
      rw [hd]
      exact if_pos hready
  | nothing hm =>
      simp only at hready
      rw [isViewModuleReady_none hm] at hready
      cases hready
  | acquired state hm =>
      have hd : (s.replicas.insert m s.created).lookup m = some s.created := AList.lookup_insert _
      simp only at hready ⊢
      rw [isViewModuleReady_of_lookup hd] at hready
      rw [hd]
      exact if_pos hready

/-- A replica for a view that has not asked for its module, or for nobody. -/
theorem Bound.acquires {captured : Option String} {state : ViewModules.State} (h : Bound tr s)
    (hacquires : Acquires captured state s s') (hnode : captured = none ∨ s.node = true) :
    Bound tr s' where
  cached := hacquires.cached h.cached
  answered m d hm := hacquires.lookup (h.answered m d hm)
  taken := by
    rw [hacquires.views]
    exact h.taken
  acquired view hview hasked hnode' := by
    rw [hacquires.views] at hview
    rw [hacquires.node] at hnode'
    obtain ⟨d, hd⟩ := Option.ne_none_iff_exists'.mp (h.acquired view hview hasked hnode')
    rw [hacquires.lookup hd]
    exact nofun
  binds view hview hasked := by
    rw [hacquires.views] at hview
    have hne : captured ≠ some view.moduleName := by
      rintro rfl
      obtain hc | hnode := hnode
      · cases hc
      · exact h.acquired view hview hasked hnode (hacquires.fresh _ rfl)
    intro hready
    rw [hacquires.isViewModuleReady h.cached, if_neg hne] at hready
    rw [hacquires.replicas, if_neg hne]
    exact h.binds view hview hasked hready

theorem Bound.told (h : Bound tr s)
    (hos : ∀ m d, .module m (some d) ∈ os → s.replicas.lookup m = some d) : Bound (tr ++ os) s where
  cached := h.cached
  answered m d hm := by
    obtain hm | hm := List.mem_append.mp hm
    · exact h.answered m d hm
    · exact hos m d hm
  taken view hview d hd := List.mem_append_left _ (h.taken view hview d hd)
  acquired := h.acquired
  binds := h.binds

theorem Bound.module (h : Bound tr s) (m : String) (acquired : Option ViewModules.State) :
    Bound (tr ++ [.module m (s.module m acquired).2]) (s.module m acquired).1 := by
  have hmodule : Bound tr (s.module m acquired).1 := by
    obtain ⟨he, -⟩ | ⟨state, -, hnode, -, hacquires⟩ := module_effect m acquired s
    · rwa [he]
    · exact h.acquires hacquires (.inr hnode)
  refine hmodule.told fun m' d hm => ?_
  obtain ⟨rfl, hd⟩ := Obs.module.inj (List.mem_singleton.mp hm)
  exact (module_answer hd.symm).1

theorem Bound.mount (h : Bound tr s) {asked : Bool} {acquired : Option ViewModules.State}
    (hobtains : asked = true → s.node = true → s.replicas.lookup m = none → acquired ≠ none) :
    Bound (tr ++ (s.mount m asked acquired).2) (s.mount m asked acquired).1 := by
  unfold Bridge.mount
  cases asked with
  | false =>
      have hold : Bound (tr ++ []) s := h.told nofun
      exact
        { cached := ⟨hold.cached.lookup_iff⟩
          answered := hold.answered
          taken := fun view hview d hd => by
            obtain hview | hview := List.mem_append.mp hview
            · exact hold.taken view hview d hd
            · obtain rfl := List.mem_singleton.mp hview
              cases hd
          acquired := fun view hview hasked hnode => by
            obtain hview | hview := List.mem_append.mp hview
            · exact hold.acquired view hview hasked hnode
            · obtain rfl := List.mem_singleton.mp hview
              cases hasked
          binds := fun view hview hasked => by
            obtain hview | hview := List.mem_append.mp hview
            · exact hold.binds view hview hasked
            · obtain rfl := List.mem_singleton.mp hview
              cases hasked }
  | true =>
      have hmodule := h.module m acquired
      exact
        { cached := ⟨hmodule.cached.lookup_iff⟩
          answered := hmodule.answered
          taken := fun view hview d hd => by
            obtain hview | hview := List.mem_append.mp hview
            · exact hmodule.taken view hview d hd
            · obtain rfl := List.mem_singleton.mp hview
              refine List.mem_append_right _ (List.mem_singleton.mpr ?_)
              exact congrArg (Obs.module m) (Option.mem_def.mp hd).symm
          acquired := fun view hview hasked hnode => by
            obtain hview | hview := List.mem_append.mp hview
            · exact hmodule.acquired view hview hasked hnode
            · obtain rfl := List.mem_singleton.mp hview
              obtain ⟨he, hnone⟩ | ⟨state, -, -, hm, hacquires⟩ := module_effect m acquired s
              · intro hlookup
                simp only [he] at hlookup hnode
                exact hobtains rfl hnode hlookup (hnone hnode hlookup)
              · simp [hacquires.replicas]
          binds := fun view hview hasked => by
            obtain hview | hview := List.mem_append.mp hview
            · exact hmodule.binds view hview hasked
            · obtain rfl := List.mem_singleton.mp hview
              exact module_binds acquired }

theorem Bound.stateChanged (h : Bound tr s) (hd : d < s.created) (state : ViewModules.State) :
    Bound (tr ++ (s.stateChanged d state).2) (s.stateChanged d state).1 := by
  have hready := isViewModuleReady_stateChanged h.cached hd state
  have hcached := h.cached.setState d state
  unfold Bridge.stateChanged
  simp only
  cases hm : s.captured d with
  | none =>
      rw [List.append_nil]
      refine ⟨hcached, h.answered, h.taken, h.acquired, fun view hview hasked hr => ?_⟩
      rw [hready, hm, if_neg nofun] at hr
      exact h.binds view hview hasked hr
  | some m =>
      refine Held.emitReady ⟨hcached, h.answered, h.taken, h.acquired, ?_⟩ ?_
      · intro view hview hasked hne hr
        rw [hready, hm, if_neg fun he => hne (Option.some.inj he).symm] at hr
        exact h.binds view hview hasked hr
      · rw [hready, hm, if_pos rfl]

theorem Bound.replay (h : Bound tr s) (order : List String) :
    Bound (tr ++ (s.replayViewModuleState order).2) (s.replayViewModuleState order).1 := by
  induction order generalizing s tr with
  | nil => exact h.told nofun
  | cons m order ih =>
      unfold Bridge.replayViewModuleState
      split
      · rename_i hready
        rw [← List.append_assoc]
        exact ih ((h.held m).emitReady hready)
      · exact ih h

/-- After a replay, a view is bound if it was before or if its module has been replayed. -/
theorem replay_binds (order : List String) (s : Bridge) :
    ∀ view ∈ (s.replayViewModuleState order).1.views, ∃ old ∈ s.views,
      view.moduleName = old.moduleName ∧ (Binds s old ∨ old.moduleName ∈ order →
        Binds (s.replayViewModuleState order).1 view) := by
  induction order generalizing s with
  | nil =>
      intro view hview
      exact ⟨view, hview, rfl, fun h => h.resolve_right List.not_mem_nil⟩
  | cons m order ih =>
      intro view hview
      unfold Bridge.replayViewModuleState at hview ⊢
      split at hview
      · rename_i hready
        obtain ⟨mid, hmid, hname, hbinds⟩ := ih _ view hview
        obtain ⟨old, hold, rfl⟩ := List.mem_map.mp hmid
        rw [hear_moduleName] at hname hbinds
        refine ⟨old, hold, hname, fun h => ?_⟩
        rw [if_pos hready]
        apply hbinds
        by_cases hrest : old.moduleName ∈ order
        · exact .inr hrest
        · left
          rw [(same_emitReady m true s).binds]
          apply hear_binds fun _ => hready
          · intro _ hfalse
            cases hfalse
          · intro hne
            obtain h | h := h
            · exact h
            · exact ((List.mem_cons.mp h).elim hne hrest).elim
      · rename_i hready
        obtain ⟨old, hold, hname, hbinds⟩ := ih _ view hview
        refine ⟨old, hold, hname, fun h => ?_⟩
        rw [if_neg hready]
        apply hbinds
        obtain h | h := h
        · exact .inl h
        · obtain rfl | h := List.mem_cons.mp h
          · exact .inl fun htrue => absurd htrue hready
          · exact .inr h

/-- A replay over all of the map binds every view. -/
theorem replay_binds_all {order : List String} (horder : order.Perm s.replicas.keys) :
    ∀ view ∈ (s.replayViewModuleState order).1.views,
      Binds (s.replayViewModuleState order).1 view := by
  intro view hview
  obtain ⟨old, -, hname, hbinds⟩ := replay_binds order s view hview
  by_cases hm : old.moduleName ∈ s.replicas
  · exact hbinds (.inr (horder.mem_iff.mpr (AList.mem_keys.mp hm)))
  · apply hbinds
    exact .inl (.of_none (AList.lookup_eq_none.mpr hm))

theorem answer_replay {order : List String}
    (h : .module m (some d) ∈ (s.replayViewModuleState order).2) :
    s.replicas.lookup m = some d ∧ s.isValid d = true := by
  induction order generalizing s with
  | nil => cases h
  | cons m' order ih =>
      unfold Bridge.replayViewModuleState at h
      split at h
      · obtain h | h := List.mem_append.mp h
        · exact answer_emitReady h
        · have hsame := same_emitReady m' true s
          rw [← hsame.replicas, ← hsame.isValid]
          exact ih h
      · exact ih h

/-- What is answered in a step holds after it. -/
theorem answers_step {a : Action} {r : Bridge × List Obs} (hs : Steps s a r) :
    Answers ⟨s, a, r.2, r.1⟩ where
  valid m d hm := by
    cases hs with
    | module m' acquired =>
        obtain ⟨rfl, hd⟩ := Obs.module.inj (List.mem_singleton.mp hm)
        exact module_answer hd.symm
    | ensureRouter acquired => cases hm
    | stateChanged d' state hd' hne =>
        have hsame := same_stateChanged d' state s
        rw [hsame.replicas, hsame.isValid]
        unfold Bridge.stateChanged at hm
        simp only at hm
        split at hm
        · cases hm
        · exact answer_emitReady hm
    | replayViewModuleState order horder =>
        have hsame := same_replay order s
        rw [hsame.replicas, hsame.isValid]
        exact answer_replay hm
    | mount m' asked acquired =>
        have hsame := same_mount m' asked acquired s
        rw [hsame.replicas, hsame.isValid]
        unfold Bridge.mount at hm
        cases asked with
        | false => cases hm
        | true =>
            obtain ⟨rfl, hd⟩ := Obs.module.inj (List.mem_singleton.mp hm)
            exact module_answer hd.symm
    | unmount i => cases hm
    | destroy => cases hm
  replayed order hlabel := by
    cases hs with
    | replayViewModuleState order horder => exact replay_binds_all horder
    | _ => cases hlabel

theorem Bound.step {a : Action} {r : Bridge × List Obs}
    {log : List (Machine.Taken Bridge Action Obs)} (h : Bound tr s) (hobtains : Obtains log s a)
    (hs : Steps s a r) : Bound (tr ++ r.2) r.1 := by
  cases hs with
  | module m acquired => exact h.module m acquired
  | ensureRouter acquired =>
      rw [List.append_nil]
      obtain he | ⟨state, hacquires⟩ := ensureRouter_effect acquired s
      · rwa [he]
      · exact h.acquires hacquires (.inl rfl)
  | stateChanged d state hd hne => exact h.stateChanged hd state
  | replayViewModuleState order horder => exact h.replay order
  | mount m asked acquired => exact h.mount hobtains
  | unmount i =>
      have hold : Bound (tr ++ []) s := h.told nofun
      exact ⟨⟨hold.cached.lookup_iff⟩, hold.answered,
        fun view hview => hold.taken view (List.mem_of_mem_eraseIdx hview),
        fun view hview => hold.acquired view (List.mem_of_mem_eraseIdx hview),
        fun view hview => hold.binds view (List.mem_of_mem_eraseIdx hview)⟩
  | destroy =>
      have hold : Bound (tr ++ []) s := h.told nofun
      exact ⟨⟨hold.cached.lookup_iff⟩, hold.answered, hold.taken, hold.acquired, hold.binds⟩

/-! ### Runs -/

theorem Bound.initial (node : Bool) : Bound [] (machine node).init :=
  ⟨Cached.initial node, nofun, nofun, nofun, nofun⟩

/-- **Views come by their backend.**  In every run in which `acquireDynamic` does not return null
to a view that is completed, `module` answers null or the one replica under that name, which is
valid at that moment; a view that asked for its module when it was completed has that replica
whenever the module is ready, and a view that did not has it after the next replay. -/
theorem views_get_their_backend {node : Bool} {log : List (Machine.Taken Bridge Action Obs)}
    (h : (machine node).shown.Run Obtains log s) :
    (∀ t ∈ log, Answers t) ∧
      (∀ view ∈ s.views, (view.asked = true → Binds s view) ∧ ∀ d ∈ view.backend,
        .module view.moduleName (some d) ∈ log.flatMap (·.os)) ∧
      ∀ m d, .module m (some d) ∈ log.flatMap (·.os) → s.replicas.lookup m = some d ∧
        ∀ m', s.replicas.lookup m' = some d → m' = m := by
  have hbound := h.invariant (I := fun (log : List (Machine.Taken Bridge Action Obs)) s =>
    Bound (log.flatMap (·.os)) s ∧ ∀ t ∈ log, Answers t) ⟨by exact Bound.initial node, by simp⟩
    fun {log s a s' _} hi hg hs => by
      obtain ⟨os, hos, rfl⟩ := Machine.shown_step.mp hs
      have hsteps := (step_steps hos).2
      have hbooks := hi.1.step hg hsteps
      rw [List.flatMap_append, List.flatMap_singleton]
      refine ⟨hbooks, fun t ht => ?_⟩
      obtain ht | ht := List.mem_append.mp ht
      · exact hi.2 t ht
      · obtain rfl := List.mem_singleton.mp ht
        exact answers_step hsteps
  obtain ⟨hbound, hanswers⟩ := hbound
  refine ⟨hanswers, fun view hview => ⟨hbound.binds view hview, hbound.taken view hview⟩,
    fun m d hm => ?_⟩
  have hd := hbound.answered m d hm
  refine ⟨hd, fun m' hd' => ?_⟩
  have hname := ((hbound.cached.lookup_iff m d).mp hd).2
  rw [((hbound.cached.lookup_iff m' d).mp hd').2] at hname
  exact Option.some.inj hname

/-- Two views of one module, of which one only listens and is served by a replay. -/
theorem listener_waits_for_a_replay : ∃ log s,
    (machine true).shown.Run Obtains log s ∧ (∀ t ∈ log, Answers t) ∧
    s.views = [⟨"counter", true, some 0⟩, ⟨"counter", false, some 0⟩] ∧
    .module "counter" none ∈ log.flatMap (·.os) := by
  obtain ⟨log, s, h, hviews, hnone⟩ := Machine.exec_any (M := (machine true).shown) (G := Obtains)
    [.mount "counter" true (some .uninitialized), .stateChanged 0 .valid,
      .mount "counter" false none, .replayViewModuleState ["counter"]]
    (p := fun log s => s.views = [⟨"counter", true, some 0⟩, ⟨"counter", false, some 0⟩] ∧
      .module "counter" none ∈ log.flatMap (·.os)) (by decide +kernel)
  exact ⟨log, s, h, (views_get_their_backend h).1, hviews, hnone⟩

end LogosViewRuntime.WebViews
