import LogosViewRuntime.WebViews
import LogosViewRuntime.Lib.Told

/-! # Readiness in the web container

A web bridge never drops a replica, so its signal and its query can part in one way only: the node
knows the source of a module already when the module is acquired, so that the replica is valid from
the start and no state changes.  In exactly the other runs the two agree (`agree_iff_unready`). -/

namespace LogosViewRuntime.WebViews

open Reactive

variable {s s' : Bridge} {tr os : List Obs} {m : String} {d : ℕ}

/-! ### The property and its condition -/

/-- The signal of the readiness of modules. -/
def readySignal : Signal Obs String Bool where
  tell := .viewModuleReadyChanged
  read
    | .viewModuleReadyChanged moduleName ready now => some (moduleName, ready, now)
    | _ => none
  read_eq_some o m ready now := by cases o <;> simp

/-- What the signal said last about a module among these observations. -/
def lastTold (m : String) (tr : List Obs) : Option Bool := readySignal.last m tr

/-- The signal never says anything else than the query, and what it said last is what the query
answers. -/
def Agree (tr : List Obs) (s : Bridge) : Prop :=
  readySignal.Agrees false True (fun m => s.isViewModuleReady m) tr

/-- A module that is acquired is not ready at once. -/
def Unready (_ : List Obs) (s : Bridge) : Action → Prop
  | .module m acquired => s.node = true → s.replicas.lookup m = none → acquired ≠ some .valid
  | .mount m asked acquired => asked = true → s.node = true → s.replicas.lookup m = none →
      acquired ≠ some .valid
  | _ => True

instance (tr : List Obs) (s : Bridge) : (a : Action) → Decidable (Unready tr s a)
  | .module m acquired => inferInstanceAs (Decidable
      (s.node = true → s.replicas.lookup m = none → acquired ≠ some .valid))
  | .mount m asked acquired => inferInstanceAs (Decidable
      (asked = true → s.node = true → s.replicas.lookup m = none → acquired ≠ some .valid))
  | .ensureRouter _ | .stateChanged .. | .replayViewModuleState _ | .unmount _ | .destroy =>
      inferInstanceAs (Decidable True)

/-! ### The replicas -/

/-- A replica is cached under the name that its slot captured. -/
structure Cached (s : Bridge) : Prop where
  lookup_iff : ∀ m d, s.replicas.lookup m = some d ↔ d < s.created ∧ s.captured d = some m

theorem Cached.lt (h : Cached s) (hd : s.replicas.lookup m = some d) : d < s.created :=
  ((h.lookup_iff m d).mp hd).1

/-- What `replicaFor` finds. -/
inductive Found (m : String) (s : Bridge) : Bridge × Option ℕ → Prop where
  | cached (d : ℕ) (hd : s.replicas.lookup m = some d) : Found m s (s, some d)
  | nothing (hm : s.replicas.lookup m = none) : Found m s (s, none)
  | acquired (state : ViewModules.State) (hm : s.replicas.lookup m = none) : Found m s
      ({ s.acquireDynamic (some m) state with replicas := s.replicas.insert m s.created },
        some s.created)

theorem replicaFor_found (m : String) (acquired : Option ViewModules.State) (s : Bridge) :
    Found m s (s.replicaFor m acquired) := by
  unfold Bridge.replicaFor
  cases hm : s.replicas.lookup m with
  | some d => exact .cached d hm
  | none =>
      simp only
      split
      · exact .nothing hm
      · cases acquired with
        | none => exact .nothing hm
        | some state => exact .acquired state hm

@[simp] theorem module_none_fst (m : String) (s : Bridge) : (s.module m none).1 = s := by
  unfold Bridge.module Bridge.replicaFor
  split
  · rfl
  · split <;> rfl

theorem module_of_lookup (acquired : Option ViewModules.State) (hd : s.replicas.lookup m = some d) :
    s.module m acquired = (s, if s.isValid d = true then some d else none) := by
  unfold Bridge.module Bridge.replicaFor
  rw [hd]
  rfl

theorem isViewModuleReady_of_lookup (hd : s.replicas.lookup m = some d) :
    s.isViewModuleReady m = s.isValid d := by
  unfold Bridge.isViewModuleReady
  rw [hd]
  rfl

theorem isViewModuleReady_none (hm : s.replicas.lookup m = none) :
    s.isViewModuleReady m = false := by
  unfold Bridge.isViewModuleReady
  rw [hm]
  rfl

theorem exists_of_ready (h : s.isViewModuleReady m = true) :
    ∃ d, s.replicas.lookup m = some d ∧ s.isValid d = true := (Option.any_eq_true ..).mp h

theorem isViewModuleReady_congr (hreplicas : s'.replicas.lookup m = s.replicas.lookup m)
    (hstate : ∀ d ∈ s.replicas.lookup m, s'.state d = s.state d) :
    s'.isViewModuleReady m = s.isViewModuleReady m := by
  cases hm : s.replicas.lookup m with
  | none => rw [isViewModuleReady_none hm, isViewModuleReady_none (hreplicas.trans hm)]
  | some d =>
      rw [isViewModuleReady_of_lookup hm, isViewModuleReady_of_lookup (hreplicas.trans hm)]
      unfold Bridge.isValid
      rw [hstate d hm]

/-! ### What a step does to them -/

/-- Nothing but the views differs. -/
structure Same (s s' : Bridge) : Prop where
  node : s'.node = s.node
  alive : s'.alive = s.alive
  replicas : s'.replicas = s.replicas
  created : s'.created = s.created
  state : s'.state = s.state
  captured : s'.captured = s.captured

theorem Same.refl (s : Bridge) : Same s s := ⟨rfl, rfl, rfl, rfl, rfl, rfl⟩

theorem Same.trans {s'' : Bridge} (h : Same s s') (h' : Same s' s'') : Same s s'' where
  node := h'.node.trans h.node
  alive := h'.alive.trans h.alive
  replicas := h'.replicas.trans h.replicas
  created := h'.created.trans h.created
  state := h'.state.trans h.state
  captured := h'.captured.trans h.captured

theorem Same.isViewModuleReady (h : Same s s') (m : String) :
    s'.isViewModuleReady m = s.isViewModuleReady m :=
  isViewModuleReady_congr (by rw [h.replicas]) fun d _ => by rw [h.state]

theorem Same.cached (h : Same s s') (hs : Cached s) : Cached s' where
  lookup_iff m d := by rw [h.replicas, h.created, h.captured, hs.lookup_iff]

theorem same_emitReady (m : String) (ready : Bool) (s : Bridge) :
    Same s (s.emitReady m ready).1 := ⟨rfl, rfl, rfl, rfl, rfl, rfl⟩

theorem same_replay (order : List String) (s : Bridge) :
    Same s (s.replayViewModuleState order).1 := by
  induction order generalizing s with
  | nil => exact Same.refl s
  | cons m order ih =>
      unfold Bridge.replayViewModuleState
      split
      · exact (same_emitReady m true s).trans (ih _)
      · exact ih s

/-- A replica is acquired under a name that has none yet, or for the router. -/
structure Acquires (captured : Option String) (state : ViewModules.State) (s s' : Bridge) :
    Prop where
  fresh : ∀ m ∈ captured, s.replicas.lookup m = none
  node : s'.node = s.node
  alive : s'.alive = s.alive
  views : s'.views = s.views
  replicas : ∀ m, s'.replicas.lookup m =
    if captured = some m then some s.created else s.replicas.lookup m
  created : s'.created = s.created + 1
  state : s'.state = Function.update s.state s.created state
  captured : s'.captured = Function.update s.captured s.created captured

theorem acquires_replica (state : ViewModules.State) (hm : s.replicas.lookup m = none) :
    Acquires (some m) state s { s.acquireDynamic (some m) state with
      replicas := s.replicas.insert m s.created } where
  fresh m' hm' := by
    obtain rfl := Option.some.inj hm'
    exact hm
  node := rfl
  alive := rfl
  views := rfl
  replicas m' := by
    by_cases hne : m' = m
    · rw [if_pos (by rw [hne]), hne]
      exact AList.lookup_insert _
    · rw [if_neg fun he => hne (Option.some.inj he).symm]
      exact AList.lookup_insert_ne hne
  created := rfl
  state := rfl
  captured := rfl

theorem acquires_router (state : ViewModules.State) (s : Bridge) :
    Acquires none state s { s.acquireDynamic none state with router := some s.created } where
  fresh := nofun
  node := rfl
  alive := rfl
  views := rfl
  replicas m := by rw [if_neg nofun]; rfl
  created := rfl
  state := rfl
  captured := rfl

section
variable {captured : Option String} {state : ViewModules.State}

theorem Acquires.cached (h : Acquires captured state s s') (hs : Cached s) : Cached s' where
  lookup_iff m d := by
    rw [h.replicas, h.created, h.captured]
    by_cases hd : d = s.created
    · subst hd
      rw [Function.update_self]
      constructor
      · intro hlookup
        split_ifs at hlookup with hm
        · exact ⟨Nat.lt_succ_self _, hm⟩
        · exact absurd (hs.lt hlookup) (lt_irrefl _)
      · rintro ⟨-, hm⟩
        rw [if_pos hm]
    · rw [Function.update_of_ne hd]
      split_ifs with hm
      · constructor
        · intro he
          exact absurd (Option.some.inj he).symm hd
        · rintro ⟨hlt, he⟩
          have hold := (hs.lookup_iff m d).mpr
            ⟨lt_of_le_of_ne (Nat.le_of_lt_succ hlt) hd, he⟩
          rw [h.fresh m hm] at hold
          cases hold
      · rw [hs.lookup_iff]
        constructor
        · rintro ⟨hlt, he⟩
          exact ⟨Nat.lt_succ_of_lt hlt, he⟩
        · rintro ⟨hlt, he⟩
          exact ⟨lt_of_le_of_ne (Nat.le_of_lt_succ hlt) hd, he⟩

theorem Acquires.isViewModuleReady (h : Acquires captured state s s') (hs : Cached s)
    (m : String) : s'.isViewModuleReady m =
      if captured = some m then decide (state = .valid) else s.isViewModuleReady m := by
  have hlookup := h.replicas m
  split_ifs at hlookup ⊢ with hm
  · rw [isViewModuleReady_of_lookup hlookup]
    unfold Bridge.isValid
    rw [h.state, Function.update_self]
  · refine isViewModuleReady_congr hlookup fun d hd => ?_
    rw [h.state, Function.update_of_ne (hs.lt hd).ne]

end

theorem isViewModuleReady_stateChanged (hs : Cached s) (hd : d < s.created)
    (state : ViewModules.State) (m : String) :
    Bridge.isViewModuleReady m { s with state := Function.update s.state d state } =
      if s.captured d = some m then decide (state = .valid) else s.isViewModuleReady m := by
  split_ifs with hm
  · have hlookup : s.replicas.lookup m = some d := (hs.lookup_iff m d).mpr ⟨hd, hm⟩
    have hvalid : Bridge.isValid d { s with state := Function.update s.state d state } =
        decide (state = .valid) := by simp [Bridge.isValid]
    rw [← hvalid]
    exact isViewModuleReady_of_lookup hlookup
  · refine isViewModuleReady_congr rfl fun d' hd' => ?_
    have hne : d' ≠ d := by
      rintro rfl
      exact hm ((hs.lookup_iff m d').mp hd').2
    exact Function.update_of_ne hne _ _

/-- `module` acquires a replica, or it leaves everything as it is. -/
theorem module_effect (m : String) (acquired : Option ViewModules.State) (s : Bridge) :
    ((s.module m acquired).1 = s ∧ (s.node = true → s.replicas.lookup m = none → acquired = none)) ∨
      ∃ state, acquired = some state ∧ s.node = true ∧ s.replicas.lookup m = none ∧
        Acquires (some m) state s (s.module m acquired).1 := by
  unfold Bridge.module Bridge.replicaFor
  cases hm : s.replicas.lookup m with
  | some d => exact .inl ⟨rfl, nofun⟩
  | none =>
      cases hnode : s.node with
      | false => exact .inl ⟨rfl, nofun⟩
      | true =>
          cases acquired with
          | none => exact .inl ⟨rfl, fun _ _ => rfl⟩
          | some state => exact .inr ⟨state, rfl, rfl, rfl, acquires_replica state hm⟩

theorem ensureRouter_effect (acquired : Option ViewModules.State) (s : Bridge) :
    s.ensureRouter acquired = s ∨
      ∃ state, Acquires none state s (s.ensureRouter acquired) := by
  unfold Bridge.ensureRouter
  split
  · exact .inl rfl
  · cases acquired with
    | none => exact .inl rfl
    | some state => exact .inr ⟨state, acquires_router state s⟩

/-- The steps that are not refused. -/
inductive Steps (s : Bridge) : Action → Bridge × List Obs → Prop where
  | module (m : String) (acquired : Option ViewModules.State) : Steps s (.module m acquired)
      ((s.module m acquired).1, [.module m (s.module m acquired).2])
  | ensureRouter (acquired : Option ViewModules.State) :
      Steps s (.ensureRouter acquired) (s.ensureRouter acquired, [])
  | stateChanged (d : ℕ) (state : ViewModules.State) (hd : d < s.created)
      (hne : s.state d ≠ state) : Steps s (.stateChanged d state) (s.stateChanged d state)
  | replayViewModuleState (order : List String) (horder : order.Perm s.replicas.keys) :
      Steps s (.replayViewModuleState order) (s.replayViewModuleState order)
  | mount (m : String) (asked : Bool) (acquired : Option ViewModules.State) :
      Steps s (.mount m asked acquired) (s.mount m asked acquired)
  | unmount (i : ℕ) : Steps s (.unmount i) ({ s with views := s.views.eraseIdx i }, [])
  | destroy : Steps s .destroy ({ s with alive := false }, [])

theorem step_steps {a : Action} {r : Bridge × List Obs} (hs : step s a = some r) :
    s.alive = true ∧ Steps s a r := by
  unfold step at hs
  obtain ⟨halive, hs⟩ := Option.ite_none_left_eq_some.mp hs
  refine ⟨by simpa using halive, ?_⟩
  cases a with
  | module m acquired => obtain rfl := Option.some.inj hs; exact .module m acquired
  | ensureRouter acquired => obtain rfl := Option.some.inj hs; exact .ensureRouter acquired
  | stateChanged d state =>
      obtain ⟨⟨hd, hne⟩, hr⟩ := Option.ite_none_right_eq_some.mp hs
      obtain rfl := Option.some.inj hr
      exact .stateChanged d state hd hne
  | replayViewModuleState order =>
      obtain ⟨horder, hr⟩ := Option.ite_none_right_eq_some.mp hs
      obtain rfl := Option.some.inj hr
      exact .replayViewModuleState order horder
  | mount m asked acquired => obtain rfl := Option.some.inj hs; exact .mount m asked acquired
  | unmount i => obtain rfl := Option.some.inj hs; exact .unmount i
  | destroy => obtain rfl := Option.some.inj hs; exact .destroy

/-- What `mount` does to the replicas is what `module` does to them. -/
theorem same_mount (m : String) (asked : Bool) (acquired : Option ViewModules.State) (s : Bridge) :
    Same (if asked = true then (s.module m acquired).1 else s) (s.mount m asked acquired).1 := by
  unfold Bridge.mount
  cases asked <;> exact ⟨rfl, rfl, rfl, rfl, rfl, rfl⟩

theorem Cached.module (h : Cached s) (m : String) (acquired : Option ViewModules.State) :
    Cached (s.module m acquired).1 := by
  obtain ⟨he, -⟩ | ⟨state, -, -, -, hacquires⟩ := module_effect m acquired s
  · rwa [he]
  · exact hacquires.cached h

theorem Cached.setState (h : Cached s) (d : ℕ) (state : ViewModules.State) :
    Cached { s with state := Function.update s.state d state } := ⟨h.lookup_iff⟩

theorem same_stateChanged (d : ℕ) (state : ViewModules.State) (s : Bridge) :
    Same { s with state := Function.update s.state d state } (s.stateChanged d state).1 := by
  unfold Bridge.stateChanged
  simp only
  split
  · exact Same.refl _
  · exact same_emitReady ..

theorem Cached.step {a : Action} {r : Bridge × List Obs} (h : Cached s) (hs : Steps s a r) :
    Cached r.1 := by
  cases hs with
  | module m acquired => exact h.module m acquired
  | ensureRouter acquired =>
      obtain he | ⟨state, hacquires⟩ := ensureRouter_effect acquired s
      · rw [he]
        exact h
      · exact hacquires.cached h
  | stateChanged d state => exact (same_stateChanged d state s).cached (h.setState d state)
  | replayViewModuleState order => exact (same_replay order s).cached h
  | mount m asked acquired =>
      apply (same_mount m asked acquired s).cached
      split
      · exact h.module m acquired
      · exact h
  | unmount i => exact ⟨h.lookup_iff⟩
  | destroy => exact ⟨h.lookup_iff⟩

theorem Cached.initial (node : Bool) : Cached (machine node).init where
  lookup_iff _ d := ⟨nofun, fun h => absurd h.1 (Nat.not_lt_zero d)⟩

/-! ### What a step tells -/

theorem mem_emitReady {m' : String} {ready ready' now : Bool} :
    .viewModuleReadyChanged m' ready' now ∈ (s.emitReady m ready).2 ↔
      m' = m ∧ ready' = ready ∧ now = s.isViewModuleReady m := by
  unfold Bridge.emitReady
  simp

theorem mem_replay {ready now : Bool} {order : List String} (h :
    .viewModuleReadyChanged m ready now ∈ (s.replayViewModuleState order).2) :
    ready = true ∧ now = true ∧ s.isViewModuleReady m = true := by
  induction order generalizing s with
  | nil => cases h
  | cons m' order ih =>
      unfold Bridge.replayViewModuleState at h
      split at h
      · rename_i hready
        obtain h | h := List.mem_append.mp h
        · obtain ⟨rfl, rfl, rfl⟩ := mem_emitReady.mp h
          exact ⟨rfl, hready, hready⟩
        · obtain ⟨hr, hn, hm⟩ := ih h
          exact ⟨hr, hn, ((same_emitReady m' true s).isViewModuleReady m) ▸ hm⟩
      · exact ih h

/-- An acquired replica keeps the agreement exactly when it is not valid at once. -/
theorem Agree.acquires_iff {state : ViewModules.State} (h : Agree tr s) (hs : Cached s)
    (hacquires : Acquires (some m) state s s')
    (hos : ∀ m ready now, .viewModuleReadyChanged m ready now ∉ os) :
    Agree (tr ++ os) s' ↔ state ≠ .valid := by
  have hready := hacquires.isViewModuleReady hs
  have hnone : s.isViewModuleReady m = false :=
    isViewModuleReady_none (hacquires.fresh m rfl)
  apply (h.silent_iff trivial trivial hos).trans
  constructor
  · rintro hsame rfl
    have hsame := hsame m
    rw [hready, if_pos rfl, hnone] at hsame
    cases hsame
  · intro hne m'
    rw [hready]
    split_ifs with hm
    · rw [← Option.some.inj hm, hnone]
      exact decide_eq_false hne
    · rfl

theorem Agree.module_iff (h : Agree tr s) (hs : Cached s) (acquired : Option ViewModules.State)
    (hsame : Same (s.module m acquired).1 s')
    (hos : ∀ m ready now, .viewModuleReadyChanged m ready now ∉ os) :
    Agree (tr ++ os) s' ↔
      (s.node = true → s.replicas.lookup m = none → acquired ≠ some .valid) := by
  have hquiet : Agree (tr ++ os) s' ↔ Agree (tr ++ os) (s.module m acquired).1 := by
    constructor
    · intro h'
      exact ⟨h'.emitted, fun _ m' => (hsame.isViewModuleReady m').symm.trans (h'.told trivial m')⟩
    · intro h'
      exact ⟨h'.emitted, fun _ m' => (hsame.isViewModuleReady m').trans (h'.told trivial m')⟩
  rw [hquiet]
  obtain ⟨he, hnone⟩ | ⟨state, rfl, hnode, hm, hacquires⟩ := module_effect m acquired s
  · refine iff_of_true (h.quiet id (fun m' => by rw [he]) hos) fun hnode hm hvalid => ?_
    rw [hnone hnode hm] at hvalid
    cases hvalid
  · rw [h.acquires_iff hs hacquires hos]
    constructor
    · intro hne _ _ hvalid
      exact hne (Option.some.inj hvalid)
    · intro hne hvalid
      exact hne hnode hm (congrArg some hvalid)

theorem agree_stateChanged (hs : Cached s) (h : Agree tr s) (hd : d < s.created)
    (state : ViewModules.State) :
    Agree (tr ++ (s.stateChanged d state).2) (s.stateChanged d state).1 := by
  have hready := isViewModuleReady_stateChanged hs hd state
  unfold Bridge.stateChanged
  simp only
  cases hm : s.captured d with
  | none => exact h.quiet id (fun m' => by rw [hready, hm, if_neg nofun]) nofun
  | some m =>
      refine h.extend (fun _ => ⟨trivial, fun m' => ?_⟩) fun m' ready now hmem => ?_
      · by_cases he : m' = m
        · exact .inr ⟨_, _, mem_emitReady.mpr ⟨he, rfl, rfl⟩⟩
        · refine .inl (((same_emitReady ..).isViewModuleReady m').trans ?_)
          rw [hready, hm, if_neg fun hc => he (Option.some.inj hc).symm]
      · obtain ⟨rfl, rfl, rfl⟩ := mem_emitReady.mp hmem
        refine ⟨?_, ((same_emitReady ..).isViewModuleReady m').symm⟩
        rw [hready, hm, if_pos rfl]

theorem agree_replay (h : Agree tr s) (order : List String) :
    Agree (tr ++ (s.replayViewModuleState order).2) (s.replayViewModuleState order).1 := by
  have hsame := same_replay order s
  refine h.extend (fun _ => ⟨trivial, fun m => .inl (hsame.isViewModuleReady m)⟩)
    fun m ready now hm => ?_
  obtain ⟨rfl, rfl, hready⟩ := mem_replay hm
  exact ⟨rfl, ((hsame.isViewModuleReady m).trans hready).symm⟩

/-- **Every step** keeps the signal and the query in agreement exactly when it meets the
condition. -/
theorem agree_step_iff {a : Action} {r : Bridge × List Obs} (hs : Cached s) (h : Agree tr s)
    (hstep : Steps s a r) : Agree (tr ++ r.2) r.1 ↔ Unready tr s a := by
  cases hstep with
  | module m acquired => exact h.module_iff hs acquired (Same.refl _) (by simp)
  | ensureRouter acquired =>
      refine iff_of_true (h.quiet id (fun m => ?_) nofun) trivial
      obtain he | ⟨state, hacquires⟩ := ensureRouter_effect acquired s
      · simp only [he]
      · simp only [hacquires.isViewModuleReady hs m, reduceCtorEq, if_false]
  | stateChanged d state hd hne => exact iff_of_true (agree_stateChanged hs h hd state) trivial
  | replayViewModuleState order => exact iff_of_true (agree_replay h order) trivial
  | mount m asked acquired =>
      have hsame := same_mount m asked acquired s
      have hos : ∀ m' ready now, .viewModuleReadyChanged m' ready now ∉
          (s.mount m asked acquired).2 := by
        unfold Bridge.mount
        cases asked <;> simp
      cases asked with
      | false => exact iff_of_true (h.quiet id hsame.isViewModuleReady hos) nofun
      | true =>
          exact (h.module_iff hs acquired hsame hos).trans ⟨fun hu _ => hu, fun hu => hu rfl⟩
  | unmount i => exact iff_of_true (h.quiet id (fun _ => rfl) nofun) trivial
  | destroy => exact iff_of_true (h.quiet id (fun _ => rfl) nofun) trivial

theorem run_cached {node : Bool} {G : List Obs → Bridge → Action → Prop}
    (h : (machine node).Run G tr s) : Cached s :=
  h.invariant (I := fun _ s => Cached s) (Cached.initial node)
    fun hs _ hstep => hs.step (step_steps hstep).2

/-- **The signal and the query agree** in exactly the runs in which no module is ready already when
it is acquired. -/
theorem agree_iff_unready (node : Bool) (tr : List Obs) (s : Bridge) :
    ((machine node).Run Unready tr s → Agree tr s) ∧
      ((machine node).Run ((machine node).keeps Agree) tr s → (machine node).Run Unready tr s) := by
  have hinit : Agree [] (machine node).init := Signal.Agrees.initial fun _ => rfl
  have hexact := Machine.Run.exact_always (M := machine node) (C := Unready) hinit
    fun hrun h hs => agree_step_iff (run_cached hrun) h (step_steps hs).2
  exact ⟨hexact.1 tr s, hexact.2 tr s⟩

/-- A module becomes ready after it was acquired, is lost and comes back. -/
theorem lost_module_is_told_again : ∃ tr s, (machine true).Run Unready tr s ∧ Agree tr s ∧
    s.isViewModuleReady "counter" = true ∧ lastTold "counter" tr = some true ∧ tr.length = 7 := by
  have h := Machine.exec_run (M := machine true) (G := Unready)
    [.mount "counter" true (some .uninitialized), .stateChanged 0 .valid,
      .stateChanged 0 .suspect, .stateChanged 0 .valid, .module "counter" none] rfl
  exact ⟨_, _, h, (agree_iff_unready true _ _).1 h, rfl, rfl, rfl⟩

/-- A module whose source the node knows already is ready, and nobody is told. -/
theorem known_module_is_not_told : ∃ tr s, (machine true).Run Machine.always tr s ∧
    s.isViewModuleReady "counter" = true ∧ lastTold "counter" tr = none ∧ ¬ Agree tr s := by
  have h := Machine.exec_run (M := machine true) (G := Machine.always)
    [.module "counter" (some .valid)] rfl
  refine ⟨_, _, h, rfl, rfl, fun hagree => ?_⟩
  cases hagree.told trivial "counter"

end LogosViewRuntime.WebViews
