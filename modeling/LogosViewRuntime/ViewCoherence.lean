import LogosViewRuntime.ViewHeap

/-! # Cached objects are current

Every cached object of the bridge is an object of the current registrations (`Current`): a node
was connected to the socket its module has now, a factory was loaded from the module's plugin, and
what was acquired came from what is cached (`run_current`).  A key of `m_modelReplicas` can belong
to two modules (`a/b/c` is `b/c` of `a` and `c` of `a/b`); dropping either drops it. -/

namespace LogosViewRuntime.ViewModules

open Reactive

/-! ### The property -/

/-- Nothing that is cached refers to a former socket, a former plugin or a node that was
dropped. -/
structure Current (s : Bridge) : Prop where
  live : ∀ slot, ∀ d ∈ s.cache.lookup slot, d ∉ s.queue
  node : ∀ m, ∀ d ∈ s.cache.lookup (.replicaNode m),
    ∃ socket ∈ s.viewModuleSockets.lookup m, s.objects d = some (.node m socket)
  factory : ∀ m, ∀ d ∈ s.factories.lookup m, s.cache.lookup (.factoryLoader m) = some d ∧
    ∃ path ∈ s.replicaPluginPaths.lookup m, s.objects d = some (.loader m path)
  replica : ∀ m, ∀ d ∈ s.cache.lookup (.replica m),
    ∃ node ∈ s.cache.lookup (.replicaNode m), ∃ factory ∈ s.factories.lookup m,
      ∃ state, s.objects d = some (.replica m node factory state)
  model : ∀ key, ∀ d ∈ s.cache.lookup (.modelReplica key),
    ∃ m, (Slot.modelReplica key).IsOf m ∧ ∃ node ∈ s.cache.lookup (.replicaNode m),
      s.objects d = some (.modelReplica key node)

/-! ### What the objects were made for -/

/-- What is registered for the modules. -/
def Bridge.registrations (s : Bridge) : QHash String String × QHash String String :=
  (s.viewModuleSockets, s.replicaPluginPaths)

/-- The registrations that an object was made for are in force. -/
def Object.InForce (s : Bridge) : Object → Prop
  | .node m socket => s.viewModuleSockets.lookup m = some socket
  | .loader m path => s.replicaPluginPaths.lookup m = some path
  | .replica m _ factory _ => s.cache.lookup (.factoryLoader m) = some factory
  | .modelReplica _ _ => True

/-- Every cached object is in force. -/
def Registered (s : Bridge) : Prop :=
  ∀ d o, s.objects d = some o → s.cache.lookup o.slot = some d → o.InForce s

variable {s s' : Bridge}

theorem Registered.initial : Registered {} := nofun

/-- An object is stored for an empty slot. -/
theorem Registered.store (h : Registered s) (hheap : Heap s) {object : Object}
    (hslot : s.cache.lookup object.slot = none) (hobject : object.InForce (s.store object)) :
    Registered (s.store object) := by
  intro d o ho hd
  obtain ⟨-, rfl⟩ | ⟨-, ho⟩ := Heap.create_objects object s ho
  · exact hobject
  · have hne : o.slot ≠ object.slot := by
      intro he
      rw [he, lookup_store_self] at hd
      exact Nat.ne_of_gt (hheap.lt_created ho) (Option.some.inj hd)
    rw [lookup_store_ne hne] at hd
    have hinForce := h d o ho hd
    cases o with
    | node m socket => exact hinForce
    | loader m path => exact hinForce
    | modelReplica key node => exact hinForce
    | replica m node factory state =>
        have hne : Slot.factoryLoader m ≠ object.slot := by
          intro he
          have hloader : s.cache.lookup (.factoryLoader m) = some factory := hinForce
          rw [he, hslot] at hloader
          cases hloader
        exact (lookup_store_ne hne).trans hinForce

/-- The registrations and the caches stay, objects only go. -/
theorem Registered.same (h : Registered s) (hcache : s'.cache = s.cache)
    (hregistrations : s'.registrations = s.registrations)
    (hobjects : ∀ d o, s'.objects d = some o → s.cache.lookup o.slot = some d →
      s.objects d = some o) : Registered s' := by
  intro d o ho hd
  rw [hcache] at hd
  have hinForce := h d o (hobjects d o ho hd) hd
  obtain ⟨hsockets, hpaths⟩ := Prod.mk.inj hregistrations
  unfold Object.InForce
  rw [hcache, hsockets, hpaths]
  exact hinForce

/-- Entries are dropped; a registration changes only for what is dropped. -/
theorem Registered.releases (h : Registered s) {p : Slot → Prop} (hreleases : Releases p s s')
    (hsockets : ∀ m, ¬ p (.replicaNode m) →
      s'.viewModuleSockets.lookup m = s.viewModuleSockets.lookup m)
    (hpaths : ∀ m, ¬ p (.factoryLoader m) →
      s'.replicaPluginPaths.lookup m = s.replicaPluginPaths.lookup m)
    (hreplica : ∀ m, p (.factoryLoader m) → p (.replica m)) : Registered s' := by
  intro d o ho hd
  have hslot : ¬ p o.slot := by
    intro hp
    rw [hreleases.gone _ hp] at hd
    cases hd
  rw [hreleases.objects] at ho
  rw [hreleases.kept _ hslot] at hd
  have hinForce := h d o ho hd
  cases o with
  | node m socket => exact (hsockets m hslot).trans hinForce
  | loader m path => exact (hpaths m hslot).trans hinForce
  | replica m node factory state =>
      exact (hreleases.kept _ fun hp => hslot (hreplica m hp)).trans hinForce
  | modelReplica key node => trivial

/-! ### Operations -/

theorem Registered.loadFactory (h : Registered s) (hcoherent : Coherent s) (m : String)
    (load : Load) : Registered (s.loadFactory m load).1 := by
  obtain he | ⟨path, hfactory, hpath, he | he⟩ := loadFactory_cases m load s
  · rw [he]
    exact h
  · -- the loader that is deleted later is new and not cached
    rw [he]
    refine h.same rfl rfl fun d o ho hd => ?_
    obtain ⟨rfl, -⟩ | ⟨-, ho⟩ := Heap.create_objects _ s ho
    · obtain ⟨-, o', ho', -⟩ := hcoherent.cached _ _ hd
      exact absurd (hcoherent.lt_created ho') (Nat.lt_irrefl _)
    · exact ho
  · rw [he]
    have hslot : s.cache.lookup (.factoryLoader m) = none := by rw [← hcoherent.loaded, hfactory]
    have hstored : Registered (s.store (.loader m path)) := h.store hcoherent.toHeap hslot hpath
    exact hstored.same rfl rfl fun _ _ ho _ => ho

theorem Registered.getOrCreateNode (h : Registered s) (hcoherent : Coherent s) (m : String) :
    Registered (s.getOrCreateNode m).1 := by
  obtain he | ⟨socket, hnode, hsocket, he⟩ := getOrCreateNode_cases m s
  · rw [he]
    exact h
  · rw [he]
    exact h.store hcoherent.toHeap hnode hsocket

theorem Registered.prepares (h : Registered s) (hcoherent : Coherent s) {m : String}
    (hprepares : Prepares m s s') : Registered s' ∧ Coherent s' := by
  induction hprepares with
  | refl => exact ⟨h, hcoherent⟩
  | loadFactory load _ ih => exact ⟨ih.1.loadFactory ih.2 m load, (ih.2.loadFactory m load).1⟩
  | getOrCreateNode _ ih => exact ⟨ih.1.getOrCreateNode ih.2 m, (ih.2.getOrCreateNode m).1⟩

@[simp] theorem release_registrations (slot : Slot) (s : Bridge) :
    (s.release slot).registrations = s.registrations := by
  unfold Bridge.release
  split <;> rfl

@[simp] theorem dropModels_registrations (start : String) (s : Bridge) :
    (s.dropModels start).registrations = s.registrations := by
  unfold Bridge.dropModels
  induction s.modelKeys.filter (startsWith start) generalizing s with
  | nil => rfl
  | cons key keys ih => exact (ih _).trans (release_registrations _ s)

@[simp] theorem dropFactory_registrations (m : String) (s : Bridge) :
    (s.dropFactory m).registrations = s.registrations := release_registrations _ _

@[simp] theorem drop_registrations (m : String) (s : Bridge) :
    (s.dropViewModuleCaches m).registrations = s.registrations := by
  simp [Bridge.dropViewModuleCaches]

/-- A replica goes with its factory. -/
theorem belongsTo_replica {m m' : String} (h : Slot.BelongsTo m (.factoryLoader m')) :
    Slot.BelongsTo m (.replica m') := by
  obtain hof | he | he := h
  · exact hof.elim
  · exact .inl (Slot.factoryLoader.inj he)
  · cases he

theorem Registered.drop (h : Registered s) (m : String) :
    Registered (s.dropViewModuleCaches m) := by
  obtain ⟨hsockets, hpaths⟩ := Prod.mk.inj (drop_registrations m s)
  exact h.releases (releases_drop m s).1 (fun m' _ => congrArg (·.lookup m') hsockets)
    (fun m' _ => congrArg (·.lookup m') hpaths) fun _ => belongsTo_replica

theorem Registered.setViewModuleSocket (h : Registered s) (m socket : String) :
    Registered (s.setViewModuleSocket m socket) := by
  unfold Bridge.setViewModuleSocket
  split_ifs
  · exact h
  · obtain ⟨hreleases, -⟩ := releases_drop m s
    obtain ⟨hsockets, hpaths⟩ := Prod.mk.inj (drop_registrations m s)
    generalize s.dropViewModuleCaches m = dropped at hreleases hsockets hpaths ⊢
    refine h.releases { hreleases with } (fun m' hm => ?_)
      (fun m' _ => congrArg (·.lookup m') hpaths) fun _ => belongsTo_replica
    -- the node that was connected to the former socket is dropped
    have hne : m' ≠ m := by
      rintro rfl
      exact hm (.inr (.inr rfl))
    exact (AList.lookup_insert_ne hne).trans (congrArg (·.lookup m') hsockets)

theorem Registered.setViewReplicaPlugin (h : Registered s) (hcoherent : Coherent s)
    (m path : String) (load : Load) : Registered (s.setViewReplicaPlugin m path load) := by
  unfold Bridge.setViewReplicaPlugin
  split_ifs
  · exact h
  · obtain ⟨hdropped, hreleases⟩ := hcoherent.dropReplica m
    have hregistrations : ((s.release (.replica m)).dropFactory m).registrations =
        s.registrations := by simp
    generalize (s.release (.replica m)).dropFactory m = dropped at hdropped hreleases hregistrations ⊢
    obtain ⟨hsockets, hpaths⟩ := Prod.mk.inj hregistrations
    have hset : Coherent { dropped with
        replicaPluginPaths := dropped.replicaPluginPaths.insert m path } :=
      { hdropped with loaded := hdropped.loaded }
    refine Registered.loadFactory ?_ hset m load
    refine h.releases { hreleases with } (fun m' _ => congrArg (·.lookup m') hsockets)
      (fun m' hm => ?_) fun m' hm => ?_
    · have hne : m' ≠ m := by
        rintro rfl
        exact hm (.inr rfl)
      exact (AList.lookup_insert_ne hne).trans (congrArg (·.lookup m') hpaths)
    · obtain he | he := hm
      · cases he
      · exact .inl (congrArg Slot.replica (Slot.factoryLoader.inj he))

theorem Registered.stateChanged (h : Registered s) {d : ℕ} {m : String} {node factory : ℕ}
    {old : Option State} (hd : s.objects d = some (.replica m node factory old)) (state : State) :
    Registered (s.stateChanged d m node factory state).1 := by
  intro i o ho hi
  simp only [Bridge.stateChanged] at ho hi
  by_cases he : i = d
  · subst he
    rw [Function.update_self] at ho
    obtain rfl := Option.some.inj ho
    exact h i _ hd hi
  · rw [Function.update_of_ne he] at ho
    have hinForce := h i o ho hi
    cases o <;> exact hinForce

theorem Registered.turn (h : Registered s) : Registered s.turn.1 := by
  unfold Bridge.turn
  split
  · exact h
  · rename_i d queue _
    unfold Bridge.destroyObject
    split
    · exact h.same rfl rfl fun _ _ ho _ => ho
    · refine h.same rfl rfl fun i o ho _ => ?_
      have hne : i ≠ d := by
        rintro rfl
        simp at ho
      dsimp only at ho
      rwa [Function.update_of_ne hne] at ho

theorem Registered.step {a : Action} {os : List Obs} (h : s.alive = true → Registered s)
    (hsane : Sane s) (hs : step s a = some (s', os)) (halive : s'.alive = true) :
    Registered s' := by
  cases step_cases hs with
  | module m load acquired hbefore =>
      have hregistered := h hbefore
      obtain ⟨s₁, r, -, -, hprepares, he⟩ |
        ⟨s₁, node, factory, state, hs₁, -, hprepares, hslot, hnode, hfactory, he⟩ :=
        (hsane hbefore).module_cases m load acquired
      · rw [he]
        exact (hregistered.prepares (hsane hbefore) hprepares).1
      · rw [he]
        have hprepared := (hregistered.prepares (hsane hbefore) hprepares).1
        refine hprepared.store hs₁.toHeap hslot ?_
        apply (lookup_store_ne ?_).trans
        · rw [← hs₁.loaded]
          exact hfactory
        · simp [Object.slot]
  | model m x acquired hbefore =>
      have hregistered := h hbefore
      obtain ⟨s₁, r, -, -, hprepares, he⟩ | ⟨s₁, node, hs₁, -, hprepares, hslot, -, he⟩ :=
        (hsane hbefore).model_cases m x acquired
      · rw [he]
        exact (hregistered.prepares (hsane hbefore) hprepares).1
      · rw [he]
        exact (hregistered.prepares (hsane hbefore) hprepares).1.store hs₁.toHeap hslot trivial
  | replayViewModuleState hbefore =>
      exact h hbefore
  | setViewModuleSocket m socket hbefore =>
      exact (h hbefore).setViewModuleSocket m socket
  | setViewReplicaPlugin m path load hbefore =>
      exact (h hbefore).setViewReplicaPlugin (hsane hbefore) m path load
  | notifyViewModuleCrashed m hbefore =>
      exact (h hbefore).drop m
  | stateChanged d state m node factory old hobject =>
      exact (h halive).stateChanged hobject state
  | turn =>
      rw [turn_alive] at halive
      exact (h halive).turn
  | destroy _ =>
      rw [destroy_alive] at halive
      cases halive

/-! ### Runs -/

theorem Object.slot_eq_factoryLoader {o : Object} {m : String} (h : o.slot = .factoryLoader m) :
    ∃ path, o = .loader m path := by
  cases o with
  | loader module path =>
      obtain rfl := Slot.factoryLoader.inj h
      exact ⟨path, rfl⟩
  | node _ _ | replica _ _ _ _ | modelReplica _ _ => cases h

/-- What was acquired from a node is dropped before the node. -/
theorem Heap.node_cached (h : Heap s) {slot : Slot} {d n : ℕ} {o : Object}
    (hd : s.cache.lookup slot = some d) (ho : s.objects d = some o) (hsource : o.source = some n) :
    ∃ m, o.slot.IsOf m ∧ s.cache.lookup (.replicaNode m) = some n := by
  obtain ⟨-, m, socket, hnode, hof⟩ := h.based d n o ho hsource
  obtain hq | hc := h.owned n _ hnode
  · exact absurd (h.follows n hq d ⟨o, ho, hsource⟩) (h.cached slot d hd).1
  · exact ⟨m, hof, hc⟩

theorem Coherent.current (h : Coherent s) (hregistered : Registered s) : Current s where
  live slot d hd := (h.cached slot d hd).1
  node m d hd := by
    obtain ⟨socket, hnode⟩ := h.cached_node hd
    exact ⟨socket, hregistered d _ hnode hd, hnode⟩
  factory m d hd := by
    have hloader : s.cache.lookup (.factoryLoader m) = some d := (h.loaded m).symm.trans hd
    obtain ⟨-, o, ho, hslot⟩ := h.cached _ d hloader
    obtain ⟨path, rfl⟩ := Object.slot_eq_factoryLoader hslot
    exact ⟨hloader, path, hregistered d _ ho hloader, ho⟩
  replica m d hd := by
    obtain ⟨-, o, ho, hslot⟩ := h.cached _ d hd
    cases o with
    | replica module node factory state =>
        obtain rfl := Slot.replica.inj hslot
        obtain ⟨m', hof, hnode⟩ := h.node_cached hd ho rfl
        obtain rfl : module = m' := hof
        exact ⟨node, hnode, factory, (h.loaded module).trans (hregistered d _ ho hd), state, ho⟩
    | node _ _ | loader _ _ | modelReplica _ _ => cases hslot
  model key d hd := by
    obtain ⟨-, o, ho, hslot⟩ := h.cached _ d hd
    cases o with
    | modelReplica key' node =>
        obtain rfl := Slot.modelReplica.inj hslot
        obtain ⟨m, hof, hnode⟩ := h.node_cached hd ho rfl
        exact ⟨m, hof, node, hnode, ho⟩
    | node _ _ | loader _ _ | replica _ _ _ _ => cases hslot

theorem run_registered {tr : List Obs} (h : machine.Run Machine.always tr s) :
    s.alive = true → Coherent s ∧ Registered s :=
  h.invariant (I := fun _ s => s.alive = true → Coherent s ∧ Registered s)
    (fun _ => ⟨Coherent.initial, Registered.initial⟩) fun hi _ hs halive =>
    ⟨Sane.step (fun ha => (hi ha).1) hs halive,
      Registered.step (fun ha => (hi ha).2) (fun ha => (hi ha).1) hs halive⟩

/-- **Cache coherence**: whatever is called in whatever order, and whatever loads and acquires come
to, as long as the bridge is there its cached objects are current. -/
theorem run_current {tr : List Obs} (h : machine.Run Machine.always tr s)
    (halive : s.alive = true) : Current s := by
  obtain ⟨hcoherent, hregistered⟩ := run_registered h halive
  exact hcoherent.current hregistered

/-- A socket and a plugin are superseded under a module that has a replica and a model; it is
acquired again and belongs to what is registered now. -/
theorem superseded_is_current : ∃ tr s, machine.Run Machine.always tr s ∧ Current s ∧
    s.cache.lookup (.replica "chat") = some 8 ∧
      s.cache.lookup (.modelReplica "chat/list") = some 9 := by
  have h := Machine.exec_run (M := machine) (G := Machine.always)
    [.setViewReplicaPlugin "chat" "/a.so" .factory, .setViewModuleSocket "chat" "a",
      .module "chat" .factory (some (some .valid)), .model "chat" "list" true,
      .setViewReplicaPlugin "chat" "/b.so" .noFactory, .setViewModuleSocket "chat" "b",
      .module "chat" .factory (some none), .model "chat" "list" true, .turn] rfl
  exact ⟨_, _, h, run_current h rfl, rfl, rfl⟩

end LogosViewRuntime.ViewModules
