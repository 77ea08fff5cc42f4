import LogosViewRuntime.ViewHeap

/-! # Replicas and their nodes

A replica is its node's client and has to be gone before the node is.  A drop sees to that: it
defers the node's deletion behind those of everything that was acquired from the node.  The
destructor leaves the children to `~QObject`, which deletes a node before the replicas that were
acquired after it, and does not delete models at all.  Exactly the runs in which nothing acquired
is alive when the bridge is destroyed keep the law (`nodes_last_iff_cleared`). -/

namespace LogosViewRuntime.ViewModules

open Reactive

/-! ### The property and its condition -/

/-- Whatever was acquired from a node is destroyed before the node is. -/
def NodesLast (tr : List Obs) (_ : Bridge) : Prop :=
  ∀ t₁ t₂ n, tr = t₁ ++ .destroyed n :: t₂ → ∀ d, .acquired d n ∈ tr → .destroyed d ∈ t₁

/-- The bridge is destroyed when no replica and no model is alive. -/
def Cleared (_ : List Obs) (s : Bridge) : Action → Prop
  | .destroy => ∀ d < s.created, ∀ object ∈ s.objects d, object.source = none
  | _ => True

instance (tr : List Obs) (s : Bridge) : (a : Action) → Decidable (Cleared tr s a)
  | .destroy => inferInstanceAs
      (Decidable (∀ d < s.created, ∀ object ∈ s.objects d, object.source = none))
  | .module .. | .model .. | .replayViewModuleState | .setViewModuleSocket .. |
    .setViewReplicaPlugin .. | .notifyViewModuleCrashed _ | .stateChanged .. | .turn =>
      inferInstanceAs (Decidable True)

variable {s s' : Bridge} {tr os : List Obs}

/-- New observations keep the law if nodes that are destroyed have nothing left, and nothing is
acquired from a node that is destroyed. -/
theorem NodesLast.append (h : NodesLast tr s)
    (hacquired : ∀ d n, .acquired d n ∈ os → .destroyed n ∉ tr ++ os)
    (hdestroyed : ∀ d n, .destroyed n ∈ os → .acquired d n ∈ tr → .destroyed d ∈ tr) :
    NodesLast (tr ++ os) s' := by
  intro t₁ t₂ n he d hd
  have hn : .destroyed n ∈ tr ++ os := by simp [he]
  have hd : .acquired d n ∈ tr := by
    obtain hd | hd := List.mem_append.mp hd
    · exact hd
    · exact absurd hn (hacquired d n hd)
  obtain ⟨t, rfl, hos⟩ | ⟨t, htr, ht⟩ := List.append_eq_append_iff.mp he
  · exact List.mem_append_left _ (hdestroyed d n (by simp [hos]) hd)
  · cases t with
    | nil =>
        rw [List.append_nil] at htr
        have hos : os = .destroyed n :: t₂ := ht.symm
        exact htr ▸ hdestroyed d n (by simp [hos]) hd
    | cons o t =>
        obtain ⟨rfl, -⟩ := List.cons.inj ht
        exact h t₁ t n htr d hd

/-! ### What was acquired and what is alive -/

/-- The observations tell what was acquired and what is gone, and the law holds so far. -/
structure Logged (tr : List Obs) (s : Bridge) : Prop where
  last : NodesLast tr s
  live : ∀ d n, From s d n → .acquired d n ∈ tr
  acquired : ∀ d n, .acquired d n ∈ tr → From s d n ∨ .destroyed d ∈ tr
  destroyed : ∀ d, .destroyed d ∈ tr → (s.alive = true → d < s.created) ∧ s.objects d = none
  cleared : s.alive = false → ∀ d n, ¬ From s d n

theorem Logged.initial : Logged [] {} where
  last t₁ t₂ n he := by simp at he
  live d n hfrom := by
    obtain ⟨o, ho, -⟩ := hfrom
    cases ho
  acquired := nofun
  destroyed := nofun
  cleared := nofun

/-- Nothing is acquired and nothing is destroyed. -/
theorem Logged.quiet (h : Logged tr s) (halive : s'.alive = s.alive)
    (hcreated : s.created ≤ s'.created) (hfrom : ∀ d n, From s' d n ↔ From s d n)
    (hgone : ∀ d, (s.alive = true → d < s.created) → s.objects d = none → s'.objects d = none)
    (hacquired : ∀ d n, .acquired d n ∉ os) (hdestroyed : ∀ d, .destroyed d ∉ os) :
    Logged (tr ++ os) s' where
  last := h.last.append (fun d n hm => absurd hm (hacquired d n))
    fun d n hm => absurd hm (hdestroyed n)
  live d n hf := List.mem_append_left _ (h.live d n ((hfrom d n).mp hf))
  acquired d n hm := by
    have hm := (List.mem_append.mp hm).resolve_right (hacquired d n)
    exact (h.acquired d n hm).imp (hfrom d n).mpr (List.mem_append_left _)
  destroyed d hm := by
    have hm := (List.mem_append.mp hm).resolve_right (hdestroyed d)
    obtain ⟨hlt, hnone⟩ := h.destroyed d hm
    exact ⟨fun ha => Nat.lt_of_lt_of_le (hlt (halive ▸ ha)) hcreated, hgone d hlt hnone⟩
  cleared ha d n hf := h.cleared (halive ▸ ha) d n ((hfrom d n).mp hf)

/-- The objects stay what they are. -/
theorem Logged.same (h : Logged tr s) (halive : s'.alive = s.alive)
    (hobjects : s'.objects = s.objects) (hcreated : s'.created = s.created)
    (hacquired : ∀ d n, .acquired d n ∉ os) (hdestroyed : ∀ d, .destroyed d ∉ os) :
    Logged (tr ++ os) s' :=
  h.quiet halive (Nat.le_of_eq hcreated.symm) (fun d n => by rw [From, From, hobjects])
    (fun d _ hd => by rw [hobjects, hd]) hacquired hdestroyed

theorem Grows.from_iff (h : Heap s) (hgrows : Grows s s') (d n : ℕ) :
    From s' d n ↔ From s d n := by
  by_cases hd : d < s.created
  · rw [From, From, hgrows.old d hd]
  · apply iff_of_false (hgrows.new d n (by omega))
    rintro ⟨o, ho, -⟩
    rw [h.fresh d (by omega)] at ho
    cases ho

theorem Logged.grows (h : Logged tr s) (hheap : Heap s) (halive : s.alive = true)
    (hgrows : Grows s s') (hacquired : ∀ d n, .acquired d n ∉ os)
    (hdestroyed : ∀ d, .destroyed d ∉ os) : Logged (tr ++ os) s' :=
  h.quiet hgrows.alive hgrows.created (hgrows.from_iff hheap)
    (fun d hd hnone => (hgrows.old d (hd halive)).trans hnone) hacquired hdestroyed

/-- Something is acquired from a live node. -/
theorem Logged.store (h : Logged tr s) (hheap : Heap s) (halive : s.alive = true) {object : Object}
    {m : String} {n : ℕ} (hsource : object.source = some n)
    (hnode : s.cache.lookup (.replicaNode m) = some n)
    (hacquired : ∀ d n', .acquired d n' ∈ os ↔ d = s.created ∧ n' = n)
    (hdestroyed : ∀ d, .destroyed d ∉ os) : Logged (tr ++ os) (s.store object) := by
  obtain ⟨socket, hobject⟩ := hheap.cached_node hnode
  have hlive : .destroyed n ∉ tr := by
    intro hm
    rw [(h.destroyed n hm).2] at hobject
    cases hobject
  have hself : From (s.store object) s.created n := ⟨object, Function.update_self .., hsource⟩
  have hother : ∀ d n', d ≠ s.created → (From (s.store object) d n' ↔ From s d n') :=
    fun d n' hd => Heap.from_create hd
  refine
    { last := h.last.append (fun d n' hm hn => ?_) fun d n' hm => absurd hm (hdestroyed n')
      live := fun d n' hf => ?_
      acquired := fun d n' hm => ?_
      destroyed := fun d hm => ?_
      cleared := fun ha => absurd (halive.symm.trans ha) nofun }
  · obtain ⟨-, rfl⟩ := (hacquired d n').mp hm
    exact hlive ((List.mem_append.mp hn).resolve_right (hdestroyed n'))
  · by_cases hd : d = s.created
    · subst hd
      obtain ⟨o, ho, hs⟩ := hf
      obtain ⟨-, rfl⟩ | ⟨hd, -⟩ := Heap.create_objects object s ho
      · obtain rfl := Option.some.inj (hsource.symm.trans hs)
        exact List.mem_append_right _ ((hacquired _ _).mpr ⟨rfl, rfl⟩)
      · exact absurd rfl hd
    · exact List.mem_append_left _ (h.live d n' ((hother d n' hd).mp hf))
  · obtain hm | hm := List.mem_append.mp hm
    · obtain hf | hm := h.acquired d n' hm
      · have hd : d ≠ s.created := by
          rintro rfl
          obtain ⟨o, ho, -⟩ := hf
          rw [hheap.fresh _ le_rfl] at ho
          cases ho
        exact .inl ((hother d n' hd).mpr hf)
      · exact .inr (List.mem_append_left _ hm)
    · obtain ⟨rfl, rfl⟩ := (hacquired d n').mp hm
      exact .inl hself
  · have hm := (List.mem_append.mp hm).resolve_right (hdestroyed d)
    obtain ⟨hlt, hnone⟩ := h.destroyed d hm
    have hlt := hlt halive
    exact ⟨fun _ => Nat.lt_succ_of_lt hlt,
      (Function.update_of_ne (Nat.ne_of_lt hlt) ..).trans hnone⟩

/-! ### Deletions -/

/-- An object that nothing alive was acquired from is deleted. -/
theorem Logged.destroyObject (h : Logged tr s) {d : ℕ} (hlast : ∀ i, ¬ From s i d)
    (hlt : s.alive = true → ∀ object ∈ s.objects d, d < s.created) :
    Logged (tr ++ (s.destroyObject d).2) (s.destroyObject d).1 := by
  unfold Bridge.destroyObject
  split
  · rw [List.append_nil]
    exact h
  · rename_i object hobject
    have hfrom : ∀ {i n}, From { s with
        objects := Function.update s.objects d none
        children := s.children.erase d } i n → i ≠ d ∧ From s i n := by
      rintro i n ⟨o, ho, hs⟩
      have hi : i ≠ d := by
        rintro rfl
        simp at ho
      exact ⟨hi, o, (Function.update_of_ne hi ..).symm.trans ho, hs⟩
    refine
      { last := h.last.append (by simp) fun i n hn hm => ?_
        live := fun i n hf => List.mem_append_left _ (h.live i n (hfrom hf).2)
        acquired := fun i n hm => ?_
        destroyed := fun i hm => ?_
        cleared := fun ha i n hf => h.cleared ha i n (hfrom hf).2 }
    · obtain rfl := Obs.destroyed.inj (List.mem_singleton.mp hn)
      exact (h.acquired i n hm).resolve_left (hlast i)
    · have hm := (List.mem_append.mp hm).resolve_right (by simp)
      by_cases hi : i = d
      · exact .inr (by simp [hi])
      · refine (h.acquired i n hm).imp (fun ⟨o, ho, hs⟩ => ⟨o, ?_, hs⟩) (List.mem_append_left _)
        exact (Function.update_of_ne hi ..).trans ho
    · obtain hm | hm := List.mem_append.mp hm
      · obtain ⟨hi, hnone⟩ := h.destroyed i hm
        refine ⟨hi, ?_⟩
        have hne : i ≠ d := by
          rintro rfl
          rw [hobject] at hnone
          cases hnone
        exact (Function.update_of_ne hne ..).trans hnone
      · obtain rfl := Obs.destroyed.inj (List.mem_singleton.mp hm)
        exact ⟨fun ha => hlt ha object hobject, Function.update_self ..⟩

theorem Logged.turn (h : Logged tr s) (hsane : Sane s) :
    Logged (tr ++ s.turn.2) s.turn.1 := by
  unfold Bridge.turn
  cases hqueue : s.queue with
  | nil =>
      rw [List.append_nil]
      exact h
  | cons d queue =>
      have hpopped : Logged tr { s with queue } := { h with last := h.last }
      refine hpopped.destroyObject (fun i hf => ?_) fun ha object ho => (hsane ha).lt_created ho
      cases halive : s.alive with
      | true => exact (hsane halive).not_from_head hqueue i hf
      | false => exact h.cleared halive i d hf

theorem destroyObject_objects (d i : ℕ) (s : Bridge) :
    (s.destroyObject d).1.objects i = if i = d then none else s.objects i := by
  unfold Bridge.destroyObject
  split
  · split_ifs with hi
    · rwa [hi]
    · rfl
  · exact Function.update_apply ..

theorem deleteChildren_objects (children : List ℕ) (i : ℕ) (s : Bridge) :
    (s.deleteChildren children).1.objects i = if i ∈ children then none else s.objects i := by
  induction children generalizing s with
  | nil => rfl
  | cons d children ih =>
      apply (ih _).trans
      rw [destroyObject_objects]
      by_cases hi : i = d <;> simp [hi]

/-- The children that are alive are destroyed in their order. -/
theorem deleteChildren_obs {children : List ℕ} (h : children.Nodup) (s : Bridge) :
    (s.deleteChildren children).2 =
      (children.filter fun d => (s.objects d).isSome).map .destroyed := by
  induction children generalizing s with
  | nil => rfl
  | cons d children ih =>
      obtain ⟨hd, hchildren⟩ := List.nodup_cons.mp h
      have hrest : (children.filter fun i => ((s.destroyObject d).1.objects i).isSome) =
          children.filter fun i => (s.objects i).isSome := by
        apply List.filter_congr
        intro i hi
        rw [destroyObject_objects, if_neg]
        rintro rfl
        exact hd hi
      have he : (s.deleteChildren (d :: children)).2 = (s.destroyObject d).2 ++
          ((s.destroyObject d).1.deleteChildren children).2 := rfl
      rw [he, ih hchildren, hrest, List.filter_cons]
      unfold Bridge.destroyObject
      cases s.objects d <;> rfl

theorem mem_destroy (h : Heap s) {o : Obs} :
    o ∈ s.destroy.2 ↔ ∃ d ∈ s.children, (s.objects d).isSome = true ∧ o = .destroyed d := by
  have hobs : s.destroy.2 = (s.children.filter fun d => (s.objects d).isSome).map .destroyed :=
    deleteChildren_obs (h.sorted.imp Nat.ne_of_lt) _
  rw [hobs, List.mem_map]
  simp only [List.mem_filter, and_assoc, eq_comm]

theorem cleared_iff (h : Heap s) :
    Cleared tr s .destroy ↔ ∀ d n, ¬ From s d n := by
  constructor
  · rintro hcleared d n ⟨o, ho, hs⟩
    rw [hcleared d (h.lt_created ho) o ho] at hs
    cases hs
  · intro hnone d _ o ho
    cases hs : o.source with
    | none => rfl
    | some n => exact absurd ⟨o, ho, hs⟩ (hnone d n)

/-- With nothing acquired left, the destructor keeps the law. -/
theorem Logged.destroy (h : Logged tr s) (hheap : Heap s) (hnone : ∀ d n, ¬ From s d n) :
    Logged (tr ++ s.destroy.2) s.destroy.1 := by
  have hobjects : ∀ d, s.destroy.1.objects d = if d ∈ s.children then none else s.objects d :=
    fun d => deleteChildren_objects s.children d _
  have hfrom : ∀ d n, ¬ From s.destroy.1 d n := by
    rintro d n ⟨o, ho, hs⟩
    rw [hobjects] at ho
    split_ifs at ho
    · cases ho
    · exact hnone d n ⟨o, ho, hs⟩
  have hacquired : ∀ d n, .acquired d n ∉ s.destroy.2 := by
    intro d n hm
    obtain ⟨_, _, _, he⟩ := (mem_destroy hheap).mp hm
    cases he
  have hgone : ∀ d n, .acquired d n ∈ tr → .destroyed d ∈ tr :=
    fun d n hm => (h.acquired d n hm).resolve_left (hnone d n)
  refine
    { last := h.last.append (fun d n hm => absurd hm (hacquired d n)) fun d n _ hm => hgone d n hm
      live := fun d n hf => absurd hf (hfrom d n)
      acquired := fun d n hm => ?_
      destroyed := fun d hm => ⟨fun ha => ?_, ?_⟩
      cleared := fun _ => hfrom }
  · have hm := (List.mem_append.mp hm).resolve_right (hacquired d n)
    exact .inr (List.mem_append_left _ (hgone d n hm))
  · exact absurd ((destroy_alive s).symm.trans ha) nofun
  · rw [hobjects]
    obtain hm | hm := List.mem_append.mp hm
    · rw [(h.destroyed d hm).2, ite_self]
    · obtain ⟨d', hd', -, he⟩ := (mem_destroy hheap).mp hm
      obtain rfl := Obs.destroyed.inj he
      exact if_pos hd'

/-- A node is destroyed before what is alive and was acquired from it. -/
theorem Logged.none_of_destroy (h : Logged tr s) (hheap : Heap s)
    (hlast : NodesLast (tr ++ s.destroy.2) s') (d n : ℕ) : ¬ From s d n := by
  rintro ⟨o, ho, hs⟩
  obtain ⟨hlt, m, socket, hnode, -⟩ := hheap.based d n o ho hs
  obtain ⟨older, newer, hchildren⟩ := List.append_of_mem (hheap.child n _ hnode rfl)
  have hsorted := hheap.sorted
  rw [hchildren] at hsorted
  -- what the destructor deletes before the node is older than the node
  have holder : ∀ i ∈ older, i < n := fun i hi =>
    (List.pairwise_append.mp hsorted).2.2 i hi n List.mem_cons_self
  have hobs : s.destroy.2 = (older.filter fun i => (s.objects i).isSome).map .destroyed ++
      .destroyed n :: (newer.filter fun i => (s.objects i).isSome).map .destroyed := by
    have hall : s.destroy.2 = (s.children.filter fun i => (s.objects i).isSome).map .destroyed :=
      deleteChildren_obs (hheap.sorted.imp Nat.ne_of_lt) _
    rw [hall, hchildren, List.filter_append, List.filter_cons, hnode, List.map_append]
    rfl
  have hbefore := hlast _ _ n (by rw [hobs, List.append_assoc]) d
    (List.mem_append_left _ (h.live d n ⟨o, ho, hs⟩))
  obtain hm | hm := List.mem_append.mp hbefore
  · rw [(h.destroyed d hm).2] at ho
    cases ho
  · obtain ⟨i, hi, he⟩ := List.mem_map.mp hm
    obtain rfl := Obs.destroyed.inj he
    have := holder i (List.mem_filter.mp hi).1
    omega

/-! ### Step by step -/

theorem Logged.module (h : Logged tr s) (hsane : Coherent s) (halive : s.alive = true) (m : String)
    (load : Load) (acquired : Option (Option State)) :
    Logged (tr ++ (s.module m load acquired).2) (s.module m load acquired).1 := by
  obtain ⟨s₁, r, -, hgrows, -, he⟩ | ⟨s₁, node, factory, state, hs₁, hgrows, -, -, hnode, -, he⟩ :=
    hsane.module_cases m load acquired
  · rw [he]
    exact h.grows hsane.toHeap halive hgrows (by simp) (by simp)
  · rw [he]
    have hgrown : Logged (tr ++ []) s₁ := h.grows hsane.toHeap halive hgrows (by simp) (by simp)
    rw [List.append_nil] at hgrown
    refine hgrown.store hs₁.toHeap (hgrows.alive.trans halive) rfl hnode (fun d n => ?_) fun d => ?_
    · by_cases hvalid : state = some .valid <;> simp [hvalid, Bridge.readyChanged]
    · by_cases hvalid : state = some .valid <;> simp [hvalid, Bridge.readyChanged]

theorem Logged.model (h : Logged tr s) (hsane : Coherent s) (halive : s.alive = true)
    (m x : String) (acquired : Bool) :
    Logged (tr ++ (s.model m x acquired).2) (s.model m x acquired).1 := by
  obtain ⟨s₁, r, -, hgrows, -, he⟩ | ⟨s₁, node, hs₁, hgrows, -, -, hnode, he⟩ :=
    hsane.model_cases m x acquired
  · rw [he]
    exact h.grows hsane.toHeap halive hgrows (by simp) (by simp)
  · rw [he]
    have hgrown : Logged (tr ++ []) s₁ := h.grows hsane.toHeap halive hgrows (by simp) (by simp)
    rw [List.append_nil] at hgrown
    exact hgrown.store hs₁.toHeap (hgrows.alive.trans halive) rfl hnode (by simp) (by simp)

theorem Logged.replay (h : Logged tr s) : Logged (tr ++ s.replayViewModuleState) s := by
  refine h.same rfl rfl rfl (fun d n hm => ?_) fun d hm => ?_
  · obtain ⟨_, _, he⟩ := List.mem_map.mp hm
    cases he
  · obtain ⟨_, _, he⟩ := List.mem_map.mp hm
    cases he

theorem Logged.setViewModuleSocket (h : Logged tr s) (hsane : Coherent s) (m socket : String) :
    Logged (tr ++ []) (s.setViewModuleSocket m socket) := by
  obtain ⟨-, he⟩ | ⟨-, -, hreleases⟩ := hsane.setViewModuleSocket_cases m socket
  · rw [he, List.append_nil]
    exact h
  · exact h.same hreleases.alive hreleases.objects hreleases.created (by simp) (by simp)

theorem Logged.setViewReplicaPlugin (h : Logged tr s) (hsane : Coherent s) (halive : s.alive = true)
    (m path : String) (load : Load) : Logged (tr ++ []) (s.setViewReplicaPlugin m path load) := by
  obtain ⟨-, he⟩ | ⟨-, s₁, hs₁, hreleases, -, hgrows⟩ := hsane.setViewReplicaPlugin_cases m path load
  · rw [he, List.append_nil]
    exact h
  · have hdropped : Logged (tr ++ []) s₁ :=
      h.same hreleases.alive hreleases.objects hreleases.created (by simp) (by simp)
    rw [List.append_nil] at hdropped
    exact hdropped.grows hs₁.toHeap (hreleases.alive.trans halive) hgrows (by simp) (by simp)

theorem Logged.crashed (h : Logged tr s) (m : String) :
    Logged (tr ++ (s.notifyViewModuleCrashed m).2) (s.notifyViewModuleCrashed m).1 := by
  obtain ⟨hdrop, -⟩ := releases_drop m s
  exact h.same hdrop.alive hdrop.objects hdrop.created
    (by simp [Bridge.notifyViewModuleCrashed, Bridge.readyChanged])
    (by simp [Bridge.notifyViewModuleCrashed, Bridge.readyChanged])

/-- The state of a replica is not where it came from. -/
theorem Logged.stateChanged (h : Logged tr s) {d : ℕ} {m : String} {node factory : ℕ}
    {old : Option State} (hobject : s.objects d = some (.replica m node factory old))
    (state : State) : Logged (tr ++ (s.stateChanged d m node factory state).2)
      (s.stateChanged d m node factory state).1 := by
  refine h.quiet rfl le_rfl (fun i n => ?_) (fun i _ hi => ?_) (fun i n hm => ?_) fun i hm => ?_
  · by_cases hi : i = d
    · subst hi
      simp [From, Bridge.stateChanged, hobject, Object.source]
    · simp [From, Bridge.stateChanged, Function.update_of_ne hi]
  · have hne : i ≠ d := by
      rintro rfl
      rw [hobject] at hi
      cases hi
    exact (Function.update_of_ne hne ..).trans hi
  · cases halive : s.alive <;> simp [Bridge.stateChanged, Bridge.readyChanged, halive] at hm
  · cases halive : s.alive <;> simp [Bridge.stateChanged, Bridge.readyChanged, halive] at hm

/-- **Every step** keeps the law exactly when it meets the condition, and then the observations
still tell what is alive. -/
theorem nodesLast_step {a : Action} (hsane : Sane s) (h : Logged tr s)
    (hs : step s a = some (s', os)) :
    (NodesLast (tr ++ os) s' ↔ Cleared tr s a) ∧ (Cleared tr s a → Logged (tr ++ os) s') := by
  have hkept : ∀ {C : Prop} {os s'}, C → Logged (tr ++ os) s' →
      (NodesLast (tr ++ os) s' ↔ C) ∧ (C → Logged (tr ++ os) s') :=
    fun hc h' => ⟨iff_of_true h'.last hc, fun _ => h'⟩
  cases step_cases hs with
  | module m load acquired halive =>
      exact hkept trivial (h.module (hsane halive) halive m load acquired)
  | model m x acquired halive =>
      exact hkept trivial (h.model (hsane halive) halive m x acquired)
  | replayViewModuleState _ =>
      exact hkept trivial h.replay
  | setViewModuleSocket m socket halive =>
      exact hkept trivial (h.setViewModuleSocket (hsane halive) m socket)
  | setViewReplicaPlugin m path load halive =>
      exact hkept trivial (h.setViewReplicaPlugin (hsane halive) halive m path load)
  | notifyViewModuleCrashed m _ =>
      exact hkept trivial (h.crashed m)
  | stateChanged d state m node factory old hobject =>
      exact hkept trivial (h.stateChanged hobject state)
  | turn =>
      exact hkept trivial (h.turn hsane)
  | destroy halive =>
      have hheap := (hsane halive).toHeap
      rw [cleared_iff hheap]
      exact ⟨⟨h.none_of_destroy hheap, fun hnone => (h.destroy hheap hnone).last⟩, h.destroy hheap⟩

/-! ### Runs -/

theorem run_logged (h : machine.Run Cleared tr s) : Logged tr s :=
  (h.invariant (I := fun tr s => Sane s ∧ Logged tr s) ⟨fun _ => Coherent.initial, Logged.initial⟩
    fun hi hc hs => ⟨hi.1.step hs, (nodesLast_step hi.1 hi.2 hs).2 hc⟩).2

/-- **Replicas die before their node** in exactly the runs in which no replica and no model is
alive when the bridge is destroyed. -/
theorem nodes_last_iff_cleared (tr : List Obs) (s : Bridge) :
    (machine.Run Cleared tr s → NodesLast tr s) ∧
      (machine.Run (machine.keeps NodesLast) tr s → machine.Run Cleared tr s) := by
  have hexact := Machine.Run.exact_always (M := machine) (C := Cleared) (P := NodesLast)
    Logged.initial.last fun hrun _ hs => (nodesLast_step (run_sane hrun) (run_logged hrun) hs).1
  exact ⟨hexact.1 tr s, hexact.2 tr s⟩

/-- A module with a replica and a model crashes, and the event loop deletes everything before the
bridge is destroyed. -/
theorem crashed_module_is_cleared : ∃ tr s, machine.Run Cleared tr s ∧ s.alive = false ∧
    [.acquired 2 1, .acquired 3 1, .destroyed 2, .destroyed 3, .destroyed 0, .destroyed 1] =
      tr.filter (fun | .acquired .. | .destroyed _ => true | _ => false) ∧ NodesLast tr s := by
  have h := Machine.exec_run (M := machine) (G := Cleared)
    [.setViewModuleSocket "chat" "a", .setViewReplicaPlugin "chat" "/chat.so" .factory,
      .module "chat" .factory (some (some .valid)), .model "chat" "messages" true,
      .notifyViewModuleCrashed "chat", .turn, .turn, .turn, .turn, .destroy] rfl
  exact ⟨_, _, h, rfl, rfl, (nodes_last_iff_cleared _ _).1 h⟩

/-- The bridge is destroyed with a replica and a model in use: the node goes first, and the model
stays. -/
theorem node_is_destroyed_first : ∃ tr s, machine.Run Machine.always tr s ∧ ¬ NodesLast tr s ∧
    [.acquired 2 1, .acquired 3 1, .destroyed 0, .destroyed 1, .destroyed 2] =
      tr.filter (fun | .acquired .. | .destroyed _ => true | _ => false) := by
  have h := Machine.exec_run (M := machine) (G := Machine.always)
    [.setViewModuleSocket "chat" "a", .setViewReplicaPlugin "chat" "/chat.so" .factory,
      .module "chat" .factory (some (some .valid)), .model "chat" "messages" true, .destroy] rfl
  refine ⟨_, _, h, fun hlast => ?_, rfl⟩
  have hbefore := hlast [.acquired 2 1, .viewModuleReadyChanged "chat" true true,
    .module "chat" (some 2), .acquired 3 1, .model "chat" "messages" (some 3), .destroyed 0]
    [.destroyed 2] 1 rfl 2 (by decide)
  simp at hbefore

end LogosViewRuntime.ViewModules
