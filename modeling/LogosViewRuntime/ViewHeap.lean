import LogosViewRuntime.ViewModules

/-! # Objects, caches and deferred deletions

What holds of the bridge's objects as long as the bridge is there (`Heap`): an object lives
exactly as long as it is cached or its deletion is deferred, what was acquired from a node lives
inside the node's life, and a node's deletion is deferred behind the deletions of everything that
was acquired from it. -/

namespace LogosViewRuntime.ViewModules

open Reactive

/-- The node an object was acquired from. -/
def Object.source : Object → Option ℕ
  | .replica _ n _ _ | .modelReplica _ n => some n
  | _ => none

/-- The slot is for what `module` and `model` acquire from the node of `m`. -/
def Slot.IsOf (m : String) : Slot → Prop
  | .replica module => module = m
  | .modelReplica key => startsWith (m ++ "/") key = true
  | _ => False

/-- The live object `d` was acquired from `n`. -/
def From (s : Bridge) (d n : ℕ) : Prop := ∃ object ∈ s.objects d, object.source = some n

structure Heap (s : Bridge) : Prop where
  fresh : ∀ d, s.created ≤ d → s.objects d = none
  queued : ∀ d ∈ s.queue, d < s.created
  cached : ∀ slot, ∀ d ∈ s.cache.lookup slot, d ∉ s.queue ∧ ∃ o ∈ s.objects d, o.slot = slot
  owned : ∀ d, ∀ o ∈ s.objects d, d ∈ s.queue ∨ s.cache.lookup o.slot = some d
  based : ∀ d n, ∀ o ∈ s.objects d, o.source = some n →
    n < d ∧ ∃ m socket, s.objects n = some (.node m socket) ∧ o.slot.IsOf m
  follows : ∀ n ∈ s.queue, ∀ d, From s d n → d ∈ s.queue
  order : s.queue.Pairwise fun n d => ¬ From s d n
  child : ∀ d, ∀ o ∈ s.objects d, o.isChild = true → d ∈ s.children
  sorted : s.children.Pairwise (· < ·)
  born : ∀ d ∈ s.children, d < s.created

variable {s : Bridge}

theorem Object.slot_eq_node {o : Object} {m : String} (h : o.slot = .replicaNode m) :
    ∃ socket, o = .node m socket := by
  cases o with
  | node module socket =>
      obtain rfl := Slot.replicaNode.inj h
      exact ⟨socket, rfl⟩
  | loader _ _ | replica _ _ _ _ | modelReplica _ _ => cases h

theorem lookup_store_self (object : Object) (s : Bridge) :
    (s.store object).cache.lookup object.slot = some s.created := AList.lookup_insert _

theorem lookup_store_ne {object : Object} {slot : Slot} (h : slot ≠ object.slot) :
    (s.store object).cache.lookup slot = s.cache.lookup slot := AList.lookup_insert_ne h

namespace Heap

theorem initial : Heap {} where
  fresh _ _ := rfl
  queued := by simp
  cached := by simp
  owned := by simp
  based := by simp
  follows := by simp
  order := .nil
  child := by simp
  sorted := .nil
  born := by simp

theorem lt_created (h : Heap s) {d : ℕ} {o : Object} (ho : s.objects d = some o) :
    d < s.created := by
  by_contra hd
  rw [h.fresh d (by omega)] at ho
  cases ho

theorem cached_node (h : Heap s) {m : String} {n : ℕ}
    (hn : s.cache.lookup (.replicaNode m) = some n) : ∃ socket, s.objects n = some (.node m socket) := by
  obtain ⟨-, o, ho, hslot⟩ := h.cached _ n hn
  obtain ⟨socket, rfl⟩ := Object.slot_eq_node hslot
  exact ⟨socket, ho⟩

/-! ### Dropping an entry -/

/-- A slot can be released once nothing that was acquired from its object is cached. -/
theorem release (h : Heap s) (slot : Slot) (hlast : ∀ m, slot = .replicaNode m →
    ∀ slot', slot'.IsOf m → s.cache.lookup slot' = none) : Heap (s.release slot) := by
  unfold Bridge.release
  cases hlookup : s.cache.lookup slot with
  | none => exact h
  | some d =>
      obtain ⟨hd, o, ho, hslot⟩ := h.cached slot d hlookup
      refine { h with
        queued := fun d' hd' => ?_
        cached := fun slot' d' hd' => ?_
        owned := fun d' o' ho' => ?_
        follows := fun n hn d' hfrom => ?_
        order := ?_ }
      · obtain hd' | hd' := List.mem_append.mp hd'
        · exact h.queued d' hd'
        · obtain rfl := List.mem_singleton.mp hd'
          exact h.lt_created ho
      · have hne : slot' ≠ slot := by
          rintro rfl
          simp [Bridge.deleteLater] at hd'
        have hd' : (s.cache.erase slot).lookup slot' = some d' := hd'
        rw [AList.lookup_erase_ne hne] at hd'
        obtain ⟨hq, o', ho', hslot'⟩ := h.cached slot' d' hd'
        refine ⟨fun hm => ?_, o', ho', hslot'⟩
        obtain hm | hm := List.mem_append.mp hm
        · exact hq hm
        · obtain rfl := List.mem_singleton.mp hm
          obtain rfl := Option.some.inj (ho.symm.trans ho')
          exact hne (hslot'.symm.trans hslot)
      · obtain hq | hc := h.owned d' o' ho'
        · exact .inl (List.mem_append_left _ hq)
        · by_cases he : o'.slot = slot
          · rw [he, hlookup] at hc
            obtain rfl := Option.some.inj hc
            exact .inl (by simp [Bridge.deleteLater])
          · exact .inr ((AList.lookup_erase_ne he).trans hc)
      · obtain hn | hn := List.mem_append.mp hn
        · exact List.mem_append_left _ (h.follows n hn d' hfrom)
        · -- the node itself: what was acquired from it is not cached any more
          obtain rfl := List.mem_singleton.mp hn
          obtain ⟨o', ho', hsource⟩ := hfrom
          obtain ⟨-, m, socket, hnode, hof⟩ := h.based d' n o' ho' hsource
          obtain rfl := Option.some.inj (ho.symm.trans hnode)
          obtain hq | hc := h.owned d' o' ho'
          · exact List.mem_append_left _ hq
          · rw [hlast m hslot.symm _ hof] at hc
            cases hc
      · refine List.pairwise_append.mpr ⟨h.order, List.pairwise_singleton _ _, ?_⟩
        intro n hn d' hd' hfrom
        obtain rfl := List.mem_singleton.mp hd'
        exact hd (h.follows n hn d' hfrom)

/-! ### A new object -/

theorem from_create {object : Object} {d n : ℕ} (hd : d ≠ s.created) :
    From (s.create object) d n ↔ From s d n := by
  simp only [From, Bridge.create, Function.update_of_ne hd]

/-- What holds of a new object whatever becomes of it. -/
theorem create_objects (object : Object) (s : Bridge) {d : ℕ} {o : Object}
    (ho : (s.create object).objects d = some o) :
    d = s.created ∧ o = object ∨ d ≠ s.created ∧ s.objects d = some o := by
  simp only [Bridge.create] at ho
  by_cases hd : d = s.created
  · subst hd
    rw [Function.update_self] at ho
    exact .inl ⟨rfl, (Option.some.inj ho).symm⟩
  · rw [Function.update_of_ne hd] at ho
    exact .inr ⟨hd, ho⟩

theorem create_children (h : Heap s) (object : Object) :
    (∀ d, ∀ o ∈ (s.create object).objects d, o.isChild = true → d ∈ (s.create object).children) ∧
      (s.create object).children.Pairwise (· < ·) ∧
      ∀ d ∈ (s.create object).children, d < s.created + 1 := by
  simp only [Bridge.create]
  refine ⟨fun d o ho hchild => ?_, ?_, fun d hd => ?_⟩
  · obtain ⟨rfl, rfl⟩ | ⟨-, ho⟩ := create_objects object s ho
    · rw [if_pos hchild]
      simp
    · have := h.child d o ho hchild
      split_ifs
      · exact List.mem_append_left _ this
      · exact this
  · split_ifs
    · refine List.pairwise_append.mpr ⟨h.sorted, List.pairwise_singleton _ _, fun d hd d' hd' => ?_⟩
      obtain rfl := List.mem_singleton.mp hd'
      exact h.born d hd
    · exact h.sorted
  · split_ifs at hd
    · obtain hd | hd := List.mem_append.mp hd
      · have := h.born d hd
        omega
      · have := List.mem_singleton.mp hd
        omega
    · have := h.born d hd
      omega

/-- An object is created for an empty slot; what is acquired comes from the cached node. -/
theorem store (h : Heap s) {object : Object} (hslot : s.cache.lookup object.slot = none)
    (hsource : ∀ n, object.source = some n →
      ∃ m, object.slot.IsOf m ∧ s.cache.lookup (.replicaNode m) = some n) :
    Heap (s.store object) := by
  obtain ⟨hchild, hsorted, hborn⟩ := h.create_children object
  have hself : s.objects s.created = none := h.fresh _ le_rfl
  have hkeep : ∀ {d o}, s.objects d = some o → (s.create object).objects d = some o := by
    intro d o ho
    exact (Function.update_of_ne (Nat.ne_of_lt (h.lt_created ho)) ..).trans ho
  refine
    { fresh := fun d hd => ?_
      queued := fun d hd => Nat.lt_succ_of_lt (h.queued d hd)
      cached := fun slot d hd => ?_
      owned := fun d o ho => ?_
      based := fun d n o ho hs => ?_
      follows := fun n hn d hfrom => ?_
      order := h.order.imp_of_mem fun {n d} _ hd hnot hfrom => ?_
      child := hchild
      sorted := hsorted
      born := hborn }
  · have hd : s.created + 1 ≤ d := hd
    exact (Function.update_of_ne (by omega) ..).trans (h.fresh d (by omega))
  · by_cases he : slot = object.slot
    · subst he
      obtain rfl : s.created = d := by simpa [Bridge.store] using hd
      refine ⟨fun hq => Nat.lt_irrefl _ (h.queued _ hq), object, Function.update_self .., rfl⟩
    · rw [Bridge.store, AList.lookup_insert_ne he] at hd
      obtain ⟨hq, o, ho, hs⟩ := h.cached slot d hd
      exact ⟨hq, o, hkeep ho, hs⟩
  · obtain ⟨rfl, rfl⟩ | ⟨-, ho⟩ := create_objects object s ho
    · exact .inr (AList.lookup_insert _)
    · obtain hq | hc := h.owned d o ho
      · exact .inl hq
      · have hne : o.slot ≠ object.slot := by
          intro he
          rw [he, hslot] at hc
          cases hc
        exact .inr ((AList.lookup_insert_ne hne).trans hc)
  · obtain ⟨rfl, rfl⟩ | ⟨-, ho⟩ := create_objects object s ho
    · obtain ⟨m, hof, hnode⟩ := hsource n hs
      obtain ⟨socket, hobject⟩ := h.cached_node hnode
      exact ⟨h.lt_created hobject, m, socket, hkeep hobject, hof⟩
    · obtain ⟨hlt, m, socket, hobject, hof⟩ := h.based d n o ho hs
      exact ⟨hlt, m, socket, hkeep hobject, hof⟩
  · by_cases hd : d = s.created
    · subst hd
      obtain ⟨o, ho, hs⟩ := hfrom
      obtain ⟨-, rfl⟩ | ⟨hd, -⟩ := create_objects object s ho
      · obtain ⟨m, -, hnode⟩ := hsource n hs
        exact absurd hn (h.cached _ n hnode).1
      · exact absurd rfl hd
    · exact h.follows n hn d ((from_create hd).mp hfrom)
  · exact hnot ((from_create (Nat.ne_of_lt (h.queued d hd))).mp hfrom)

/-- A loader that turns out useless is deleted later. -/
theorem discard (h : Heap s) (module path : String) :
    Heap ((s.create (.loader module path)).deleteLater s.created) := by
  obtain ⟨hchild, hsorted, hborn⟩ := h.create_children (.loader module path)
  have hkeep : ∀ {d o}, s.objects d = some o → (s.create (.loader module path)).objects d = some o := by
    intro d o ho
    exact (Function.update_of_ne (Nat.ne_of_lt (h.lt_created ho)) ..).trans ho
  have hfrom : ∀ {d n}, From ((s.create (.loader module path)).deleteLater s.created) d n →
      From s d n := by
    rintro d n ⟨o, ho, hs⟩
    obtain ⟨-, rfl⟩ | ⟨-, ho⟩ := create_objects _ s ho
    · cases hs
    · exact ⟨o, ho, hs⟩
  refine
    { fresh := fun d hd => ?_
      queued := fun d hd => ?_
      cached := fun slot d hd => ?_
      owned := fun d o ho => ?_
      based := fun d n o ho hs => ?_
      follows := fun n hn d hf => ?_
      order := List.pairwise_append.mpr ⟨h.order.imp fun hnot hf => hnot (hfrom hf),
        List.pairwise_singleton _ _, fun n hn d hd hf => ?_⟩
      child := hchild
      sorted := hsorted
      born := hborn }
  · have hd : s.created + 1 ≤ d := hd
    exact (Function.update_of_ne (by omega) ..).trans (h.fresh d (by omega))
  · obtain hd | hd := List.mem_append.mp hd
    · exact Nat.lt_succ_of_lt (h.queued d hd)
    · obtain rfl := List.mem_singleton.mp hd
      exact Nat.lt_succ_self _
  · obtain ⟨hq, o, ho, hs⟩ := h.cached slot d hd
    refine ⟨fun hm => ?_, o, hkeep ho, hs⟩
    obtain hm | hm := List.mem_append.mp hm
    · exact hq hm
    · exact absurd (h.lt_created ho) (by simp [List.mem_singleton.mp hm])
  · obtain ⟨rfl, -⟩ | ⟨-, ho⟩ := create_objects _ s ho
    · exact .inl (by simp [Bridge.deleteLater])
    · exact (h.owned d o ho).imp_left (List.mem_append_left _)
  · obtain ⟨-, rfl⟩ | ⟨-, ho⟩ := create_objects _ s ho
    · cases hs
    · obtain ⟨hlt, m, socket, hobject, hof⟩ := h.based d n o ho hs
      exact ⟨hlt, m, socket, hkeep hobject, hof⟩
  · obtain hn | hn := List.mem_append.mp hn
    · exact List.mem_append_left _ (h.follows n hn d (hfrom hf))
    · -- nothing was acquired from the loader
      obtain rfl := List.mem_singleton.mp hn
      obtain ⟨o, ho, hs⟩ := hfrom hf
      obtain ⟨-, m, socket, hobject, -⟩ := h.based d _ o ho hs
      rw [h.fresh _ le_rfl] at hobject
      cases hobject
  · obtain ⟨o, ho, hs⟩ := hfrom hf
    obtain rfl := List.mem_singleton.mp hd
    rw [h.fresh _ le_rfl] at ho
    cases ho

/-! ### Deletions -/

/-- Nothing that was acquired from it is left when a deferred deletion runs. -/
theorem not_from_head (h : Heap s) {n : ℕ} {queue : List ℕ} (hqueue : s.queue = n :: queue) (d : ℕ) :
    ¬ From s d n := by
  intro hfrom
  have hd := h.follows n (by simp [hqueue]) d hfrom
  have horder := h.order
  rw [hqueue] at hd horder
  obtain rfl | hd := List.mem_cons.mp hd
  · obtain ⟨o, ho, hs⟩ := hfrom
    exact Nat.lt_irrefl _ (h.based d d o ho hs).1
  · exact (List.pairwise_cons.mp horder).1 d hd hfrom

theorem turn (h : Heap s) : Heap s.turn.1 := by
  unfold Bridge.turn
  cases hqueue : s.queue with
  | nil => exact h
  | cons d queue =>
      have hrest : ∀ {i}, i ∈ s.queue → i ≠ d → i ∈ queue := by
        intro i hi hne
        rw [hqueue] at hi
        exact (List.mem_cons.mp hi).resolve_left hne
      have hsub : ∀ {i}, i ∈ queue → i ∈ s.queue := fun hi => by simp [hqueue, hi]
      have horder := h.order
      rw [hqueue] at horder
      dsimp only [Bridge.destroyObject]
      split
      · rename_i hnone
        have hne : ∀ {i o}, s.objects i = some o → i ≠ d := by
          rintro i o ho rfl
          exact absurd (ho.symm.trans hnone) nofun
        exact { h with
          queued := fun i hi => h.queued i (hsub hi)
          cached := fun slot i hi => (h.cached slot i hi).imp_left fun hq hi => hq (hsub hi)
          owned := fun i o ho => (h.owned i o ho).imp_left fun hi => hrest hi (hne ho)
          follows := fun n hn i hf => hrest (h.follows n (hsub hn) i hf)
            (hf.elim fun o ho => hne ho.1)
          order := (List.pairwise_cons.mp horder).2 }
      · rename_i object hobject
        have hold : ∀ {i o}, Function.update s.objects d none i = some o →
            i ≠ d ∧ s.objects i = some o := by
          intro i o ho
          by_cases hi : i = d
          · subst hi
            simp at ho
          · exact ⟨hi, by rwa [Function.update_of_ne hi] at ho⟩
        have hkeep : ∀ {i o}, i ≠ d → s.objects i = some o →
            Function.update s.objects d none i = some o :=
          fun hi ho => (Function.update_of_ne hi ..).trans ho
        have hfrom : ∀ {i n}, From { s with
            objects := Function.update s.objects d none
            children := s.children.erase d
            queue } i n → i ≠ d ∧ From s i n := by
          rintro i n ⟨o, ho, hs⟩
          obtain ⟨hne, ho⟩ := hold ho
          exact ⟨hne, o, ho, hs⟩
        refine { h with
          fresh := fun i hi => ?_
          queued := fun i hi => h.queued i (hsub hi)
          cached := fun slot i hi => ?_
          owned := fun i o ho => ?_
          based := fun i n o ho hs => ?_
          follows := fun n hn i hf =>
            hrest (h.follows n (hsub hn) i (hfrom hf).2) (hfrom hf).1
          order := (List.pairwise_cons.mp horder).2.imp fun hnot hf => hnot (hfrom hf).2
          child := fun i o ho hc => ?_
          sorted := h.sorted.sublist List.erase_sublist
          born := fun i hi => h.born i (List.mem_of_mem_erase hi) }
        · by_cases he : i = d
          · subst he
            exact Function.update_self ..
          · exact (Function.update_of_ne he ..).trans (h.fresh i hi)
        · obtain ⟨hq, o, ho, hslot⟩ := h.cached slot i hi
          have hne : i ≠ d := by
            rintro rfl
            exact hq (by simp [hqueue])
          exact ⟨fun hi => hq (hsub hi), o, hkeep hne ho, hslot⟩
        · obtain ⟨hne, ho⟩ := hold ho
          exact (h.owned i o ho).imp_left fun hi => hrest hi hne
        · have hlive : From s i n := ⟨o, (hold ho).2, hs⟩
          obtain ⟨hlt, m, socket, hnode, hof⟩ := h.based i n o (hold ho).2 hs
          have hn : n ≠ d := by
            rintro rfl
            exact h.not_from_head hqueue i hlive
          exact ⟨hlt, m, socket, hkeep hn hnode, hof⟩
        · obtain ⟨hne, ho⟩ := hold ho
          exact (List.mem_erase_of_ne hne).mpr (h.child i o ho hc)

/-! ### A state change -/

theorem stateChanged (h : Heap s) {d : ℕ} {module : String} {node factory : ℕ}
    {old : Option State} (hd : s.objects d = some (.replica module node factory old))
    (state : State) : Heap (s.stateChanged d module node factory state).1 := by
  have hof : ∀ {i o}, (s.stateChanged d module node factory state).1.objects i = some o →
      ∃ o' ∈ s.objects i, o'.slot = o.slot ∧ o'.source = o.source ∧ o'.isChild = o.isChild := by
    intro i o ho
    simp only [Bridge.stateChanged] at ho
    by_cases hi : i = d
    · subst hi
      rw [Function.update_self] at ho
      obtain rfl := Option.some.inj ho
      exact ⟨_, hd, rfl, rfl, rfl⟩
    · rw [Function.update_of_ne hi] at ho
      exact ⟨o, ho, rfl, rfl, rfl⟩
  have hto : ∀ {i o'}, s.objects i = some o' →
      ∃ o ∈ (s.stateChanged d module node factory state).1.objects i, o.slot = o'.slot := by
    intro i o' ho
    simp only [Bridge.stateChanged]
    by_cases hi : i = d
    · subst hi
      obtain rfl := Option.some.inj (hd.symm.trans ho)
      exact ⟨_, Function.update_self .., rfl⟩
    · exact ⟨o', (Function.update_of_ne hi ..).trans ho, rfl⟩
  have hfrom : ∀ {i n}, From (s.stateChanged d module node factory state).1 i n → From s i n := by
    rintro i n ⟨o, ho, hs⟩
    obtain ⟨o', ho', -, hsource, -⟩ := hof ho
    exact ⟨o', ho', hsource.trans hs⟩
  refine
    { fresh := fun i hi => ?_
      queued := h.queued
      cached := fun slot i hi => ?_
      owned := fun i o ho => ?_
      based := fun i n o ho hs => ?_
      follows := fun n hn i hf => h.follows n hn i (hfrom hf)
      order := h.order.imp fun hnot hf => hnot (hfrom hf)
      child := fun i o ho hc => ?_
      sorted := h.sorted
      born := h.born }
  · have hne : i ≠ d := Nat.ne_of_gt (Nat.lt_of_lt_of_le (h.lt_created hd) hi)
    exact (Function.update_of_ne hne ..).trans (h.fresh i hi)
  · obtain ⟨hq, o', ho', hslot⟩ := h.cached slot i hi
    obtain ⟨o, ho, hs⟩ := hto ho'
    exact ⟨hq, o, ho, hs.trans hslot⟩
  · obtain ⟨o', ho', hslot, -, -⟩ := hof ho
    rw [← hslot]
    exact h.owned i o' ho'
  · obtain ⟨o', ho', hslot, hsource, -⟩ := hof ho
    obtain ⟨hlt, m, socket, hnode, hm⟩ := h.based i n o' ho' (hsource.trans hs)
    have hne : n ≠ d := by
      rintro rfl
      rw [hd] at hnode
      cases hnode
    exact ⟨hlt, m, socket, (Function.update_of_ne hne ..).trans hnode, hslot ▸ hm⟩
  · obtain ⟨o', ho', -, -, hchild⟩ := hof ho
    exact h.child i o' ho' (hchild.trans hc)

end Heap

/-! ### Dropping entries -/

/-- From `s` to `s'` the entries of the slots `p` are dropped, and nothing else. -/
structure Releases (p : Slot → Prop) (s s' : Bridge) : Prop where
  alive : s'.alive = s.alive
  objects : s'.objects = s.objects
  created : s'.created = s.created
  gone : ∀ slot, p slot → s'.cache.lookup slot = none
  kept : ∀ slot, ¬ p slot → s'.cache.lookup slot = s.cache.lookup slot

theorem Releases.trans {p q : Slot → Prop} {s' s'' : Bridge} (h : Releases p s s')
    (h' : Releases q s' s'') : Releases (fun slot => p slot ∨ q slot) s s'' where
  alive := h'.alive.trans h.alive
  objects := h'.objects.trans h.objects
  created := h'.created.trans h.created
  gone slot hslot := by
    by_cases hq : q slot
    · exact h'.gone slot hq
    · rw [h'.kept slot hq]
      exact h.gone slot (hslot.resolve_right hq)
  kept slot hslot := by
    rw [not_or] at hslot
    rw [h'.kept slot hslot.2, h.kept slot hslot.1]

theorem releases_release (slot : Slot) (s : Bridge) :
    Releases (fun slot' => slot' = slot) s (s.release slot) := by
  unfold Bridge.release
  cases hlookup : s.cache.lookup slot with
  | none => exact ⟨rfl, rfl, rfl, fun slot' he => he ▸ hlookup, fun _ _ => rfl⟩
  | some d =>
      exact ⟨rfl, rfl, rfl, fun slot' he => he ▸ AList.lookup_erase _ _,
        fun slot' he => AList.lookup_erase_ne he⟩

@[simp] theorem release_factories (slot : Slot) (s : Bridge) :
    (s.release slot).factories = s.factories := by
  unfold Bridge.release
  split <;> rfl

theorem mem_modelKeys {key : String} :
    key ∈ s.modelKeys ↔ (s.cache.lookup (.modelReplica key)).isSome = true := by
  rw [Bridge.modelKeys, List.mem_insertionSort, AList.lookup_isSome, AList.mem_keys,
    List.mem_filterMap]
  constructor
  · rintro ⟨slot, hslot, he⟩
    cases slot with
    | modelReplica key' => exact Option.some.inj he ▸ hslot
    | replicaNode _ | factoryLoader _ | replica _ => cases he
  · intro hslot
    exact ⟨_, hslot, rfl⟩

theorem releases_foldl (keys : List String) (s : Bridge) :
    Releases (fun slot => ∃ key ∈ keys, slot = .modelReplica key) s
      (keys.foldl (fun s key => s.release (.modelReplica key)) s) := by
  induction keys generalizing s with
  | nil => exact ⟨rfl, rfl, rfl, by simp, fun _ _ => rfl⟩
  | cons key keys ih =>
      have := (releases_release (.modelReplica key) s).trans (ih _)
      refine ⟨this.alive, this.objects, this.created, fun slot hslot => this.gone slot ?_,
        fun slot hslot => this.kept slot ?_⟩
      · simpa using hslot
      · simpa using hslot

theorem releases_dropModels (start : String) (s : Bridge) :
    Releases (fun slot => ∃ key, startsWith start key = true ∧ slot = .modelReplica key) s
      (s.dropModels start) := by
  have := releases_foldl (s.modelKeys.filter (startsWith start)) s
  refine ⟨this.alive, this.objects, this.created, ?_, fun slot hslot => this.kept slot ?_⟩
  · rintro slot ⟨key, hstart, rfl⟩
    by_cases hkey : key ∈ s.modelKeys
    · exact this.gone _ ⟨key, List.mem_filter.mpr ⟨hkey, hstart⟩, rfl⟩
    · have hnone : s.cache.lookup (.modelReplica key) = none := by
        rwa [mem_modelKeys, Bool.not_eq_true, Option.isSome_eq_false_iff, Option.isNone_iff_eq_none]
          at hkey
      refine (this.kept _ ?_).trans hnone
      rintro ⟨key', hkey', he⟩
      obtain rfl := Slot.modelReplica.inj he
      exact hkey (List.mem_filter.mp hkey').1
  · rintro ⟨key, hkey, he⟩
    exact hslot ⟨key, (List.mem_filter.mp hkey).2, he⟩

@[simp] theorem dropModels_factories (start : String) (s : Bridge) :
    (s.dropModels start).factories = s.factories := by
  unfold Bridge.dropModels
  induction s.modelKeys.filter (startsWith start) generalizing s with
  | nil => rfl
  | cons key keys ih => exact (ih _).trans (release_factories _ s)

theorem Heap.dropModels (h : Heap s) (start : String) : Heap (s.dropModels start) := by
  unfold Bridge.dropModels
  induction s.modelKeys.filter (startsWith start) generalizing s with
  | nil => exact h
  | cons key keys ih => exact ih (h.release _ nofun)

theorem releases_dropFactory (m : String) (s : Bridge) :
    Releases (fun slot => slot = .factoryLoader m) s (s.dropFactory m) := by
  have := releases_release (.factoryLoader m) { s with factories := s.factories.erase m }
  exact ⟨this.alive, this.objects, this.created, this.gone, this.kept⟩

@[simp] theorem dropFactory_factories (m : String) (s : Bridge) :
    (s.dropFactory m).factories = s.factories.erase m := by
  rw [Bridge.dropFactory, release_factories]

theorem Heap.dropFactory (h : Heap s) (m : String) : Heap (s.dropFactory m) := by
  have hcleared : Heap { s with factories := s.factories.erase m } := { h with }
  exact hcleared.release _ nofun

/-- The slots that `dropViewModuleCaches` drops. -/
def Slot.BelongsTo (m : String) (slot : Slot) : Prop :=
  slot.IsOf m ∨ slot = .factoryLoader m ∨ slot = .replicaNode m

theorem releases_drop (m : String) (s : Bridge) :
    Releases (Slot.BelongsTo m) s (s.dropViewModuleCaches m) ∧
      (s.dropViewModuleCaches m).factories = s.factories.erase m := by
  have := (((releases_release (.replica m) s).trans (releases_dropModels (m ++ "/") _)).trans
    (releases_dropFactory m _)).trans (releases_release (.replicaNode m) _)
  refine ⟨⟨this.alive, this.objects, this.created, fun slot hslot => this.gone slot ?_,
    fun slot hslot => this.kept slot fun hgone => hslot ?_⟩, by simp [Bridge.dropViewModuleCaches]⟩
  · obtain hof | rfl | rfl := hslot
    · cases slot with
      | replica module => exact .inl (.inl (.inl (congrArg Slot.replica hof)))
      | modelReplica key => exact .inl (.inl (.inr ⟨key, hof, rfl⟩))
      | replicaNode _ | factoryLoader _ => exact hof.elim
    · exact .inl (.inr rfl)
    · exact .inr rfl
  · obtain ((rfl | ⟨key, hkey, rfl⟩) | rfl) | rfl := hgone
    · exact .inl rfl
    · exact .inl hkey
    · exact .inr (.inl rfl)
    · exact .inr (.inr rfl)

/-! ### Operations -/

/-- A factory is cached together with its loader. -/
structure Coherent (s : Bridge) : Prop extends Heap s where
  loaded : ∀ m, s.factories.lookup m = s.cache.lookup (.factoryLoader m)

theorem Coherent.initial : Coherent {} := ⟨Heap.initial, fun _ => rfl⟩

theorem Coherent.drop (h : Coherent s) (m : String) : Coherent (s.dropViewModuleCaches m) := by
  have hreplica := releases_release (.replica m) s
  have hmodels := hreplica.trans (releases_dropModels (m ++ "/") _)
  have hfactory := hmodels.trans (releases_dropFactory m _)
  have hheap := ((h.release (.replica m) nofun).dropModels (m ++ "/")).dropFactory m
  obtain ⟨hreleases, hfactories⟩ := releases_drop m s
  refine ⟨hheap.release _ fun m' hm slot' hof => ?_, fun m' => ?_⟩
  · -- everything acquired from the node has been dropped before
    obtain rfl := Slot.replicaNode.inj hm
    apply hfactory.gone
    cases slot' with
    | replica module => exact .inl (.inl (congrArg Slot.replica hof))
    | modelReplica key => exact .inl (.inr ⟨key, hof, rfl⟩)
    | replicaNode _ | factoryLoader _ => exact hof.elim
  · rw [hfactories]
    by_cases hm : m' = m
    · subst hm
      rw [AList.lookup_erase, hreleases.gone _ (.inr (.inl rfl))]
    · rw [AList.lookup_erase_ne hm, h.loaded, hreleases.kept]
      rintro (hof | he | he)
      · exact hof.elim
      · exact hm (Slot.factoryLoader.inj he)
      · cases he

/-- From `s` to `s'` objects are added that nobody acquired from a node. -/
structure Grows (s s' : Bridge) : Prop where
  alive : s'.alive = s.alive
  created : s.created ≤ s'.created
  old : ∀ d < s.created, s'.objects d = s.objects d
  new : ∀ d n, s.created ≤ d → ¬ From s' d n
  acquired : ∀ slot m, slot.IsOf m → s'.cache.lookup slot = s.cache.lookup slot

theorem Heap.grows_refl (h : Heap s) : Grows s s where
  alive := rfl
  created := le_rfl
  old _ _ := rfl
  new d n hd := by
    rintro ⟨o, ho, -⟩
    rw [h.fresh d hd] at ho
    cases ho
  acquired _ _ _ := rfl

theorem Grows.trans {s' s'' : Bridge} (h : Grows s s') (h' : Grows s' s'') : Grows s s'' where
  alive := h'.alive.trans h.alive
  created := Nat.le_trans h.created h'.created
  old d hd := (h'.old d (by have := h.created; omega)).trans (h.old d hd)
  new d n hd hfrom := by
    by_cases hd' : s'.created ≤ d
    · exact h'.new d n hd' hfrom
    · apply h.new d n hd
      unfold From at hfrom ⊢
      rwa [← h'.old d (by omega)]
  acquired slot m hof := (h'.acquired slot m hof).trans (h.acquired slot m hof)

/-- A node or a loader is created. -/
theorem Heap.grows_create (h : Heap s) (object : Object) (hsource : object.source = none)
    {s' : Bridge} (halive : s'.alive = s.alive) (hcreated : s'.created = s.created + 1)
    (hobjects : s'.objects = Function.update s.objects s.created (some object))
    (hcache : ∀ slot m, slot.IsOf m → s'.cache.lookup slot = s.cache.lookup slot) :
    Grows s s' where
  alive := halive
  created := by omega
  old d hd := by
    rw [hobjects]
    exact Function.update_of_ne (by omega) ..
  new d n hd := by
    rintro ⟨o, ho, hs⟩
    rw [hobjects] at ho
    obtain ⟨-, rfl⟩ | ⟨-, ho⟩ := create_objects object s ho
    · rw [hsource] at hs
      cases hs
    · rw [h.fresh d hd] at ho
      cases ho
  acquired := hcache

/-- A factory is there, cannot be had, or is loaded; a loader that is of no use is deleted later. -/
theorem loadFactory_cases (m : String) (load : Load) (s : Bridge) :
    s.loadFactory m load = (s, s.factories.lookup m) ∨
      ∃ path, s.factories.lookup m = none ∧ s.replicaPluginPaths.lookup m = some path ∧
        (s.loadFactory m load = ((s.create (.loader m path)).deleteLater s.created, none) ∨
          s.loadFactory m load = ({ s.store (.loader m path) with
            factories := s.factories.insert m s.created }, some s.created)) := by
  unfold Bridge.loadFactory
  cases s.factories.lookup m with
  | some factory => exact .inl rfl
  | none =>
      cases s.replicaPluginPaths.lookup m with
      | none => exact .inl rfl
      | some path =>
          dsimp only
          split_ifs
          · exact .inl rfl
          · cases load with
            | notFound => exact .inl rfl
            | noInstance | noFactory => exact .inr ⟨path, rfl, rfl, .inl rfl⟩
            | factory => exact .inr ⟨path, rfl, rfl, .inr rfl⟩

/-- A node is there, cannot be had, or is created for the module's socket. -/
theorem getOrCreateNode_cases (m : String) (s : Bridge) :
    s.getOrCreateNode m = (s, s.cache.lookup (.replicaNode m)) ∨
      ∃ socket, s.cache.lookup (.replicaNode m) = none ∧
        s.viewModuleSockets.lookup m = some socket ∧
        s.getOrCreateNode m = (s.store (.node m socket), some s.created) := by
  unfold Bridge.getOrCreateNode
  cases s.cache.lookup (.replicaNode m) with
  | some node => exact .inl rfl
  | none =>
      cases s.viewModuleSockets.lookup m with
      | none => exact .inl rfl
      | some socket => exact .inr ⟨socket, rfl, rfl, rfl⟩

theorem Coherent.loadFactory (h : Coherent s) (m : String) (load : Load) :
    Coherent (s.loadFactory m load).1 ∧ Grows s (s.loadFactory m load).1 ∧
      ∀ f ∈ (s.loadFactory m load).2, (s.loadFactory m load).1.factories.lookup m = some f := by
  obtain he | ⟨path, hfactory, -, he | he⟩ := loadFactory_cases m load s
  · rw [he]
    exact ⟨h, h.grows_refl, fun f hf => hf⟩
  · rw [he]
    refine ⟨⟨h.discard m path, h.loaded⟩, ?_, nofun⟩
    exact h.grows_create (.loader m path) rfl rfl rfl rfl fun _ _ _ => rfl
  · rw [he]
    have hslot : s.cache.lookup (.factoryLoader m) = none := by rw [← h.loaded, hfactory]
    have hheap : Heap (s.store (.loader m path)) := h.store hslot nofun
    refine ⟨⟨{ hheap with }, fun m' => ?_⟩, ?_, fun f hf => ?_⟩
    · by_cases hm : m' = m
      · subst hm
        exact (AList.lookup_insert _).trans (lookup_store_self (.loader m' path) s).symm
      · refine (AList.lookup_insert_ne hm).trans ((h.loaded m').trans ?_)
        exact (AList.lookup_insert_ne fun he => hm (Slot.factoryLoader.inj he)).symm
    · refine h.grows_create (.loader m path) rfl rfl rfl rfl fun slot m' hof => ?_
      apply AList.lookup_insert_ne
      rintro rfl
      exact hof
    · obtain rfl := Option.some.inj hf
      exact AList.lookup_insert _

theorem Coherent.getOrCreateNode (h : Coherent s) (m : String) :
    Coherent (s.getOrCreateNode m).1 ∧ Grows s (s.getOrCreateNode m).1 ∧
      (s.getOrCreateNode m).1.factories = s.factories ∧
      ∀ n ∈ (s.getOrCreateNode m).2, (s.getOrCreateNode m).1.cache.lookup (.replicaNode m) = some n := by
  obtain he | ⟨socket, hnode, -, he⟩ := getOrCreateNode_cases m s
  · rw [he]
    exact ⟨h, h.grows_refl, rfl, fun n hn => hn⟩
  · rw [he]
    have hheap : Heap (s.store (.node m socket)) := h.store hnode nofun
    refine ⟨⟨hheap, fun m' => (h.loaded m').trans ?_⟩, ?_, rfl, fun n hn => ?_⟩
    · refine (AList.lookup_insert_ne ?_).symm
      rintro ⟨⟩
    · refine h.grows_create (.node m socket) rfl rfl rfl rfl fun slot m' hof => ?_
      apply AList.lookup_insert_ne
      rintro rfl
      exact hof
    · obtain rfl := Option.some.inj hn
      exact AList.lookup_insert _

/-- From `s` to `s'` nothing happens but that the factory of `m` is loaded and its node created. -/
inductive Prepares (m : String) (s : Bridge) : Bridge → Prop
  | refl : Prepares m s s
  | loadFactory {s' : Bridge} (load : Load) :
      Prepares m s s' → Prepares m s (s'.loadFactory m load).1
  | getOrCreateNode {s' : Bridge} : Prepares m s s' → Prepares m s (s'.getOrCreateNode m).1

/-- `module` either acquires nothing or a new replica from the module's node. -/
theorem Coherent.module_cases (h : Coherent s) (m : String) (load : Load)
    (acquired : Option (Option State)) :
    (∃ s' r, Coherent s' ∧ Grows s s' ∧ Prepares m s s' ∧
      s.module m load acquired = (s', [.module m r])) ∨
    ∃ s' node factory state, Coherent s' ∧ Grows s s' ∧ Prepares m s s' ∧
      s'.cache.lookup (.replica m) = none ∧ s'.cache.lookup (.replicaNode m) = some node ∧
      s'.factories.lookup m = some factory ∧
      s.module m load acquired = (s'.store (.replica m node factory state),
        .acquired s'.created node :: (if state = some .valid then
          [(s'.store (.replica m node factory state)).readyChanged m true] else []) ++
          [.module m (some s'.created)]) := by
  unfold Bridge.module
  cases hreplica : s.cache.lookup (.replica m) with
  | some d => exact .inl ⟨s, some d, h, h.grows_refl, .refl, rfl⟩
  | none =>
      obtain ⟨hload, hgrows, hfactory⟩ := h.loadFactory m load
      have hprepares : Prepares m s (s.loadFactory m load).1 := .loadFactory load .refl
      dsimp only
      split
      · rename_i s₁ hs₁
        rw [hs₁] at hload hgrows hprepares
        exact .inl ⟨s₁, none, hload, hgrows, hprepares, rfl⟩
      · rename_i s₁ factory hs₁
        rw [hs₁] at hload hgrows hprepares hfactory
        obtain ⟨hnode, hgrows', hfactories, hn⟩ := hload.getOrCreateNode m
        have hprepares' := hprepares.getOrCreateNode
        split
        · rename_i s₂ hs₂
          rw [hs₂] at hnode hgrows' hprepares'
          exact .inl ⟨s₂, none, hnode, hgrows.trans hgrows', hprepares', rfl⟩
        · rename_i s₂ node hs₂
          rw [hs₂] at hnode hgrows' hprepares' hfactories hn
          cases acquired with
          | none => exact .inl ⟨s₂, none, hnode, hgrows.trans hgrows', hprepares', rfl⟩
          | some state =>
              have hall := hgrows.trans hgrows'
              refine .inr ⟨s₂, node, factory, state, hnode, hall, hprepares', ?_, hn node rfl, ?_, rfl⟩
              · rw [hall.acquired (.replica m) m rfl, hreplica]
              · rw [hfactories, hfactory factory rfl]

theorem isOf_modelKey (m x : String) : (Slot.modelReplica (modelKey m x)).IsOf m := by
  simp [Slot.IsOf, startsWith, modelKey, List.append_assoc]

/-- `model` either acquires nothing or a new model from the module's node. -/
theorem Coherent.model_cases (h : Coherent s) (m x : String) (acquired : Bool) :
    (∃ s' r, Coherent s' ∧ Grows s s' ∧ Prepares m s s' ∧
      s.model m x acquired = (s', [.model m x r])) ∨
    ∃ s' node, Coherent s' ∧ Grows s s' ∧ Prepares m s s' ∧
      s'.cache.lookup (.modelReplica (modelKey m x)) = none ∧
      s'.cache.lookup (.replicaNode m) = some node ∧
      s.model m x acquired = (s'.store (.modelReplica (modelKey m x) node),
        [.acquired s'.created node, .model m x (some s'.created)]) := by
  unfold Bridge.model
  dsimp only
  cases hmodel : s.cache.lookup (.modelReplica (modelKey m x)) with
  | some d => exact .inl ⟨s, some d, h, h.grows_refl, .refl, rfl⟩
  | none =>
      obtain ⟨hnode, hgrows, -, hn⟩ := h.getOrCreateNode m
      have hprepares : Prepares m s (s.getOrCreateNode m).1 := .getOrCreateNode .refl
      dsimp only
      split
      · rename_i s₁ hs₁
        rw [hs₁] at hnode hgrows hprepares
        exact .inl ⟨s₁, none, hnode, hgrows, hprepares, rfl⟩
      · rename_i s₁ node hs₁
        rw [hs₁] at hnode hgrows hprepares hn
        cases acquired with
        | false => exact .inl ⟨s₁, none, hnode, hgrows, hprepares, rfl⟩
        | true =>
            refine .inr ⟨s₁, node, hnode, hgrows, hprepares, ?_, hn node rfl, rfl⟩
            rw [hgrows.acquired _ m (isOf_modelKey m x), hmodel]

theorem Coherent.storeReplica (h : Coherent s) {m : String} {node factory : ℕ}
    (state : Option State) (hslot : s.cache.lookup (.replica m) = none)
    (hnode : s.cache.lookup (.replicaNode m) = some node) :
    Coherent (s.store (.replica m node factory state)) := by
  refine ⟨h.store hslot fun n hn => ⟨m, rfl, ?_⟩, fun m' => (h.loaded m').trans ?_⟩
  · obtain rfl := Option.some.inj hn
    exact hnode
  · refine (lookup_store_ne ?_).symm
    rintro ⟨⟩

theorem Coherent.storeModel (h : Coherent s) {m x : String} {node : ℕ}
    (hslot : s.cache.lookup (.modelReplica (modelKey m x)) = none)
    (hnode : s.cache.lookup (.replicaNode m) = some node) :
    Coherent (s.store (.modelReplica (modelKey m x) node)) := by
  refine ⟨h.store hslot fun n hn => ⟨m, isOf_modelKey m x, ?_⟩, fun m' => (h.loaded m').trans ?_⟩
  · obtain rfl := Option.some.inj hn
    exact hnode
  · refine (lookup_store_ne ?_).symm
    rintro ⟨⟩

/-- A replica and its factory are dropped, the node stays. -/
theorem Coherent.dropReplica (h : Coherent s) (m : String) :
    Coherent ((s.release (.replica m)).dropFactory m) ∧
      Releases (fun slot => slot = .replica m ∨ slot = .factoryLoader m) s
        ((s.release (.replica m)).dropFactory m) := by
  have hreleases := (releases_release (.replica m) s).trans (releases_dropFactory m _)
  refine ⟨⟨(h.release (.replica m) nofun).dropFactory m, fun m' => ?_⟩, hreleases⟩
  rw [dropFactory_factories, release_factories]
  by_cases hm : m' = m
  · subst hm
    rw [AList.lookup_erase, hreleases.gone _ (.inr rfl)]
  · rw [AList.lookup_erase_ne hm, h.loaded, hreleases.kept]
    rintro (he | he)
    · cases he
    · exact hm (Slot.factoryLoader.inj he)

/-- A changed socket drops everything the module has. -/
theorem Coherent.setViewModuleSocket_cases (h : Coherent s) (m socket : String) :
    (s.viewModuleSockets.lookup m = some socket ∧ s.setViewModuleSocket m socket = s) ∨
      s.viewModuleSockets.lookup m ≠ some socket ∧ Coherent (s.setViewModuleSocket m socket) ∧
        Releases (Slot.BelongsTo m) s (s.setViewModuleSocket m socket) := by
  unfold Bridge.setViewModuleSocket
  split_ifs with hsame
  · exact .inl ⟨hsame, rfl⟩
  · have hdrop := h.drop m
    obtain ⟨hreleases, -⟩ := releases_drop m s
    generalize s.dropViewModuleCaches m = dropped at hdrop hreleases ⊢
    exact .inr ⟨hsame, { hdrop with loaded := hdrop.loaded }, { hreleases with }⟩

/-- A changed plugin drops the replica and its factory and loads the new one. -/
theorem Coherent.setViewReplicaPlugin_cases (h : Coherent s) (m path : String) (load : Load) :
    (s.replicaPluginPaths.lookup m = some path ∧ s.setViewReplicaPlugin m path load = s) ∨
      s.replicaPluginPaths.lookup m ≠ some path ∧ ∃ s₁, Coherent s₁ ∧
        Releases (fun slot => slot = .replica m ∨ slot = .factoryLoader m) s s₁ ∧
        Coherent (s.setViewReplicaPlugin m path load) ∧
        Grows s₁ (s.setViewReplicaPlugin m path load) := by
  unfold Bridge.setViewReplicaPlugin
  split_ifs with hsame
  · exact .inl ⟨hsame, rfl⟩
  · obtain ⟨hdrop, hreleases⟩ := h.dropReplica m
    have hset : Coherent { (s.release (.replica m)).dropFactory m with
        replicaPluginPaths := ((s.release (.replica m)).dropFactory m).replicaPluginPaths.insert
          m path } := { hdrop with loaded := hdrop.loaded }
    obtain ⟨hloaded, hgrows, -⟩ := hset.loadFactory m load
    exact .inr ⟨hsame, _, hset, { hreleases with }, hloaded, hgrows⟩

theorem turn_alive (s : Bridge) : s.turn.1.alive = s.alive := by
  unfold Bridge.turn Bridge.destroyObject
  split
  · rfl
  · split <;> rfl

theorem Coherent.turn (h : Coherent s) : Coherent s.turn.1 := by
  refine ⟨h.toHeap.turn, ?_⟩
  unfold Bridge.turn Bridge.destroyObject
  split
  · exact h.loaded
  · split <;> exact h.loaded

/-- While the bridge is there its caches and objects are coherent. -/
def Sane (s : Bridge) : Prop := s.alive = true → Coherent s

theorem destroy_alive (s : Bridge) : s.destroy.1.alive = false := by
  have : ∀ (children : List ℕ) (s : Bridge), (s.deleteChildren children).1.alive = s.alive := by
    intro children
    induction children with
    | nil => exact fun _ => rfl
    | cons d children ih =>
        intro s
        apply (ih _).trans
        unfold Bridge.destroyObject
        split <;> rfl
  exact this _ _

theorem Sane.step {s' : Bridge} {a : Action} {os : List Obs} (h : Sane s)
    (hs : step s a = some (s', os)) : Sane s' := by
  intro halive
  cases step_cases hs with
  | module m load acquired hbefore =>
      obtain ⟨s₁, r, hs₁, -, -, he⟩ | ⟨s₁, node, factory, state, hs₁, -, -, hslot, hnode, -, he⟩ :=
        (h hbefore).module_cases m load acquired
      · rw [he]
        exact hs₁
      · rw [he]
        exact hs₁.storeReplica state hslot hnode
  | model m x acquired hbefore =>
      obtain ⟨s₁, r, hs₁, -, -, he⟩ | ⟨s₁, node, hs₁, -, -, hslot, hnode, he⟩ :=
        (h hbefore).model_cases m x acquired
      · rw [he]
        exact hs₁
      · rw [he]
        exact hs₁.storeModel hslot hnode
  | replayViewModuleState hbefore =>
      exact h hbefore
  | setViewModuleSocket m socket hbefore =>
      obtain ⟨-, he⟩ | ⟨-, hset, -⟩ := (h hbefore).setViewModuleSocket_cases m socket
      · rw [he]
        exact h hbefore
      · exact hset
  | setViewReplicaPlugin m path load hbefore =>
      obtain ⟨-, he⟩ | ⟨-, _, -, -, hset, -⟩ := (h hbefore).setViewReplicaPlugin_cases m path load
      · rw [he]
        exact h hbefore
      · exact hset
  | notifyViewModuleCrashed m hbefore =>
      exact (h hbefore).drop m
  | stateChanged d state m node factory old hobject =>
      have hcoherent := h halive
      exact ⟨hcoherent.stateChanged hobject state, hcoherent.loaded⟩
  | turn =>
      rw [turn_alive] at halive
      exact (h halive).turn
  | destroy _ =>
      rw [destroy_alive] at halive
      cases halive

theorem run_sane {G : List Obs → Bridge → Action → Prop} {tr : List Obs}
    (h : machine.Run G tr s) : Sane s :=
  h.invariant (I := fun _ s => Sane s) (fun _ => Coherent.initial) fun hi _ hs => hi.step hs

end LogosViewRuntime.ViewModules
