import LogosViewRuntime.Lib.Keys
import LogosViewRuntime.ViewCoherence

/-! # The models of different modules

All models are in one map under keys `module/model`, are found by their key and dropped by the
prefix `module/`.  The keys of two modules are apart as long as neither a module name nor a model
name holds a slash; a single model under a name that does can be had and dropped by another module
(`apart_iff_separable`). -/

namespace LogosViewRuntime.ViewModules

open Reactive
open Keys (Simple)

/-! ### The property -/

/-- The call an object was acquired for is the first that returned it. -/
def acquiredFor (d : ℕ) (tr : List Obs) : Option (String × String) := tr.findSome? fun
  | .model m x (some d') => if d' = d then some (m, x) else none
  | _ => none

/-- The caches of `m` are dropped. -/
def Drops (m : String) (s t : Bridge) : Prop :=
  t = (s.notifyViewModuleCrashed m).1 ∨
    ∃ socket, s.viewModuleSockets.lookup m ≠ some socket ∧ t = s.setViewModuleSocket m socket

/-- Whatever is asked of the bridge next, modules do not share their caches. -/
structure Apart (tr : List Obs) (s : Bridge) : Prop where
  foreign : ∀ m₁ x acquired d, .model m₁ x (some d) ∈ (s.model m₁ x acquired).2 →
    ∀ m₂ y, m₁ ≠ m₂ → acquiredFor d tr ≠ some (m₂, y)
  node : ∀ m₁ x acquired d, .model m₁ x (some d) ∈ (s.model m₁ x acquired).2 →
    ∀ key n m₂ socket, m₁ ≠ m₂ → (s.model m₁ x acquired).1.objects d = some (.modelReplica key n) →
      (s.model m₁ x acquired).1.objects n ≠ some (.node m₂ socket)
  dropped : ∀ m t, Drops m s t → t.factories.lookup m = none ∧
    t.cache.lookup (.replica m) = none ∧ t.cache.lookup (.factoryLoader m) = none ∧
    t.cache.lookup (.replicaNode m) = none ∧
    ∀ x, t.cache.lookup (.modelReplica (modelKey m x)) = none
  untouched : ∀ m₁ m₂ t, m₁ ≠ m₂ → Drops m₁ s t →
    t.factories.lookup m₂ = s.factories.lookup m₂ ∧
    t.cache.lookup (.replica m₂) = s.cache.lookup (.replica m₂) ∧
    t.cache.lookup (.factoryLoader m₂) = s.cache.lookup (.factoryLoader m₂) ∧
    t.cache.lookup (.replicaNode m₂) = s.cache.lookup (.replicaNode m₂) ∧
    ∀ y, t.cache.lookup (.modelReplica (modelKey m₂ y)) =
      s.cache.lookup (.modelReplica (modelKey m₂ y))

/-- `model` acquires a model. -/
def Bridge.Acquires (m x : String) (acquired : Bool) (s : Bridge) : Prop :=
  s.cache.lookup (.modelReplica (modelKey m x)) = none ∧ (s.getOrCreateNode m).2 ≠ none ∧
    acquired = true

/-- A model is acquired only under names without a slash. -/
def Separable (_ : List Obs) (s : Bridge) : Action → Prop
  | .model m x acquired => s.Acquires m x acquired → Simple '/' m.toList x.toList
  | _ => True

instance (m x : String) (acquired : Bool) (s : Bridge) : Decidable (s.Acquires m x acquired) :=
  inferInstanceAs (Decidable (_ ∧ _ ∧ _))

instance (tr : List Obs) (s : Bridge) : (a : Action) → Decidable (Separable tr s a)
  | .model m x acquired => inferInstanceAs
      (Decidable (s.Acquires m x acquired → '/' ∉ m.toList ∧ '/' ∉ x.toList))
  | .module .. | .replayViewModuleState | .setViewModuleSocket .. | .setViewReplicaPlugin ..
  | .notifyViewModuleCrashed _ | .stateChanged .. | .turn | .destroy =>
      inferInstanceAs (Decidable True)

/-! ### Keys -/

theorem toList_modelKey (m x : String) :
    (modelKey m x).toList = Keys.join '/' m.toList x.toList := by
  simp [modelKey, Keys.join]

theorem modelKey_eq_iff {m m' x x' : String} (h : Simple '/' m.toList x.toList) :
    modelKey m x = modelKey m' x' ↔ m = m' ∧ x = x' := by
  rw [← String.toList_inj, toList_modelKey, toList_modelKey, Keys.join_eq_iff h,
    String.toList_inj, String.toList_inj]

theorem modelKey_other {m x : String} (h : ¬ Simple '/' m.toList x.toList) :
    ∃ m' x', m' ≠ m ∧ modelKey m x = modelKey m' x' := by
  obtain ⟨c, d, hne, he⟩ := Keys.exists_other h
  refine ⟨String.ofList c, String.ofList d, fun hm => hne ?_, ?_⟩
  · rw [← hm, String.toList_ofList]
  · rw [← String.toList_inj, toList_modelKey, toList_modelKey, String.toList_ofList,
      String.toList_ofList, he]

/-- The keys that `m` drops are those it asks for. -/
theorem isOf_modelKey_iff {m m' x' : String} :
    (Slot.modelReplica (modelKey m' x')).IsOf m ↔ ∃ x, modelKey m' x' = modelKey m x := by
  have hstarts : (Slot.modelReplica (modelKey m' x')).IsOf m ↔
      m.toList ++ ['/'] <+: Keys.join '/' m'.toList x'.toList := by
    simp [Slot.IsOf, startsWith, toList_modelKey]
  rw [hstarts, Keys.prefix_iff]
  constructor
  · rintro ⟨d, hd⟩
    refine ⟨String.ofList d, ?_⟩
    rw [← String.toList_inj, toList_modelKey, toList_modelKey, String.toList_ofList, hd]
  · rintro ⟨x, hx⟩
    refine ⟨x.toList, ?_⟩
    rw [← toList_modelKey, hx, toList_modelKey]

/-! ### Which call a model was acquired for -/

theorem Heap.cached_lt {s : Bridge} (h : Heap s) {slot : Slot} {d : ℕ}
    (hd : s.cache.lookup slot = some d) : d < s.created := by
  obtain ⟨-, o, ho, -⟩ := h.cached slot d hd
  exact h.lt_created ho

/-- A cached model was acquired from the cached node of a module whose prefix its key has. -/
theorem Heap.model_source {s : Bridge} (h : Heap s) {key : String} {d : ℕ}
    (hd : s.cache.lookup (.modelReplica key) = some d) :
    ∃ n, s.objects d = some (.modelReplica key n) ∧
      ∃ m, (Slot.modelReplica key).IsOf m ∧ s.cache.lookup (.replicaNode m) = some n := by
  obtain ⟨-, o, ho, hslot⟩ := h.cached _ d hd
  cases o with
  | modelReplica key' n =>
      obtain rfl := Slot.modelReplica.inj hslot
      obtain ⟨m, hof, hnode⟩ := h.node_cached hd ho rfl
      exact ⟨n, ho, m, hof, hnode⟩
  | node _ _ | loader _ _ | replica _ _ _ _ => cases hslot

variable {tr os : List Obs} {s s' : Bridge} {a : Action}

theorem acquiredFor_append (d : ℕ) (tr os : List Obs) :
    acquiredFor d (tr ++ os) = (acquiredFor d tr).or (acquiredFor d os) := List.findSome?_append

/-- Not a model that is returned. -/
def Unreturned : Obs → Prop
  | .model _ _ (some _) => False
  | _ => True

theorem acquiredFor_unreturned (h : ∀ o ∈ os, Unreturned o) (d : ℕ) : acquiredFor d os = none := by
  refine List.findSome?_eq_none_iff.mpr fun o ho => ?_
  have hunreturned := h o ho
  cases o with
  | model m x result =>
      cases result with
      | none => rfl
      | some d' => exact hunreturned.elim
  | _ => rfl

/-- The cached models are those that were acquired under their keys, for names without a slash. -/
structure Booked (tr : List Obs) (s : Bridge) : Prop where
  born : ∀ d p, acquiredFor d tr = some p → d < s.created
  cached : ∀ key d, s.cache.lookup (.modelReplica key) = some d →
    ∃ m x, acquiredFor d tr = some (m, x) ∧ key = modelKey m x ∧ Simple '/' m.toList x.toList

namespace Booked

theorem initial : Booked [] {} where
  born _ _ h := by cases h
  cached _ _ h := by cases h

/-- No model is acquired or returned. -/
theorem frame (h : Booked tr s) (hcreated : s.created ≤ s'.created)
    (hcache : ∀ key d, s'.cache.lookup (.modelReplica key) = some d →
      s.cache.lookup (.modelReplica key) = some d)
    (hos : ∀ d, acquiredFor d os = none) : Booked (tr ++ os) s' where
  born d p hp := by
    rw [acquiredFor_append, hos d, Option.or_none] at hp
    exact Nat.lt_of_lt_of_le (h.born d p hp) hcreated
  cached key d hd := by
    rw [acquiredFor_append, hos d, Option.or_none]
    exact h.cached key d (hcache key d hd)

/-- A cached model is returned once more. -/
theorem again (h : Booked tr s) {m x : String} {d : ℕ}
    (hd : s.cache.lookup (.modelReplica (modelKey m x)) = some d) :
    Booked (tr ++ [.model m x (some d)]) s := by
  obtain ⟨m₁, x₁, hfor, -⟩ := h.cached _ d hd
  -- `d` was returned before, any other object is not returned now
  have hsame : ∀ d', acquiredFor d' (tr ++ [.model m x (some d)]) = acquiredFor d' tr := by
    intro d'
    rw [acquiredFor_append]
    by_cases hd' : d' = d
    · rw [hd', hfor]
      rfl
    · have hnone : acquiredFor d' [.model m x (some d)] = none := by
        simp [acquiredFor, Ne.symm hd']
      rw [hnone, Option.or_none]
  refine ⟨fun d' p hp => ?_, fun key d' hd' => ?_⟩
  · rw [hsame d'] at hp
    exact h.born d' p hp
  · rw [hsame d']
    exact h.cached key d' hd'

/-- A new object was not returned before. -/
theorem fresh (h : Booked tr s) {d : ℕ} (hd : s.created ≤ d) : acquiredFor d tr = none := by
  cases hfor : acquiredFor d tr with
  | none => rfl
  | some p => exact absurd (h.born d p hfor) (Nat.not_lt.mpr hd)

theorem acquired (h : Booked tr s) (hgrows : Grows s s') (hcoherent : Coherent s') {m x : String}
    {node : ℕ} (hsimple : Simple '/' m.toList x.toList) :
    Booked (tr ++ [.acquired s'.created node, .model m x (some s'.created)])
      (s'.store (.modelReplica (modelKey m x) node)) := by
  have hnew : acquiredFor s'.created (tr ++ [.acquired s'.created node, .model m x (some s'.created)])
      = some (m, x) := by
    rw [acquiredFor_append, h.fresh hgrows.created]
    simp [acquiredFor]
  have hold : ∀ d ≠ s'.created, acquiredFor d
      (tr ++ [.acquired s'.created node, .model m x (some s'.created)]) = acquiredFor d tr := by
    intro d hd
    have hnone : acquiredFor d [.acquired s'.created node, .model m x (some s'.created)] = none := by
      simp [acquiredFor, Ne.symm hd]
    rw [acquiredFor_append, hnone, Option.or_none]
  refine ⟨fun d p hp => ?_, fun key d hd => ?_⟩
  · by_cases hd : d = s'.created
    · rw [hd]
      exact Nat.lt_succ_self _
    · rw [hold d hd] at hp
      exact Nat.lt_succ_of_lt (Nat.lt_of_lt_of_le (h.born d p hp) hgrows.created)
  · by_cases hkey : key = modelKey m x
    · rw [hkey] at hd
      have hself := lookup_store_self (.modelReplica (modelKey m x) node) s'
      obtain rfl := Option.some.inj (hself.symm.trans hd)
      exact ⟨m, x, hnew, hkey, hsimple⟩
    · have hne : Slot.modelReplica key ≠ (Object.modelReplica (modelKey m x) node).slot :=
        fun he => hkey (Slot.modelReplica.inj he)
      rw [lookup_store_ne hne] at hd
      obtain ⟨-, -, m', hof, -⟩ := hcoherent.toHeap.model_source hd
      rw [hold d (Nat.ne_of_lt (hcoherent.toHeap.cached_lt hd))]
      exact h.cached key d ((hgrows.acquired _ m' hof).symm.trans hd)

end Booked

/-! ### Steps -/

/-- `model` returns a cached model, or none, or acquires one from the module's node. -/
theorem Coherent.model_outcomes (h : Coherent s) (m x : String) (acquired : Bool) :
    (∃ d, s.cache.lookup (.modelReplica (modelKey m x)) = some d ∧
      s.model m x acquired = (s, [.model m x (some d)])) ∨
    (∃ s', Grows s s' ∧ Coherent s' ∧ ¬ s.Acquires m x acquired ∧
      s.model m x acquired = (s', [.model m x none])) ∨
    ∃ s' node, Grows s s' ∧ Coherent s' ∧ s.Acquires m x acquired ∧
      s'.cache.lookup (.modelReplica (modelKey m x)) = none ∧
      s'.cache.lookup (.replicaNode m) = some node ∧
      s.model m x acquired = (s'.store (.modelReplica (modelKey m x) node),
        [.acquired s'.created node, .model m x (some s'.created)]) := by
  unfold Bridge.model Bridge.Acquires
  dsimp only
  cases hmodel : s.cache.lookup (.modelReplica (modelKey m x)) with
  | some d => exact .inl ⟨d, rfl, rfl⟩
  | none =>
      obtain ⟨hcoherent, hgrows, -, hnode⟩ := h.getOrCreateNode m
      generalize s.getOrCreateNode m = got at hcoherent hgrows hnode ⊢
      obtain ⟨s', node⟩ := got
      cases node with
      | none => exact .inr (.inl ⟨s', hgrows, hcoherent, by simp, rfl⟩)
      | some node =>
          cases acquired with
          | false => exact .inr (.inl ⟨s', hgrows, hcoherent, by simp, rfl⟩)
          | true =>
              refine .inr (.inr ⟨s', node, hgrows, hcoherent, by simp, ?_, hnode node rfl, rfl⟩)
              rw [hgrows.acquired _ m (isOf_modelKey m x), hmodel]

theorem Grows.models (hgrows : Grows s s') (hcoherent : Coherent s') (key : String) (d : ℕ)
    (hd : s'.cache.lookup (.modelReplica key) = some d) :
    s.cache.lookup (.modelReplica key) = some d := by
  obtain ⟨-, -, m, hof, -⟩ := hcoherent.toHeap.model_source hd
  exact (hgrows.acquired _ m hof).symm.trans hd

theorem Releases.models {p : Slot → Prop} (hreleases : Releases p s s') (key : String) (d : ℕ)
    (hd : s'.cache.lookup (.modelReplica key) = some d) :
    s.cache.lookup (.modelReplica key) = some d := by
  have hp : ¬ p (.modelReplica key) := by
    intro hp
    rw [hreleases.gone _ hp] at hd
    cases hd
  rwa [hreleases.kept _ hp] at hd

theorem Booked.step (h : s.alive = true → Booked tr s) (hsane : Sane s)
    (hcondition : Separable tr s a) (hs : step s a = some (s', os)) (halive : s'.alive = true) :
    Booked (tr ++ os) s' := by
  cases step_cases hs with
  | module m load acquired hbefore =>
      obtain ⟨s₁, r, hs₁, hgrows, -, he⟩ | ⟨s₁, node, factory, state, hs₁, hgrows, -, -, -, -, he⟩ :=
        (hsane hbefore).module_cases m load acquired
      · rw [he]
        exact (h hbefore).frame hgrows.created (hgrows.models hs₁) fun d => rfl
      · rw [he]
        refine (h hbefore).frame (Nat.le_succ_of_le hgrows.created) (fun key d hd => ?_)
          (acquiredFor_unreturned ?_)
        · rw [lookup_store_ne (by simp [Object.slot])] at hd
          exact hgrows.models hs₁ key d hd
        · split_ifs <;> simp [Unreturned, Bridge.readyChanged]
  | model m x acquired hbefore =>
      obtain ⟨d, hd, he⟩ | ⟨s₁, hgrows, hs₁, -, he⟩ | ⟨s₁, node, hgrows, hs₁, hacquires, -, -, he⟩ :=
        (hsane hbefore).model_outcomes m x acquired
      · rw [he]
        exact (h hbefore).again hd
      · rw [he]
        exact (h hbefore).frame hgrows.created (hgrows.models hs₁) fun d => rfl
      · rw [he]
        exact (h hbefore).acquired hgrows hs₁ (hcondition hacquires)
  | replayViewModuleState hbefore =>
      refine (h hbefore).frame (Nat.le_refl _) (fun _ _ hd => hd) (acquiredFor_unreturned ?_)
      intro o ho
      obtain ⟨m, -, rfl⟩ := List.mem_map.mp ho
      trivial
  | setViewModuleSocket m socket hbefore =>
      obtain ⟨-, he⟩ | ⟨-, -, hreleases⟩ := (hsane hbefore).setViewModuleSocket_cases m socket
      · rw [he, List.append_nil]
        exact h hbefore
      · exact (h hbefore).frame hreleases.created.ge hreleases.models fun _ => rfl
  | setViewReplicaPlugin m path load hbefore =>
      obtain ⟨-, he⟩ | ⟨-, s₁, -, hreleases, hset, hgrows⟩ :=
        (hsane hbefore).setViewReplicaPlugin_cases m path load
      · rw [he, List.append_nil]
        exact h hbefore
      · exact (h hbefore).frame (hreleases.created.ge.trans hgrows.created)
          (fun key d hd => hreleases.models key d (hgrows.models hset key d hd)) fun _ => rfl
  | notifyViewModuleCrashed m hbefore =>
      have hreleases := (releases_drop m s).1
      exact (h hbefore).frame hreleases.created.ge hreleases.models fun _ => rfl
  | stateChanged d state m node factory old =>
      refine (h halive).frame (Nat.le_refl _) (fun _ _ hd => hd) (acquiredFor_unreturned ?_)
      dsimp only [Bridge.stateChanged]
      split_ifs
      · simp [Unreturned, Bridge.readyChanged]
      · simp
  | turn =>
      rw [turn_alive] at halive
      have hbooked := h halive
      unfold Bridge.turn Bridge.destroyObject
      split
      · rwa [List.append_nil]
      · split
        · exact hbooked.frame (Nat.le_refl _) (fun _ _ hd => hd) fun _ => rfl
        · exact hbooked.frame (Nat.le_refl _) (fun _ _ hd => hd) fun _ => rfl
  | destroy _ =>
      rw [destroy_alive] at halive
      cases halive

theorem run_booked (h : machine.Run Separable tr s) : s.alive = true → Booked tr s := by
  have hboth := h.invariant (I := fun tr s => Sane s ∧ (s.alive = true → Booked tr s))
    ⟨fun _ => Coherent.initial, fun _ => Booked.initial⟩
    fun hi hcondition hs => ⟨hi.1.step hs, Booked.step hi.2 hi.1 hcondition hs⟩
  exact hboth.2

/-! ### What the keys keep apart -/

theorem drops_releases (h : Coherent s) {m : String} {t : Bridge} (ht : Drops m s t) :
    Releases (Slot.BelongsTo m) s t ∧ t.factories = s.factories.erase m := by
  obtain rfl | ⟨socket, hsocket, rfl⟩ := ht
  · exact releases_drop m s
  · obtain ⟨hsame, -⟩ | ⟨-, -, hreleases⟩ := h.setViewModuleSocket_cases m socket
    · exact absurd hsame hsocket
    · refine ⟨hreleases, ?_⟩
      rw [Bridge.setViewModuleSocket, if_neg hsocket]
      exact (releases_drop m s).2

/-- A cached model has the name of the module it was acquired for, and that module's node. -/
theorem Booked.owner (h : Booked tr s) (hcoherent : Coherent s) {m x : String} {d : ℕ}
    (hd : s.cache.lookup (.modelReplica (modelKey m x)) = some d) :
    acquiredFor d tr = some (m, x) ∧ Simple '/' m.toList x.toList ∧
      ∃ n socket, s.objects d = some (.modelReplica (modelKey m x) n) ∧
        s.objects n = some (.node m socket) := by
  obtain ⟨m₁, x₁, hfor, hkey, hsimple⟩ := h.cached _ d hd
  obtain ⟨rfl, rfl⟩ := (modelKey_eq_iff hsimple).mp hkey.symm
  obtain ⟨n, hobject, m₂, hof, hnode⟩ := hcoherent.toHeap.model_source hd
  obtain ⟨x₂, hx₂⟩ := isOf_modelKey_iff.mp hof
  obtain ⟨rfl, -⟩ := (modelKey_eq_iff hsimple).mp hx₂
  obtain ⟨socket, hsocket⟩ := hcoherent.toHeap.cached_node hnode
  exact ⟨hfor, hsimple, n, socket, hobject, hsocket⟩

theorem Booked.apart (h : Booked tr s) (hcoherent : Coherent s) : Apart tr s where
  foreign m₁ x acquired d hreturned m₂ y hne hfor := by
    obtain ⟨d', hd', he⟩ | ⟨s₁, -, -, -, he⟩ | ⟨s₁, node, hgrows, -, -, -, -, he⟩ :=
      hcoherent.model_outcomes m₁ x acquired
    · simp only [he, List.mem_singleton, Obs.model.injEq, Option.some.injEq, true_and] at hreturned
      rw [hreturned, (h.owner hcoherent hd').1] at hfor
      exact hne (Prod.mk.inj (Option.some.inj hfor)).1
    · simp [he] at hreturned
    · simp only [he, List.mem_cons, Obs.model.injEq, Option.some.injEq, true_and, reduceCtorEq,
        List.not_mem_nil, or_false, false_or] at hreturned
      rw [hreturned, h.fresh hgrows.created] at hfor
      cases hfor
  node m₁ x acquired d hreturned key n m₂ socket hne hobject hnode := by
    obtain ⟨d', hd', he⟩ | ⟨s₁, -, -, -, he⟩ | ⟨s₁, node, hgrows, hs₁, -, hslot, hnode₁, he⟩ :=
      hcoherent.model_outcomes m₁ x acquired
    · simp only [he, List.mem_singleton, Obs.model.injEq, Option.some.injEq, true_and] at hreturned
      obtain ⟨-, -, n', socket', hobject', hnode'⟩ := h.owner hcoherent hd'
      simp only [he, hreturned, hobject', Option.some.injEq, Object.modelReplica.injEq] at hobject
      simp only [he, ← hobject.2, hnode', Option.some.injEq, Object.node.injEq] at hnode
      exact hne hnode.1
    · simp [he] at hreturned
    · simp only [he, List.mem_cons, Obs.model.injEq, Option.some.injEq, true_and, reduceCtorEq,
        List.not_mem_nil, or_false, false_or] at hreturned
      have hstored := hs₁.storeModel hslot hnode₁
      obtain ⟨socket₁, hsocket₁⟩ := hstored.toHeap.cached_node
        ((lookup_store_ne (by simp [Object.slot])).trans hnode₁)
      have hnew : (s₁.store (.modelReplica (modelKey m₁ x) node)).objects s₁.created =
          some (.modelReplica (modelKey m₁ x) node) := Function.update_self ..
      simp only [he, hreturned, hnew, Option.some.injEq, Object.modelReplica.injEq] at hobject
      simp only [he, ← hobject.2, hsocket₁, Option.some.injEq, Object.node.injEq] at hnode
      exact hne hnode.1
  dropped m t ht := by
    obtain ⟨hreleases, hfactories⟩ := drops_releases hcoherent ht
    refine ⟨?_, hreleases.gone _ (.inl rfl), hreleases.gone _ (.inr (.inl rfl)),
      hreleases.gone _ (.inr (.inr rfl)), fun x => hreleases.gone _ (.inl (isOf_modelKey m x))⟩
    rw [hfactories, AList.lookup_erase]
  untouched m₁ m₂ t hne ht := by
    obtain ⟨hreleases, hfactories⟩ := drops_releases hcoherent ht
    refine ⟨?_, hreleases.kept _ ?_, hreleases.kept _ ?_, hreleases.kept _ ?_, fun y => ?_⟩
    · rw [hfactories, AList.lookup_erase_ne (Ne.symm hne)]
    · rintro (hof | he | he)
      · exact hne (Eq.symm hof)
      · cases he
      · cases he
    · rintro (hof | he | he)
      · exact hof
      · exact hne (Slot.factoryLoader.inj he).symm
      · cases he
    · rintro (hof | he | he)
      · exact hof
      · cases he
      · exact hne (Slot.replicaNode.inj he).symm
    · by_cases hbelongs : Slot.BelongsTo m₁ (.modelReplica (modelKey m₂ y))
      · rw [hreleases.gone _ hbelongs]
        cases hd : s.cache.lookup (.modelReplica (modelKey m₂ y)) with
        | none => rfl
        | some d =>
            -- a key of both modules is that of a name with a slash
            obtain ⟨-, hsimple, -⟩ := h.owner hcoherent hd
            obtain hof | he | he := hbelongs
            · obtain ⟨x, hx⟩ := isOf_modelKey_iff.mp hof
              exact absurd ((modelKey_eq_iff hsimple).mp hx).1.symm hne
            · cases he
            · cases he
      · exact hreleases.kept _ hbelongs

/-- While the bridge is there its modules are apart. -/
def KeptApart (tr : List Obs) (s : Bridge) : Prop := s.alive = true → Apart tr s

theorem apart_step (hsane : Sane s) (hbooked : s.alive = true → Booked tr s)
    (hs : step s a = some (s', os)) : KeptApart (tr ++ os) s' ↔ Separable tr s a := by
  constructor
  · intro hapart
    cases a with
    | model m x acquired =>
        intro hacquires
        obtain ⟨hbefore, rfl, rfl⟩ := Machine.taken_if hs
        obtain ⟨d, hd, -⟩ | ⟨s₁, -, -, hnot, -⟩ | ⟨s₁, node, hgrows, hs₁, -, -, -, he⟩ :=
          (hsane hbefore).model_outcomes m x acquired
        · rw [hacquires.1] at hd
          cases hd
        · exact absurd hacquires hnot
        · by_contra hsimple
          -- the new model can be had by another module
          obtain ⟨m', x', hne, hkey⟩ := modelKey_other hsimple
          rw [he] at hapart
          have halive : (s₁.store (.modelReplica (modelKey m x) node)).alive = true :=
            hgrows.alive.trans hbefore
          have hself := lookup_store_self (.modelReplica (modelKey m x) node) s₁
          refine (hapart halive).foreign m' x' true s₁.created ?_ m x hne ?_
          · have hlookup : (s₁.store (.modelReplica (modelKey m x) node)).cache.lookup
                (.modelReplica (modelKey m' x')) = some s₁.created := hkey ▸ hself
            rw [Bridge.model]
            dsimp only
            rw [hlookup]
            exact List.mem_cons_self
          · rw [acquiredFor_append, (hbooked hbefore).fresh hgrows.created]
            simp [acquiredFor]
    | module | replayViewModuleState | setViewModuleSocket | setViewReplicaPlugin
    | notifyViewModuleCrashed | stateChanged | turn | destroy => trivial
  · intro hcondition halive
    exact (Booked.step hbooked hsane hcondition hs halive).apart (hsane.step hs halive)

/-- Modules do not share their caches, whatever is asked of the bridge at any moment of a run, if
and only if no model is acquired for a module name or a model name with a slash. -/
theorem apart_iff_separable (tr : List Obs) (s : Bridge) :
    (machine.Run Separable tr s → KeptApart tr s) ∧
      (machine.Run (machine.keeps KeptApart) tr s → machine.Run Separable tr s) := by
  obtain ⟨hapart, hseparable⟩ := Machine.Run.exact_always (M := machine) (C := Separable)
    (P := KeptApart) (fun _ => Booked.initial.apart Coherent.initial) fun hrun _ hs =>
      apart_step (run_sane hrun) (run_booked hrun) hs
  exact ⟨hapart tr s, hseparable tr s⟩

/-- A model of `chat/list` is handed to `chat`, and goes when `chat` crashes. -/
theorem slash_joins_two_modules : ∃ tr s, machine.Run Machine.always tr s ∧ s.alive = true ∧
    acquiredFor 1 tr = some ("chat/list", "items") ∧
    .model "chat" "list/items" (some 1) ∈ (s.model "chat" "list/items" true).2 ∧
    s.cache.lookup (.modelReplica (modelKey "chat/list" "items")) = some 1 ∧
    (s.notifyViewModuleCrashed "chat").1.cache.lookup
      (.modelReplica (modelKey "chat/list" "items")) = none := by
  have h := Machine.exec_run (M := machine) (G := Machine.always)
    [.setViewModuleSocket "chat/list" "a", .model "chat/list" "items" true] rfl
  exact ⟨_, _, h, rfl, rfl, List.mem_cons_self, rfl, rfl⟩

/-- One module's name begins with the other's, and each keeps its models. -/
theorem prefix_keeps_two_modules : ∃ tr s, machine.Run Separable tr s ∧ Apart tr s ∧
    s.cache.lookup (.modelReplica (modelKey "chat" "items")) = none ∧
    s.cache.lookup (.modelReplica (modelKey "chat_ui" "items")) = some 3 := by
  have h := Machine.exec_run (M := machine) (G := Separable)
    [.setViewModuleSocket "chat" "a", .model "chat" "items" true,
      .setViewModuleSocket "chat_ui" "b", .model "chat_ui" "items" true,
      .notifyViewModuleCrashed "chat"] rfl
  exact ⟨_, _, h, (apart_iff_separable _ _).1 h rfl, rfl, rfl⟩

end LogosViewRuntime.ViewModules
