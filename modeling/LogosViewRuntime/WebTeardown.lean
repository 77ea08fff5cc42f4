import LogosViewRuntime.WebOwners
import LogosViewRuntime.WebViews

/-! # `LogosWebRuntime` as a whole, and its destruction

The runtime with its node, its bridge and the views of its modules.  `~QObject` deletes children in
the order in which they were added, the node before the bridge, so the destructor deletes what it
knows itself: the views in `m_views`, each before its context, then the bridge with its replicas,
then the node.

* The destructor takes its steps one by one, and what a view runs while it is destroyed may use the
  bridge, which is still there.  A view that calls the runtime in the destructor is left out.
* `adopted` are the views that became children of the runtime, in that order; what an installation
  has overwritten is not in `m_views` any more and is left to `~QObject`, behind the node. -/

namespace LogosViewRuntime.WebContainer

open Reactive
open WebRuntime (Runtime History Vacant OwnedIn StrayIn Overwritten installedBy)

inductive Object where
  | view (n : ℕ)
  | context (n : ℕ)
  | bridge
  | replica (d : ℕ)
  | node
deriving DecidableEq, Repr

/-- How far the destructor is, with what it will delete next. -/
inductive Phase where
  | running
  | views (rest : List Object)
  | node
  | children (rest : List Object)
  | gone
deriving DecidableEq, Repr

structure Container where
  runtime : Runtime
  bridge : WebViews.Bridge := { node := true }
  portName : String := ""
  adopted : List ℕ := []
  phase : Phase := .running

inductive Obs where
  | runtime (o : WebRuntime.Obs)
  | bridge (o : WebViews.Obs)
  | connectToNode (portName : String)
  | connected (result : Bool)
  | destroyed (object : Object)
deriving DecidableEq, Repr

/-- A view and the context that it was created in, in the order of `destroyView`. -/
def pair (n : ℕ) : List Object := [.view n, .context n]

namespace Container

/-- `connectToBackend`; what `connectToNode` answers is on the label. -/
def connectToBackend (portName : String) (connected : Bool) (s : Container) :
    Container × List Obs :=
  if portName = "" then (s, [.connected false])
  else if s.portName = portName then (s, [.connected true])
  else ({ s with portName }, [.connectToNode portName, .connected connected])

def viewOf (s : Container) (moduleName : String) : List Object :=
  match s.runtime.views.lookup moduleName with
  | none => []
  | some n => pair n

def destroyObject (object : Object) (s : Container) : Container :=
  match object with
  | .view n =>
      { s with runtime :=
          { s.runtime with viewAlive := Function.update s.runtime.viewAlive n false } }
  | .context n =>
      { s with runtime :=
          { s.runtime with contextAlive := Function.update s.runtime.contextAlive n false } }
  | .bridge | .replica _ | .node => s

/-- The bridge and its children. -/
def bridgeObjects (s : Container) : List Object :=
  .bridge :: (List.range s.bridge.created).map .replica

/-- The children of the runtime that are left once bridge and node are gone. -/
def children (s : Container) : List Object :=
  s.adopted.flatMap fun n =>
    (if s.runtime.viewAlive n then [.view n] else []) ++
      if s.runtime.contextAlive n then [.context n] else []

/-- The next step of the destructor. -/
def next (s : Container) : Option (Container × List Obs) :=
  match s.phase with
  | .running | .gone => none
  | .views (object :: rest) =>
      some ({ s.destroyObject object with phase := .views rest }, [.destroyed object])
  | .views [] =>
      some ({ s with
          runtime := { s.runtime with views := ∅, order := [] }
          bridge := { s.bridge with alive := false }
          phase := .node }, s.bridgeObjects.map .destroyed)
  | .node => some ({ s with phase := .children s.children }, [.destroyed .node])
  | .children (object :: rest) =>
      some ({ s.destroyObject object with phase := .children rest }, [.destroyed object])
  | .children [] => some ({ s with phase := .gone }, [])

end Container

inductive Action where
  | runtime (a : WebRuntime.Action)
  | bridge (a : WebViews.Action)
  | connectToBackend (portName : String) (connected : Bool)
  | destroy (order : List String)
  | next

/-- The destructor runs when no call is under way, over the map in some order; the bridge is nobody
else's to delete. -/
def step (s : Container) : Action → Option (Container × List Obs)
  | .runtime a =>
      if s.phase = .running then
        (WebRuntime.step s.runtime a).map fun done =>
          ({ s with runtime := done.1, adopted := s.adopted ++ installedBy done.2 },
            done.2.map .runtime)
      else none
  | .bridge a =>
      if a = .destroy then none
      else
        (WebViews.step s.bridge a).map fun done => ({ s with bridge := done.1 }, done.2.map .bridge)
  | .connectToBackend portName connected =>
      if s.phase = .running then some (s.connectToBackend portName connected) else none
  | .destroy order =>
      if s.phase = .running ∧ s.runtime.stack = [] ∧ order.Perm s.runtime.views.keys then
        some ({ s with phase := .views (order.flatMap s.viewOf) }, [])
      else none
  | .next => s.next

def machine (engine : Bool) : Machine Container Action Obs where
  init := { runtime := { engine } }
  step := step

/-! ### What is observed -/

abbrev Log := List (Machine.Taken Container Action Obs)

/-- What was destroyed by the destructor, in order. -/
def destroyed (log : Log) : List Object := (log.flatMap (·.os)).filterMap fun
  | .destroyed object => some object
  | _ => none

/-- The runtime's own part in a step. -/
def runtimeStep (t : Machine.Taken Container Action Obs) :
    Option (Machine.Taken Runtime WebRuntime.Action WebRuntime.Obs) :=
  match t.label with
  | .runtime a => some
      { before := t.before.runtime
        label := a
        os := t.os.filterMap fun
          | .runtime o => some o
          | _ => none
        after := t.after.runtime }
  | _ => none

/-- The history of the module views. -/
def history (log : Log) : History := log.filterMap runtimeStep

variable {s s' : Container} {log : Log} {before : Runtime} {adopted tracked : List ℕ}
  {objects : List Object} {n : ℕ}

@[simp] theorem destroyed_append (log log' : Log) :
    destroyed (log ++ log') = destroyed log ++ destroyed log' := by
  simp [destroyed]

@[simp] theorem destroyed_map (objects : List Object) (t t' : Container) (a : Action) :
    destroyed [⟨t, a, objects.map .destroyed, t'⟩] = objects := by
  unfold destroyed
  rw [List.flatMap_singleton, List.filterMap_map]
  exact List.filterMap_some

theorem destroyed_runtime (os : List WebRuntime.Obs) (t t' : Container) (a : Action) :
    destroyed [⟨t, a, os.map .runtime, t'⟩] = [] := by
  unfold destroyed
  rw [List.flatMap_singleton, List.filterMap_map]
  exact List.filterMap_eq_nil_iff.mpr fun _ _ => rfl

theorem destroyed_bridge (os : List WebViews.Obs) (t t' : Container) (a : Action) :
    destroyed [⟨t, a, os.map .bridge, t'⟩] = [] := by
  unfold destroyed
  rw [List.flatMap_singleton, List.filterMap_map]
  exact List.filterMap_eq_nil_iff.mpr fun _ _ => rfl

/-- A step that is none of the runtime's. -/
theorem history_other {t : Machine.Taken Container Action Obs} (h : ∀ a, t.label ≠ .runtime a) :
    history (log ++ [t]) = history log := by
  have hstep : runtimeStep t = none := by
    unfold runtimeStep
    split
    · rename_i a ha
      exact absurd ha (h a)
    · rfl
  rw [history, List.filterMap_append]
  simp [history, hstep]

theorem history_runtime (a : WebRuntime.Action) (os : List WebRuntime.Obs) (t t' : Container) :
    history (log ++ [⟨t, .runtime a, os.map .runtime, t'⟩]) =
      history log ++ [⟨t.runtime, a, os, t'.runtime⟩] := by
  have hos : (os.map Obs.runtime).filterMap (fun
      | .runtime o => some o
      | _ => none) = os := by
    rw [List.filterMap_map]
    exact List.filterMap_some
  rw [history, List.filterMap_append]
  simp [history, runtimeStep, hos]

/-! ### The invariant -/

/-- The module views when no call is under way any more, with the views that `m_views` holds. -/
structure Snapshot (engine : Bool) (log : Log) (adopted : List ℕ) (before : Runtime)
    (tracked : List ℕ) : Prop where
  run : (WebRuntime.machine engine).shown.Run Machine.always (history log) before
  stack : before.stack = []
  owned : OwnedIn (· ∈ adopted) before
  nodup : adopted.Nodup
  installed : ∀ n, WebRuntime.Installed (history log) n ↔ n ∈ adopted
  strays : ∀ n, Overwritten (history log) n ↔ StrayIn before n
  destroyer : ∃ t ∈ log, ∃ order, t.label = .destroy order ∧ t.before.runtime = before
  once : tracked.Nodup
  mem_tracked : ∀ n, n ∈ tracked ↔ ∃ moduleName, before.views.lookup moduleName = some n

/-- Alive is what was alive before and has not been destroyed since. -/
structure Faded (before : Runtime) (objects : List Object) (r : Runtime) : Prop where
  view : ∀ n, r.viewAlive n = (before.viewAlive n && decide (.view n ∉ objects))
  context : ∀ n, r.contextAlive n = (before.contextAlive n && decide (.context n ∉ objects))

/-- The views that an installation has overwritten. -/
def overwritten (adopted : List ℕ) (before : Runtime) (tracked : List ℕ) : List ℕ :=
  adopted.filter fun n => before.viewAlive n && decide (n ∉ tracked)

/-- What the destructor destroys, from first to last. -/
def teardown (s : Container) (before : Runtime) (tracked : List ℕ) : List Object :=
  tracked.flatMap pair ++ (s.bridgeObjects ++
    .node :: (overwritten s.adopted before tracked).flatMap pair)

/-- While the runtime runs. -/
structure Running (engine : Bool) (log : Log) (s : Container) : Prop where
  run : (WebRuntime.machine engine).shown.Run Machine.always (history log) s.runtime
  owned : OwnedIn (· ∈ s.adopted) s.runtime
  nodup : s.adopted.Nodup
  installed : ∀ n, WebRuntime.Installed (history log) n ↔ n ∈ s.adopted
  strays : ∀ n, Overwritten (history log) n ↔ StrayIn s.runtime n
  destroyed : destroyed log = []

/-- How far the destructor is once it has destroyed `objects`. -/
def Progress (s : Container) (before : Runtime) (tracked : List ℕ) (objects : List Object) :
    Phase → Prop
  | .running => False
  | .views rest => objects ++ rest = tracked.flatMap pair
  | .node => s.bridge.alive = false ∧ objects = tracked.flatMap pair ++ s.bridgeObjects
  | .children rest => s.bridge.alive = false ∧ objects ++ rest = teardown s before tracked
  | .gone => s.bridge.alive = false ∧ objects = teardown s before tracked

/-- What is known in each phase. -/
def Stage (engine : Bool) (log : Log) (s : Container) : Prop :=
  s.phase = .running ∧ Running engine log s ∨
    ∃ before tracked, Snapshot engine log s.adopted before tracked ∧
      Faded before (destroyed log) s.runtime ∧ Progress s before tracked (destroyed log) s.phase

theorem mem_pairs {tracked : List ℕ} : (.view n ∈ tracked.flatMap pair ↔ n ∈ tracked) ∧
    (.context n ∈ tracked.flatMap pair ↔ n ∈ tracked) := by
  constructor <;> simp [pair]

theorem notMem_bridgeObjects (n : ℕ) (s : Container) :
    .view n ∉ s.bridgeObjects ∧ .context n ∉ s.bridgeObjects := by
  constructor <;> simp [Container.bridgeObjects]

theorem Faded.refl (r : Runtime) : Faded r [] r := ⟨fun n => by simp, fun n => by simp⟩

theorem Faded.destroy (h : Faded before objects s.runtime) (object : Object) :
    Faded before (objects ++ [object]) (s.destroyObject object).runtime := by
  cases object with
  | view m =>
      refine ⟨fun n => ?_, fun n => ?_⟩
      · by_cases hn : n = m
        · simp [Container.destroyObject, hn]
        · simp [Container.destroyObject, h.view n, hn]
      · simp [Container.destroyObject, h.context n]
  | context m =>
      refine ⟨fun n => ?_, fun n => ?_⟩
      · simp [Container.destroyObject, h.view n]
      · by_cases hn : n = m
        · simp [Container.destroyObject, hn]
        · simp [Container.destroyObject, h.context n, hn]
  | bridge | replica d | node =>
      exact ⟨fun n => by simp [Container.destroyObject, h.view n],
        fun n => by simp [Container.destroyObject, h.context n]⟩

/-- What is no view and no context fades nothing. -/
theorem Faded.others {others : List Object} (h : Faded before objects s.runtime)
    (hview : ∀ n, .view n ∉ others) (hcontext : ∀ n, .context n ∉ others) :
    Faded before (objects ++ others) s.runtime :=
  ⟨fun n => by simp [h.view n, hview n], fun n => by simp [h.context n, hcontext n]⟩

theorem flatMap_if_pair (p : ℕ → Bool) (numbers : List ℕ) :
    (numbers.flatMap fun n => if p n then pair n else []) = (numbers.filter p).flatMap pair := by
  induction numbers with
  | nil => rfl
  | cons n numbers ih =>
      rw [List.flatMap_cons, ih]
      cases hp : p n with
      | true => rw [if_pos rfl, List.filter_cons_of_pos hp, List.flatMap_cons]
      | false => rw [if_neg nofun, List.filter_cons_of_neg (by simp [hp]), List.nil_append]

/-- What is left for `~QObject` are the views that were overwritten. -/
theorem Snapshot.children {engine : Bool} (h : Snapshot engine log s.adopted before tracked)
    (hfaded : Faded before (tracked.flatMap pair ++ s.bridgeObjects) s.runtime) :
    s.children = (overwritten s.adopted before tracked).flatMap pair := by
  unfold Container.children overwritten
  rw [← flatMap_if_pair]
  apply List.flatMap_congr
  intro n hn
  have hview : s.runtime.viewAlive n = (before.viewAlive n && decide (n ∉ tracked)) := by
    simp [hfaded.view n, mem_pairs.1, (notMem_bridgeObjects n s).1]
  have hcontext : s.runtime.contextAlive n = (before.viewAlive n && decide (n ∉ tracked)) := by
    rw [h.owned.paired n hn]
    simp [hfaded.context n, mem_pairs.2, (notMem_bridgeObjects n s).2]
  rw [hview, hcontext]
  cases before.viewAlive n && decide (n ∉ tracked) <;> rfl

/-! ### Steps -/

theorem destroyObject_frame (object : Object) (s : Container) :
    (s.destroyObject object).adopted = s.adopted ∧ (s.destroyObject object).bridge = s.bridge ∧
      (s.destroyObject object).phase = s.phase := by
  cases object <;> exact ⟨rfl, rfl, rfl⟩

/-- A step that is none of the module views'. -/
theorem Snapshot.snoc {engine : Bool} {t : Machine.Taken Container Action Obs}
    (h : Snapshot engine log adopted before tracked) (hlabel : ∀ a, t.label ≠ .runtime a) :
    Snapshot engine (log ++ [t]) adopted before tracked := by
  have hlog : history (log ++ [t]) = history log := history_other hlabel
  obtain ⟨t', ht', hdestroy⟩ := h.destroyer
  exact ⟨hlog ▸ h.run, h.stack, h.owned, h.nodup, hlog ▸ h.installed, hlog ▸ h.strays,
    ⟨t', List.mem_append_left _ ht', hdestroy⟩, h.once, h.mem_tracked⟩

/-- A step of the module views. -/
theorem Running.runtime {engine : Bool} {a : WebRuntime.Action}
    {r : Runtime × List WebRuntime.Obs} (h : Running engine log s)
    (hs : WebRuntime.step s.runtime a = some r) (hruntime : s'.runtime = r.1)
    (hadopted : s'.adopted = s.adopted ++ installedBy r.2) :
    Running engine (log ++ [⟨s, .runtime a, r.2.map .runtime, s'⟩]) s' := by
  obtain ⟨howned, hnodup⟩ := h.owned.adopts h.nodup hs
  refine ⟨?_, ?_, ?_, fun n => ?_, fun n => ?_, ?_⟩
  · rw [history_runtime, hruntime]
    exact h.run.step trivial (Machine.shown_step.mpr ⟨r.2, hs, rfl⟩)
  · rwa [hadopted, hruntime]
  · rwa [hadopted]
  · rw [history_runtime, WebRuntime.installed_append, h.installed, hadopted, List.mem_append,
      WebRuntime.mem_installedBy]
  · rw [history_runtime, hruntime]
    exact WebRuntime.strayIn_append h.strays h.owned hs n
  · rw [destroyed_append, h.destroyed, destroyed_runtime]
    rfl

theorem Progress.congr {phase : Phase} (h : Progress s before tracked objects phase)
    (hadopted : s'.adopted = s.adopted) (hbridge : s.bridge.alive = false → s'.bridge = s.bridge) :
    Progress s' before tracked objects phase := by
  cases phase with
  | running | views rest => exact h
  | node =>
      obtain ⟨hdead, he⟩ := h
      have hb := hbridge hdead
      unfold Progress Container.bridgeObjects at *
      rw [hb]
      exact ⟨hdead, he⟩
  | children rest | gone =>
      obtain ⟨hdead, he⟩ := h
      have hb := hbridge hdead
      unfold Progress teardown Container.bridgeObjects at *
      rw [hb, hadopted]
      exact ⟨hdead, he⟩

/-- A step that destroys nothing and that is none of the module views'. -/
theorem Stage.quiet {engine : Bool} {t : Machine.Taken Container Action Obs}
    (h : Stage engine log s) (hlabel : ∀ a, t.label ≠ .runtime a)
    (hos : destroyed [t] = []) (hruntime : s'.runtime = s.runtime)
    (hadopted : s'.adopted = s.adopted) (hphase : s'.phase = s.phase)
    (hbridge : s.bridge.alive = false → s'.bridge = s.bridge) :
    Stage engine (log ++ [t]) s' := by
  have hlog : history (log ++ [t]) = history log := history_other hlabel
  have hdestroyed : destroyed (log ++ [t]) = destroyed log := by
    rw [destroyed_append, hos, List.append_nil]
  unfold Stage
  rw [hphase, hdestroyed, hruntime, hadopted]
  obtain ⟨hp, hrun⟩ | ⟨before, tracked, hsnap, hfaded, hprogress⟩ := h
  · refine .inl ⟨hp, ?_, ?_, ?_, ?_, ?_, ?_⟩
    · rw [hlog, hruntime]
      exact hrun.run
    · rw [hadopted, hruntime]
      exact hrun.owned
    · rw [hadopted]
      exact hrun.nodup
    · rw [hlog, hadopted]
      exact hrun.installed
    · rw [hlog, hruntime]
      exact hrun.strays
    · rw [hdestroyed]
      exact hrun.destroyed
  · exact .inr ⟨before, tracked, hsnap.snoc hlabel, hfaded, hprogress.congr hadopted hbridge⟩

theorem flatMap_viewOf (order : List String) (s : Container) :
    order.flatMap s.viewOf =
      (order.filterMap fun name => s.runtime.views.lookup name).flatMap pair := by
  induction order with
  | nil => rfl
  | cons name order ih =>
      rw [List.flatMap_cons, ih, List.filterMap_cons, Container.viewOf]
      cases s.runtime.views.lookup name with
      | none => rfl
      | some n => rfl

/-- The destructor is called. -/
theorem Running.destroy {engine : Bool} {order : List String} (h : Running engine log s)
    (hstack : s.runtime.stack = []) (horder : order.Perm s.runtime.views.keys) :
    Snapshot engine (log ++ [⟨s, .destroy order, [], s'⟩]) s.adopted s.runtime
        (order.filterMap fun name => s.runtime.views.lookup name) ∧
      order.flatMap s.viewOf =
        (order.filterMap fun name => s.runtime.views.lookup name).flatMap pair := by
  have hlog : history (log ++ [⟨s, .destroy order, [], s'⟩]) = history log := history_other nofun
  have hdestroyer : ∃ t ∈ log ++ [⟨s, .destroy order, [], s'⟩], ∃ order,
      t.label = .destroy order ∧ t.before.runtime = s.runtime :=
    ⟨_, List.mem_append_right _ (List.mem_singleton.mpr rfl), order, rfl, rfl⟩
  refine ⟨⟨hlog ▸ h.run, hstack, h.owned, h.nodup, hlog ▸ h.installed, hlog ▸ h.strays, hdestroyer,
    ?_, fun n => ?_⟩, ?_⟩
  · refine List.Nodup.filterMap (fun name name' n hn hn' => h.owned.unique _ _ n hn' hn) ?_
    exact horder.nodup_iff.mpr (AList.keys_nodup _)
  · rw [List.mem_filterMap]
    constructor
    · rintro ⟨name, -, hn⟩
      exact ⟨name, hn⟩
    · rintro ⟨name, hn⟩
      have hkey : name ∈ s.runtime.views.keys :=
        AList.mem_keys.mp (AList.lookup_isSome.mp (Option.isSome_of_eq_some hn))
      exact ⟨name, horder.mem_iff.mpr hkey, hn⟩
  · exact flatMap_viewOf order s

/-- A step of the destructor that destroys an object. -/
theorem Snapshot.pop {engine : Bool} (h : Snapshot engine log s.adopted before tracked)
    (hfaded : Faded before (destroyed log) s.runtime) (object : Object) {phase : Phase}
    (hprogress : Progress s before tracked (destroyed log ++ [object]) phase) :
    Stage engine (log ++ [⟨s, .next, [.destroyed object],
      { s.destroyObject object with phase }⟩]) { s.destroyObject object with phase } := by
  obtain ⟨hadopted, hbridge, -⟩ := destroyObject_frame object s
  have hdestroyed : destroyed (log ++ [⟨s, .next, [.destroyed object],
      { s.destroyObject object with phase }⟩]) = destroyed log ++ [object] := by
    rw [destroyed_append]
    rfl
  refine .inr ⟨before, tracked, ?_, ?_, ?_⟩
  · simp only [hadopted]
    exact h.snoc nofun
  · rw [hdestroyed]
    exact hfaded.destroy object
  · rw [hdestroyed]
    exact hprogress.congr hadopted fun _ => hbridge

theorem Stage.next {engine : Bool} {r : Container × List Obs} (h : Stage engine log s)
    (hs : s.next = some r) : Stage engine (log ++ [⟨s, .next, r.2, r.1⟩]) r.1 := by
  unfold Container.next at hs
  obtain ⟨hp, -⟩ | ⟨before, tracked, hsnap, hfaded, hprogress⟩ := h
  · rw [hp] at hs
    cases hs
  · cases hp : s.phase with
    | running | gone =>
        rw [hp] at hs
        cases hs
    | views rest =>
        rw [hp] at hs hprogress
        cases rest with
        | cons object rest =>
            obtain rfl := Option.some.inj hs
            have hrest : destroyed log ++ [object] ++ rest = tracked.flatMap pair :=
              (List.append_assoc ..).trans hprogress
            exact hsnap.pop hfaded object hrest
        | nil =>
            obtain rfl := Option.some.inj hs
            have hgone : destroyed log = tracked.flatMap pair := (List.append_nil _).symm.trans hprogress
            refine .inr ⟨before, tracked, hsnap.snoc nofun, ?_, rfl, ?_⟩
            · rw [destroyed_append, destroyed_map]
              have hothers := hfaded.others (fun n => (notMem_bridgeObjects n s).1)
                fun n => (notMem_bridgeObjects n s).2
              exact ⟨hothers.view, hothers.context⟩
            · rw [destroyed_append, destroyed_map, hgone]
              rfl
    | node =>
        rw [hp] at hs hprogress
        obtain rfl := Option.some.inj hs
        obtain ⟨hdead, hgone⟩ := hprogress
        have hdestroyed : ∀ s', destroyed (log ++ [⟨s, .next, [.destroyed .node], s'⟩]) =
            destroyed log ++ [.node] := fun s' => by
          rw [destroyed_append]
          rfl
        refine .inr ⟨before, tracked, hsnap.snoc nofun, ?_, hdead, ?_⟩
        · rw [hdestroyed]
          exact hfaded.others nofun nofun
        · rw [hdestroyed, hgone, hsnap.children (hgone ▸ hfaded)]
          simp [teardown, Container.bridgeObjects]
    | children rest =>
        rw [hp] at hs hprogress
        obtain ⟨hdead, hgone⟩ := hprogress
        cases rest with
        | cons object rest =>
            obtain rfl := Option.some.inj hs
            refine hsnap.pop hfaded object ⟨hdead, ?_⟩
            rw [List.append_assoc]
            exact hgone
        | nil =>
            obtain rfl := Option.some.inj hs
            refine .inr ⟨before, tracked, hsnap.snoc nofun, ?_, hdead, ?_⟩
            · rw [destroyed_append]
              simpa [destroyed] using hfaded
            · rw [destroyed_append]
              exact hgone

theorem destroyed_connect (portName : String) (connected : Bool) (t t' : Container) (a : Action) :
    destroyed [⟨t, a, (s.connectToBackend portName connected).2, t'⟩] = [] := by
  unfold Container.connectToBackend
  split
  · rfl
  · split <;> rfl

theorem connectToBackend_frame (portName : String) (connected : Bool) (s : Container) :
    (s.connectToBackend portName connected).1.runtime = s.runtime ∧
      (s.connectToBackend portName connected).1.adopted = s.adopted ∧
      (s.connectToBackend portName connected).1.phase = s.phase ∧
      (s.connectToBackend portName connected).1.bridge = s.bridge := by
  unfold Container.connectToBackend
  split
  · exact ⟨rfl, rfl, rfl, rfl⟩
  · split <;> exact ⟨rfl, rfl, rfl, rfl⟩

theorem Stage.step {engine : Bool} {a : Action} {r : Container × List Obs}
    (h : Stage engine log s) (hs : step s a = some r) :
    Stage engine (log ++ [⟨s, a, r.2, r.1⟩]) r.1 := by
  cases a with
  | runtime a =>
      obtain ⟨hp, hs⟩ := Option.ite_none_right_eq_some.mp hs
      obtain ⟨done, hdone, rfl⟩ := Option.map_eq_some_iff.mp hs
      obtain ⟨-, hrun⟩ | ⟨before, tracked, -, -, hprogress⟩ := h
      · exact .inl ⟨hp, hrun.runtime hdone rfl rfl⟩
      · rw [hp] at hprogress
        cases hprogress
  | bridge a =>
      obtain ⟨-, hs⟩ := Option.ite_none_left_eq_some.mp hs
      obtain ⟨done, hdone, rfl⟩ := Option.map_eq_some_iff.mp hs
      refine h.quiet nofun (destroyed_bridge ..) rfl rfl rfl fun hdead => ?_
      simp [WebViews.step, hdead] at hdone
  | connectToBackend portName connected =>
      obtain ⟨-, hs⟩ := Option.ite_none_right_eq_some.mp hs
      obtain rfl := Option.some.inj hs
      obtain ⟨hruntime, hadopted, hphase, hbridge⟩ := connectToBackend_frame portName connected s
      exact h.quiet nofun (destroyed_connect ..) hruntime hadopted hphase fun _ => hbridge
  | destroy order =>
      obtain ⟨⟨hp, hstack, horder⟩, hs⟩ := Option.ite_none_right_eq_some.mp hs
      obtain rfl := Option.some.inj hs
      obtain ⟨-, hrun⟩ | ⟨before, tracked, -, -, hprogress⟩ := h
      · obtain ⟨hsnap, hviews⟩ := hrun.destroy hstack horder
        have hnone : ∀ s', destroyed (log ++ [⟨s, .destroy order, [], s'⟩]) = [] := fun s' => by
          rw [destroyed_append, hrun.destroyed]
          rfl
        refine .inr ⟨_, _, hsnap, ?_, ?_⟩
        · rw [hnone]
          exact Faded.refl _
        · rw [hnone]
          exact hviews
      · rw [hp] at hprogress
        cases hprogress
  | next => exact h.next hs

theorem Stage.initial (engine : Bool) : Stage engine [] (machine engine).init := by
  refine .inl ⟨rfl, .start, WebRuntime.OwnedIn.congr (WebRuntime.OwnedIn.initial engine) ?_,
    List.nodup_nil, fun n => ?_, WebRuntime.strayIn_initial engine, rfl⟩
  · exact fun n => iff_of_false nofun id
  · exact iff_of_false (fun ⟨_, hm, _⟩ => nomatch hm) nofun

end LogosViewRuntime.WebContainer
