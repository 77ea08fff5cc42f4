import LogosViewRuntime.Lib.Machine
import LogosViewRuntime.Variant
import Mathlib.Data.List.Sort
import Mathlib.Logic.Function.Basic

/-! # View modules of `LogosQmlBridge`

The desktop bridge's caches for view modules and the `QObject`s behind them.

* **Objects** are numbered as they are created.  `children` are the bridge's children in the order
  in which they were added, `queue` the objects whose deletion is deferred, oldest first.
* **Caches.**  The maps that hold objects are one map, `cache`; its `Slot`s say which of
  `m_replicaNodes`, `m_factoryLoaders`, `m_replicas` and `m_modelReplicas` an entry is in.  A
  factory is a part of the plugin that was loaded, so it goes by the number of its loader.
* **Foreign code.**  What loading a plugin, `factory->acquire` and `acquireModel` come to is on the
  label.  A replica that is no `QRemoteObjectReplica` has no state.
* `viewModuleReadyChanged` is observed together with what `isViewModuleReady` answers while it is
  emitted. -/

namespace LogosViewRuntime.ViewModules

/-- `QRemoteObjectReplica::State`. -/
inductive State where
  | uninitialized
  | default
  | valid
  | suspect
  | signatureMismatch
deriving DecidableEq, Repr

inductive Slot where
  | replicaNode (module : String)
  | factoryLoader (module : String)
  | replica (module : String)
  | modelReplica (key : String)
deriving DecidableEq, Repr

/-- `node` is the node a replica was acquired from. -/
inductive Object where
  | node (module socket : String)
  | loader (module path : String)
  | replica (module : String) (node factory : ℕ) (state : Option State)
  | modelReplica (key : String) (node : ℕ)
deriving DecidableEq, Repr

def Object.slot : Object → Slot
  | .node module _ => .replicaNode module
  | .loader module _ => .factoryLoader module
  | .replica module _ _ _ => .replica module
  | .modelReplica key _ => .modelReplica key

/-- `acquireModel` returns an object without a parent. -/
def Object.isChild : Object → Bool
  | .modelReplica _ _ => false
  | _ => true

/-- What becomes of a plugin: its file is missing, it does not load, it is no factory, it is. -/
inductive Load where
  | notFound
  | noInstance
  | noFactory
  | factory
deriving DecidableEq, Repr

structure Bridge where
  alive : Bool := true
  viewModuleSockets : QHash String String := ∅
  replicaPluginPaths : QHash String String := ∅
  factories : QHash String ℕ := ∅
  cache : QHash Slot ℕ := ∅
  objects : ℕ → Option Object := fun _ => none
  created : ℕ := 0
  children : List ℕ := []
  queue : List ℕ := []

inductive Obs where
  | acquired (d node : ℕ)
  | destroyed (d : ℕ)
  | viewModuleReadyChanged (module : String) (ready now : Bool)
  | viewModuleCrashed (module : String)
  | module (module : String) (result : Option ℕ)
  | model (module model : String) (result : Option ℕ)
deriving DecidableEq, Repr

def modelKey (module model : String) : String := module ++ "/" ++ model

def startsWith (start key : String) : Bool := start.toList.isPrefixOf key.toList

namespace Bridge

/-! ### Objects -/

def create (object : Object) (s : Bridge) : Bridge :=
  { s with
    objects := Function.update s.objects s.created (some object)
    created := s.created + 1
    children := if object.isChild then s.children ++ [s.created] else s.children }

/-- Create an object and cache it. -/
def store (object : Object) (s : Bridge) : Bridge :=
  { s.create object with cache := s.cache.insert object.slot s.created }

def deleteLater (d : ℕ) (s : Bridge) : Bridge := { s with queue := s.queue ++ [d] }

/-- Drop the entry of a slot, if there is one. -/
def release (slot : Slot) (s : Bridge) : Bridge :=
  match s.cache.lookup slot with
  | none => s
  | some d => { s with cache := s.cache.erase slot }.deleteLater d

def destroyObject (d : ℕ) (s : Bridge) : Bridge × List Obs :=
  match s.objects d with
  | none => (s, [])
  | some _ =>
      ({ s with objects := Function.update s.objects d none, children := s.children.erase d },
        [.destroyed d])

/-! ### Readiness -/

/-- The replica `d` is a `QRemoteObjectReplica` and valid. -/
def isValid (d : ℕ) (s : Bridge) : Bool :=
  match s.objects d with
  | some (.replica _ _ _ (some .valid)) => true
  | _ => false

def isViewModuleReady (module : String) (s : Bridge) : Bool :=
  (s.cache.lookup (.replica module)).any s.isValid

def readyChanged (module : String) (ready : Bool) (s : Bridge) : Obs :=
  .viewModuleReadyChanged module ready (s.isViewModuleReady module)

/-- The modules of `m_replicas` in the map's order. -/
def replicaModules (s : Bridge) : List String :=
  (s.cache.keys.filterMap fun | .replica module => some module | _ => none).insertionSort (· ≤ ·)

def replayViewModuleState (s : Bridge) : List Obs :=
  (s.replicaModules.filter s.isViewModuleReady).map fun module => s.readyChanged module true

/-! ### Dropping -/

def modelKeys (s : Bridge) : List String :=
  (s.cache.keys.filterMap fun | .modelReplica key => some key | _ => none).insertionSort (· ≤ ·)

def dropModels (start : String) (s : Bridge) : Bridge :=
  (s.modelKeys.filter (startsWith start)).foldl (fun s key => s.release (.modelReplica key)) s

def dropFactory (module : String) (s : Bridge) : Bridge :=
  { s with factories := s.factories.erase module }.release (.factoryLoader module)

def dropViewModuleCaches (module : String) (s : Bridge) : Bridge :=
  let s := s.release (.replica module)
  let s := s.dropModels (module ++ "/")
  let s := s.dropFactory module
  s.release (.replicaNode module)

/-! ### Loading and acquiring -/

def loadFactory (module : String) (load : Load) (s : Bridge) : Bridge × Option ℕ :=
  match s.factories.lookup module with
  | some factory => (s, some factory)
  | none =>
      match s.replicaPluginPaths.lookup module with
      | none => (s, none)
      | some path =>
          if path = "" then (s, none)
          else
            match load with
            | .notFound => (s, none)
            | .noInstance | .noFactory => ((s.create (.loader module path)).deleteLater s.created, none)
            | .factory =>
                ({ s.store (.loader module path) with
                  factories := s.factories.insert module s.created }, some s.created)

def getOrCreateNode (module : String) (s : Bridge) : Bridge × Option ℕ :=
  match s.cache.lookup (.replicaNode module) with
  | some node => (s, some node)
  | none =>
      match s.viewModuleSockets.lookup module with
      | none => (s, none)
      | some socket => (s.store (.node module socket), some s.created)

/-- `acquired` is what `factory->acquire` returns, with the state the new replica is in. -/
def module (moduleName : String) (load : Load) (acquired : Option (Option State)) (s : Bridge) :
    Bridge × List Obs :=
  match s.cache.lookup (.replica moduleName) with
  | some d => (s, [.module moduleName (some d)])
  | none =>
      match s.loadFactory moduleName load with
      | (s, none) => (s, [.module moduleName none])
      | (s, some factory) =>
          match s.getOrCreateNode moduleName with
          | (s, none) => (s, [.module moduleName none])
          | (s, some node) =>
              match acquired with
              | none => (s, [.module moduleName none])
              | some state =>
                  let d := s.created
                  let s := s.store (.replica moduleName node factory state)
                  (s, .acquired d node ::
                    (if state = some .valid then [s.readyChanged moduleName true] else []) ++
                      [.module moduleName (some d)])

/-- `acquired` says whether `acquireModel` returns a model. -/
def model (moduleName modelName : String) (acquired : Bool) (s : Bridge) : Bridge × List Obs :=
  let key := modelKey moduleName modelName
  match s.cache.lookup (.modelReplica key) with
  | some d => (s, [.model moduleName modelName (some d)])
  | none =>
      match s.getOrCreateNode moduleName with
      | (s, none) => (s, [.model moduleName modelName none])
      | (s, some node) =>
          if !acquired then (s, [.model moduleName modelName none])
          else
            (s.store (.modelReplica key node),
              [.acquired s.created node, .model moduleName modelName (some s.created)])

/-! ### The host's side -/

def setViewModuleSocket (module socket : String) (s : Bridge) : Bridge :=
  if s.viewModuleSockets.lookup module = some socket then s
  else
    let s := s.dropViewModuleCaches module
    { s with viewModuleSockets := s.viewModuleSockets.insert module socket }

def setViewReplicaPlugin (module path : String) (load : Load) (s : Bridge) : Bridge :=
  if s.replicaPluginPaths.lookup module = some path then s
  else
    let s := (s.release (.replica module)).dropFactory module
    let s := { s with replicaPluginPaths := s.replicaPluginPaths.insert module path }
    (s.loadFactory module load).1

def notifyViewModuleCrashed (module : String) (s : Bridge) : Bridge × List Obs :=
  let s := s.dropViewModuleCaches module
  (s, [s.readyChanged module false, .viewModuleCrashed module])

/-! ### Qt's side -/

/-- A replica of `module` changes its state; the bridge hears it until the replica is deleted. -/
def stateChanged (d : ℕ) (module : String) (node factory : ℕ) (state : State) (s : Bridge) :
    Bridge × List Obs :=
  let s := { s with
    objects := Function.update s.objects d (some (.replica module node factory (some state))) }
  (s, if s.alive then [s.readyChanged module (state = .valid)] else [])

/-- The oldest deferred deletion, if there is one. -/
def turn (s : Bridge) : Bridge × List Obs :=
  match s.queue with
  | [] => (s, [])
  | d :: queue => { s with queue }.destroyObject d

/-- `~QObject` deletes the children in the order in which they were added. -/
def deleteChildren : List ℕ → Bridge → Bridge × List Obs
  | [], s => (s, [])
  | d :: children, s =>
      let done := s.destroyObject d
      let rest := deleteChildren children done.1
      (rest.1, done.2 ++ rest.2)

def destroy (s : Bridge) : Bridge × List Obs :=
  { s with alive := false }.deleteChildren s.children

end Bridge

inductive Action where
  | module (module : String) (load : Load) (acquired : Option (Option State))
  | model (module model : String) (acquired : Bool)
  | replayViewModuleState
  | setViewModuleSocket (module socket : String)
  | setViewReplicaPlugin (module path : String) (load : Load)
  | notifyViewModuleCrashed (module : String)
  | stateChanged (d : ℕ) (state : State)
  | turn
  | destroy

/-- Once the bridge is destroyed there is only Qt. -/
def step (s : Bridge) : Action → Option (Bridge × List Obs)
  | .module module load acquired => if s.alive then some (s.module module load acquired) else none
  | .model module model acquired => if s.alive then some (s.model module model acquired) else none
  | .replayViewModuleState => if s.alive then some (s, s.replayViewModuleState) else none
  | .setViewModuleSocket module socket =>
      if s.alive then some (s.setViewModuleSocket module socket, []) else none
  | .setViewReplicaPlugin module path load =>
      if s.alive then some (s.setViewReplicaPlugin module path load, []) else none
  | .notifyViewModuleCrashed module =>
      if s.alive then some (s.notifyViewModuleCrashed module) else none
  | .stateChanged d state =>
      match s.objects d with
      | some (.replica module node factory (some old)) =>
          if old = state then none else some (s.stateChanged d module node factory state)
      | _ => none
  | .turn => some s.turn
  | .destroy => if s.alive then some s.destroy else none

/-- What each of the steps comes to. -/
inductive Steps (s : Bridge) : Action → Bridge → List Obs → Prop
  | module (m : String) (load : Load) (acquired : Option (Option State)) : s.alive = true →
      Steps s (.module m load acquired) (s.module m load acquired).1 (s.module m load acquired).2
  | model (m x : String) (acquired : Bool) : s.alive = true →
      Steps s (.model m x acquired) (s.model m x acquired).1 (s.model m x acquired).2
  | replayViewModuleState : s.alive = true →
      Steps s .replayViewModuleState s s.replayViewModuleState
  | setViewModuleSocket (m socket : String) : s.alive = true →
      Steps s (.setViewModuleSocket m socket) (s.setViewModuleSocket m socket) []
  | setViewReplicaPlugin (m path : String) (load : Load) : s.alive = true →
      Steps s (.setViewReplicaPlugin m path load) (s.setViewReplicaPlugin m path load) []
  | notifyViewModuleCrashed (m : String) : s.alive = true →
      Steps s (.notifyViewModuleCrashed m) (s.notifyViewModuleCrashed m).1
        (s.notifyViewModuleCrashed m).2
  | stateChanged (d : ℕ) (state : State) (m : String) (node factory : ℕ) (old : State) :
      s.objects d = some (.replica m node factory (some old)) → old ≠ state →
      Steps s (.stateChanged d state) (s.stateChanged d m node factory state).1
        (s.stateChanged d m node factory state).2
  | turn : Steps s .turn s.turn.1 s.turn.2
  | destroy : s.alive = true → Steps s .destroy s.destroy.1 s.destroy.2

theorem step_cases {s s' : Bridge} {a : Action} {os : List Obs}
    (hs : step s a = some (s', os)) : Steps s a s' os := by
  cases a with
  | module m load acquired =>
      obtain ⟨halive, rfl, rfl⟩ := Reactive.Machine.taken_if hs
      exact .module m load acquired halive
  | model m x acquired =>
      obtain ⟨halive, rfl, rfl⟩ := Reactive.Machine.taken_if hs
      exact .model m x acquired halive
  | replayViewModuleState =>
      obtain ⟨halive, rfl, rfl⟩ := Reactive.Machine.taken_if hs
      exact .replayViewModuleState halive
  | setViewModuleSocket m socket =>
      obtain ⟨halive, rfl, rfl⟩ := Reactive.Machine.taken_if hs
      exact .setViewModuleSocket m socket halive
  | setViewReplicaPlugin m path load =>
      obtain ⟨halive, rfl, rfl⟩ := Reactive.Machine.taken_if hs
      exact .setViewReplicaPlugin m path load halive
  | notifyViewModuleCrashed m =>
      obtain ⟨halive, rfl, rfl⟩ := Reactive.Machine.taken_if hs
      exact .notifyViewModuleCrashed m halive
  | stateChanged d state =>
      simp only [step] at hs
      split at hs
      · rename_i m node factory old hobject
        obtain ⟨hne, rfl, rfl⟩ := Reactive.Machine.taken_unless hs
        exact .stateChanged d state m node factory old hobject hne
      · cases hs
  | turn =>
      obtain ⟨rfl, rfl⟩ := Prod.mk.inj (Option.some.inj hs)
      exact .turn
  | destroy =>
      obtain ⟨halive, rfl, rfl⟩ := Reactive.Machine.taken_if hs
      exact .destroy halive

/-- A new bridge. -/
def machine : Reactive.Machine Bridge Action Obs where
  init := {}
  step := step

end LogosViewRuntime.ViewModules
