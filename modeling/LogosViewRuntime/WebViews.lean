import LogosViewRuntime.ViewModules

/-! # View modules of `LogosWebBridge`

The replicas of one web bridge and the views that take their backend from it.

* **Replicas** are numbered as they are acquired; the replica of the call router is one of them.
  A replica in `m_replicas` is never dropped, so `captured`, the name in the slot on its
  `stateChanged`, is the name it was acquired for.
* **Views** follow the idiom that `module` asks of them: a view connects to
  `viewModuleReadyChanged`, then calls `module` (unless it leaves that out), and takes its backend
  from `module` whenever the signal says that its module is ready.
* **Foreign code.**  What `acquireDynamic` comes to is on the label: null, or a replica in some
  state, `valid` where the node knows the source already. -/

namespace LogosViewRuntime.WebViews

open Reactive
open ViewModules (State)

/-- `asked` says whether the view called `module` when it was completed. -/
structure View where
  moduleName : String
  asked : Bool
  backend : Option ℕ := none
deriving DecidableEq, Repr

structure Bridge where
  /-- `m_node` -/
  node : Bool
  alive : Bool := true
  replicas : QHash String ℕ := ∅
  router : Option ℕ := none
  created : ℕ := 0
  state : ℕ → State := fun _ => .uninitialized
  captured : ℕ → Option String := fun _ => none
  views : List View := []

inductive Obs where
  | viewModuleReadyChanged (moduleName : String) (ready now : Bool)
  | module (moduleName : String) (result : Option ℕ)
deriving DecidableEq, Repr

namespace Bridge

/-- `acquireDynamic`, and whom the replica tells about its states. -/
def acquireDynamic (captured : Option String) (state : State) (s : Bridge) : Bridge :=
  { s with
    created := s.created + 1
    state := Function.update s.state s.created state
    captured := Function.update s.captured s.created captured }

def replicaFor (moduleName : String) (acquired : Option State) (s : Bridge) : Bridge × Option ℕ :=
  match s.replicas.lookup moduleName with
  | some d => (s, some d)
  | none =>
      if !s.node then (s, none)
      else
        match acquired with
        | none => (s, none)
        | some state =>
            ({ s.acquireDynamic (some moduleName) state with
              replicas := s.replicas.insert moduleName s.created }, some s.created)

def isValid (d : ℕ) (s : Bridge) : Bool := s.state d = .valid

def module (moduleName : String) (acquired : Option State) (s : Bridge) : Bridge × Option ℕ :=
  let found := s.replicaFor moduleName acquired
  (found.1, found.2.filter found.1.isValid)

def isViewModuleReady (moduleName : String) (s : Bridge) : Bool :=
  (s.replicas.lookup moduleName).any s.isValid

/-- The slot of a view; what is ready has been acquired, so `module` acquires nothing here. -/
def hear (moduleName : String) (ready : Bool) (s : Bridge) (view : View) : View :=
  if view.moduleName = moduleName ∧ ready = true then
    { view with backend := (s.module moduleName none).2 }
  else view

/-- `emit viewModuleReadyChanged`, with the slots of the views. -/
def emitReady (moduleName : String) (ready : Bool) (s : Bridge) : Bridge × List Obs :=
  ({ s with views := s.views.map (s.hear moduleName ready) },
    .viewModuleReadyChanged moduleName ready (s.isViewModuleReady moduleName) ::
      (s.views.filter fun view => view.moduleName = moduleName ∧ ready = true).map fun view =>
        .module view.moduleName (s.module view.moduleName none).2)

/-- The slot on `stateChanged`. -/
def stateChanged (d : ℕ) (state : State) (s : Bridge) : Bridge × List Obs :=
  let s := { s with state := Function.update s.state d state }
  match s.captured d with
  | none => (s, [])
  | some moduleName => s.emitReady moduleName (state = .valid)

/-- `replayViewModuleState`, over the map in some order. -/
def replayViewModuleState (s : Bridge) : List String → Bridge × List Obs
  | [] => (s, [])
  | moduleName :: order =>
      if s.isViewModuleReady moduleName then
        let told := s.emitReady moduleName true
        let done := told.1.replayViewModuleState order
        (done.1, told.2 ++ done.2)
      else s.replayViewModuleState order

/-- `ensureRouter`, as far as it acquires a replica. -/
def ensureRouter (acquired : Option State) (s : Bridge) : Bridge :=
  if s.router.isSome || !s.node then s
  else
    match acquired with
    | none => s
    | some state => { s.acquireDynamic none state with router := some s.created }

/-- A view is completed. -/
def mount (moduleName : String) (asked : Bool) (acquired : Option State) (s : Bridge) :
    Bridge × List Obs :=
  if asked then
    let answer := s.module moduleName acquired
    ({ answer.1 with
        views := answer.1.views ++ [{ moduleName, asked, backend := answer.2 }] },
      [.module moduleName answer.2])
  else ({ s with views := s.views ++ [{ moduleName, asked }] }, [])

end Bridge

inductive Action where
  | module (moduleName : String) (acquired : Option State)
  | ensureRouter (acquired : Option State)
  | stateChanged (d : ℕ) (state : State)
  | replayViewModuleState (order : List String)
  | mount (moduleName : String) (asked : Bool) (acquired : Option State)
  | unmount (i : ℕ)
  | destroy
deriving DecidableEq, Repr

def step (s : Bridge) (a : Action) : Option (Bridge × List Obs) :=
  if !s.alive then none
  else
    match a with
    | .module moduleName acquired =>
        let answer := s.module moduleName acquired
        some (answer.1, [.module moduleName answer.2])
    | .ensureRouter acquired => some (s.ensureRouter acquired, [])
    | .stateChanged d state =>
        if d < s.created ∧ s.state d ≠ state then some (s.stateChanged d state) else none
    | .replayViewModuleState order =>
        if order.Perm s.replicas.keys then some (s.replayViewModuleState order) else none
    | .mount moduleName asked acquired => some (s.mount moduleName asked acquired)
    | .unmount i => some ({ s with views := s.views.eraseIdx i }, [])
    | .destroy => some ({ s with alive := false }, [])

def machine (node : Bool) : Machine Bridge Action Obs where
  init := { node }
  step := step

end LogosViewRuntime.WebViews
