import LogosViewRuntime.Lib.Machine
import LogosViewRuntime.Variant
import Mathlib.Logic.Function.Basic

/-! # The module views of `LogosWebRuntime`

`installModuleView` and `removeModuleView` run QML that is not theirs: while a document is created,
while a view is destroyed, and in the slots on the three signals.  That code may call them again, so
a call is a stack of frames, one for each place in which foreign code is running, and a frame goes
on when the code in it returns.

The `n`-th installation that gets as far as a context gives its number to the context and to the
view that is created in it.  Views are destroyed by `destroyView` only: QML may not destroy an
object that is owned by C++. -/

namespace LogosViewRuntime.WebRuntime

/-- Where foreign code runs.  A removal that is part of an installation knows which. -/
inductive Frame where
  /-- `component.create` -/
  | creating (moduleName : String) (n : ℕ)
  /-- `delete view`, with the context still to be deleted -/
  | destroying (n : ℕ) (install : Option (String × ℕ))
  /-- `installedModulesChanged` of a removal -/
  | removed (install : Option (String × ℕ))
  /-- `moduleViewInstalled` -/
  | installed (n : ℕ)
  /-- `installedModulesChanged` of an installation -/
  | changed (n : ℕ)
  /-- `moduleViewFailed`, with the context that goes when the call returns -/
  | failed (context : Option ℕ)
deriving DecidableEq, Repr

structure Runtime where
  /-- `m_engine` -/
  engine : Bool
  views : QHash String ℕ := ∅
  order : List String := []
  lastError : String := ""
  created : ℕ := 0
  viewAlive : ℕ → Bool := fun _ => false
  contextAlive : ℕ → Bool := fun _ => false
  stack : List Frame := []

inductive Obs where
  | moduleViewInstalled (moduleName : String) (n : ℕ)
  | moduleViewFailed (moduleName error : String)
  | installedModulesChanged
  | installReturned (view : Option ℕ)
  | removeReturned (removed : Bool)
deriving DecidableEq, Repr

namespace Runtime

def push (frame : Frame) (s : Runtime) : Runtime := { s with stack := frame :: s.stack }

/-- The lambda `fail`. -/
def fail (moduleName error : String) (context : Option ℕ) (s : Runtime) : Runtime × List Obs :=
  ({ s with lastError := error }.push (.failed context), [.moduleViewFailed moduleName error])

/-- `installModuleView` up to `component.create`; `compileError` is what the component says of the
document when it is in error. -/
def installModuleView (moduleName : String) (compileError : Option String) (s : Runtime) :
    Runtime × List Obs :=
  if moduleName = "" then s.fail moduleName "a module view needs a module name" none
  else if !s.engine then s.fail moduleName "the runtime has no QML engine" none
  else
    match compileError with
    | some error => s.fail moduleName error none
    | none =>
        ({ s with
            created := s.created + 1
            contextAlive := Function.update s.contextAlive s.created true }.push
          (.creating moduleName s.created), [])

/-- The end of an installation, from the adoption of the view to `moduleViewInstalled`. -/
def adopt (moduleName : String) (n : ℕ) (s : Runtime) : Runtime × List Obs :=
  ({ s with
      views := s.views.insert moduleName n
      order := s.order ++ [moduleName]
      lastError := "" }.push (.installed n), [.moduleViewInstalled moduleName n])

/-- What comes after a removal. -/
def afterRemoval (removed : Bool) (install : Option (String × ℕ)) (s : Runtime) :
    Runtime × List Obs :=
  match install with
  | none => (s, [.removeReturned removed])
  | some (moduleName, n) => s.adopt moduleName n

/-- `removeModuleView`, on its own or in an installation. -/
def removeModuleView (moduleName : String) (install : Option (String × ℕ)) (s : Runtime) :
    Runtime × List Obs :=
  match s.views.lookup moduleName with
  | none => s.afterRemoval false install
  | some n =>
      ({ s with
          views := s.views.erase moduleName
          order := s.order.filter (· ≠ moduleName) }.push (.destroying n install), [])

/-- `component.create` returns an object. -/
def create (moduleName : String) (n : ℕ) (s : Runtime) : Runtime × List Obs :=
  { s with viewAlive := Function.update s.viewAlive n true }.removeModuleView moduleName
    (some (moduleName, n))

/-- `component.create` returns null. -/
def createFailed (moduleName : String) (n : ℕ) (error : String) (s : Runtime) :
    Runtime × List Obs :=
  s.fail moduleName (if error = "" then "the module's QML created no object" else error) (some n)

/-- The foreign code in a frame other than `creating` returns. -/
def resume (s : Runtime) : Frame → Option (Runtime × List Obs)
  | .creating _ _ => none
  | .destroying n install =>
      some ({ s with
        viewAlive := Function.update s.viewAlive n false
        contextAlive := Function.update s.contextAlive n false }.push (.removed install),
        [.installedModulesChanged])
  | .removed install => some (s.afterRemoval true install)
  | .installed n => some (s.push (.changed n), [.installedModulesChanged])
  | .changed n => some (s, [.installReturned (some n)])
  | .failed context =>
      some ({ s with
        contextAlive := fun n => if context = some n then false else s.contextAlive n },
        [.installReturned none])

/-- `installedModules()`. -/
def installedModules (s : Runtime) : List String := s.order

end Runtime

inductive Action where
  | installModuleView (moduleName : String) (compileError : Option String)
  | removeModuleView (moduleName : String)
  | created
  | createFailed (error : String)
  | returned

/-- A call comes from outside or from the code in the top frame. -/
def step (s : Runtime) : Action → Option (Runtime × List Obs)
  | .installModuleView moduleName compileError =>
      some (s.installModuleView moduleName compileError)
  | .removeModuleView moduleName => some (s.removeModuleView moduleName none)
  | .created =>
      match s.stack with
      | .creating moduleName n :: stack => some ({ s with stack }.create moduleName n)
      | _ => none
  | .createFailed error =>
      match s.stack with
      | .creating moduleName n :: stack => some ({ s with stack }.createFailed moduleName n error)
      | _ => none
  | .returned =>
      match s.stack with
      | frame :: stack => { s with stack }.resume frame
      | [] => none

def machine (engine : Bool) : Reactive.Machine Runtime Action Obs where
  init := { engine }
  step := step

end LogosViewRuntime.WebRuntime
