import LogosViewRuntime.WebInstall

/-! # What a caller is told

A page installs and removes views through calls whose slots and documents may make calls of their
own, and gets back whether the call returned a view.  Whatever runs inside, each call says exactly
one of a few things, and it returns null if and only if what it said is that it failed
(`calls_say_what_they_did`).  The shell and `lastError` report the same failure, the last one that
no installation has followed. -/

namespace LogosViewRuntime.WebRuntime

open Reactive

variable {s s' : Runtime} {n : ℕ} {moduleName : String} {frame : Frame} {base : List Frame}
  {tr os : List Obs}

/-! ### The property -/

/-- The steps until the stack is `base` again for the first time. -/
inductive Until (base : List Frame) : Runtime → History → Runtime → Prop where
  | returned {s : Runtime} (hs : s.stack = base) : Until base s [] s
  | step {s s' s'' : Runtime} {a : Action} {os : List Obs} {h : History} (hne : s.stack ≠ base)
      (hs : WebRuntime.step s a = some (s', os)) (hrest : Until base s' h s'') :
      Until base s (⟨s, a, os, s'⟩ :: h) s''

/-- What the call on `base` says itself: its frame is the top one, and nothing is being called. -/
def own (base : List Frame) (h : History) : List Obs := h.flatMap fun m =>
  if m.before.stack.length = base.length + 1 ∧ isCall m.label = false then m.os else []

/-- The end of an installation. -/
def announce (moduleName : String) (n : ℕ) : List Obs :=
  [.moduleViewInstalled moduleName n, .installedModulesChanged, .installReturned (some n)]

/-- What an installation says: that it failed, or that its view was installed, after the removal of
the view it replaces, if there is one. -/
inductive InstallSays (moduleName : String) (n : ℕ) : List Obs → Prop where
  | failed (error : String) :
      InstallSays moduleName n [.moduleViewFailed moduleName error, .installReturned none]
  | installed : InstallSays moduleName n (announce moduleName n)
  | replaced : InstallSays moduleName n (.installedModulesChanged :: announce moduleName n)

/-- The runtime's shell, as far as it shows what a module view cannot show itself. -/
structure Shell where
  failure : String := ""

def Shell.hear (shell : Shell) : Obs → Shell
  | .moduleViewInstalled _ _ => { shell with failure := "" }
  | .moduleViewFailed moduleName error => { shell with failure := moduleName ++ ": " ++ error }
  | .installedModulesChanged | .installReturned _ | .removeReturned _ => shell

/-- The shell after what it has heard. -/
def heard (tr : List Obs) : Shell := tr.foldl Shell.hear {}

/-- The shell and `lastError` tell of the same failure, or of none. -/
def Tells (tr : List Obs) (s : Runtime) : Prop :=
  (heard tr).failure = "" ∧ s.lastError = "" ∨
    ∃ moduleName, .moduleViewFailed moduleName s.lastError ∈ tr ∧
      (heard tr).failure = moduleName ++ ": " ++ s.lastError

/-! ### What a frame has still to say -/

def Script : Frame → List Obs → Prop
  | .creating moduleName n, os => InstallSays moduleName n os
  | .destroying _ none, os => os = [.installedModulesChanged, .removeReturned true]
  | .destroying _ (some (moduleName, n)), os =>
      os = .installedModulesChanged :: announce moduleName n
  | .removed none, os => os = [.removeReturned true]
  | .removed (some (moduleName, n)), os => os = announce moduleName n
  | .installed n, os => os = [.installedModulesChanged, .installReturned (some n)]
  | .changed n, os => os = [.installReturned (some n)]
  | .failed _, os => os = [.installReturned none]

/-- A call ends with what its frame had to say, or it says a part of that and goes on. -/
inductive Says (frame : Frame) (base : List Frame) (r : Runtime × List Obs) : Prop where
  | last (hstack : r.1.stack = base) (hos : Script frame r.2)
  | more (frame' : Frame) (hstack : r.1.stack = frame' :: base)
      (hos : ∀ os, Script frame' os → Script frame (r.2 ++ os))

theorem says_created (moduleName : String) (n : ℕ) (hstack : s.stack = base) :
    Says (.creating moduleName n) base (s.create moduleName n) := by
  unfold Runtime.create Runtime.removeModuleView
  split
  · refine .more (.installed n) (congrArg _ hstack) ?_
    rintro os rfl
    exact .installed
  · refine .more (.destroying _ (some (moduleName, n))) (congrArg _ hstack) ?_
    rintro os rfl
    exact .replaced

theorem says_resume {r : Runtime × List Obs} (hstack : s.stack = base)
    (hr : s.resume frame = some r) : Says frame base r := by
  cases frame with
  | creating name n => cases hr
  | destroying n install =>
      obtain rfl := Option.some.inj hr
      refine .more (.removed install) (congrArg _ hstack) ?_
      cases install <;> rintro os rfl <;> rfl
  | removed install =>
      obtain rfl := Option.some.inj hr
      cases install with
      | none => exact .last hstack rfl
      | some install =>
          refine .more (.installed install.2) (congrArg _ hstack) ?_
          rintro os rfl
          rfl
  | installed n =>
      obtain rfl := Option.some.inj hr
      refine .more (.changed n) (congrArg _ hstack) ?_
      rintro os rfl
      rfl
  | changed n =>
      obtain rfl := Option.some.inj hr
      exact .last hstack rfl
  | failed context =>
      obtain rfl := Option.some.inj hr
      exact .last hstack rfl

/-- A step of the call on top. -/
theorem says_step {a : Action} {r : Runtime × List Obs} (hs : step s a = some r)
    (ha : isCall a = false) (hstack : s.stack = frame :: base) : Says frame base r := by
  cases step_effect hs with
  | install | remove => cases ha
  | @created name n frames hs' =>
      obtain ⟨rfl, rfl⟩ := List.cons.inj (hstack.symm.trans hs')
      exact says_created name n rfl
  | @createFailed name n frames error hs' =>
      obtain ⟨rfl, rfl⟩ := List.cons.inj (hstack.symm.trans hs')
      refine .more (.failed (some n)) rfl ?_
      rintro os rfl
      exact .failed _
  | returned hs' hr =>
      obtain ⟨rfl, rfl⟩ := List.cons.inj (hstack.symm.trans hs')
      exact says_resume rfl hr

/-- A call leaves what is under it alone. -/
theorem call_step {a : Action} {r : Runtime × List Obs} (hs : step s a = some r)
    (ha : isCall a = true) : ∃ frames, r.1.stack = frames ++ s.stack := by
  cases step_effect hs with
  | install name compileError =>
      unfold Runtime.installModuleView
      split
      · exact ⟨[.failed none], rfl⟩
      · split
        · exact ⟨[.failed none], rfl⟩
        · split
          · exact ⟨[.failed none], rfl⟩
          · exact ⟨[.creating name s.created], rfl⟩
  | remove name =>
      unfold Runtime.removeModuleView
      split
      · exact ⟨[], rfl⟩
      · exact ⟨[.destroying _ none], rfl⟩
  | created | createFailed | returned => cases ha

/-! ### Whole calls -/

@[simp] theorem own_cons (base : List Frame) (m : Machine.Taken Runtime Action Obs) (h : History) :
    own base (m :: h) =
      (if m.before.stack.length = base.length + 1 ∧ isCall m.label = false then m.os else []) ++
        own base h := List.flatMap_cons

theorem Until.own_nil {h : History} (hu : Until base s h s') (hstack : s.stack = base) :
    own base h = [] := by
  cases hu with
  | returned => rfl
  | step hne => exact absurd hstack hne

/-- Until the call in a frame returns it says what its frame had to say, whatever is called while
other code runs in it. -/
theorem Until.script {h : History} (hu : Until base s h s') (frames : List Frame)
    (hstack : s.stack = frames ++ frame :: base) : Script frame (own base h) := by
  induction hu generalizing frames frame with
  | returned hs =>
      have := congrArg List.length (hs.symm.trans hstack)
      simp at this
      omega
  | @step s s' s'' a os h hne hs hrest ih =>
      rw [own_cons]
      cases ha : isCall a with
      | true =>
          obtain ⟨frames', hframes⟩ := call_step hs ha
          rw [if_neg (by simp), List.nil_append]
          apply ih (frames' ++ frames)
          rw [hframes, hstack, List.append_assoc]
      | false =>
          cases frames with
          | nil =>
              have hlength : s.stack.length = base.length + 1 := by rw [hstack]; rfl
              rw [if_pos ⟨hlength, rfl⟩]
              cases says_step hs ha hstack with
              | last hend hos =>
                  rw [hrest.own_nil hend, List.append_nil]
                  exact hos
              | more frame' hnext hos => exact hos _ (ih [] hnext)
          | cons top frames =>
              have hlength : s.stack.length ≠ base.length + 1 := by
                rw [hstack]
                simp
                omega
              rw [if_neg fun hc => hlength hc.1, List.nil_append]
              cases says_step hs ha hstack with
              | last hend => exact ih frames hend
              | more frame' hnext => exact ih (frame' :: frames) hnext

/-- An installation, from its call to its return. -/
theorem install_says {compileError : Option String} {h : History}
    (hs : step s (.installModuleView moduleName compileError) = some (s', os)) {s'' : Runtime}
    (hu : Until s.stack s' h s'') : InstallSays moduleName s.created (os ++ own s.stack h) := by
  obtain he := Option.some.inj hs
  have hfailed : ∀ error, s.fail moduleName error none = (s', os) →
      InstallSays moduleName s.created (os ++ own s.stack h) := by
    intro error hfail
    obtain ⟨rfl, rfl⟩ := Prod.mk.inj hfail
    have hown : Script (.failed none) (own s.stack h) := hu.script [] rfl
    rw [show own s.stack h = [.installReturned none] from hown]
    exact .failed error
  unfold Runtime.installModuleView at he
  split at he
  · exact hfailed _ he
  · split at he
    · exact hfailed _ he
    · split at he
      · exact hfailed _ he
      · obtain ⟨rfl, rfl⟩ := Prod.mk.inj he
        have hown : Script (.creating moduleName s.created) (own s.stack h) := hu.script [] rfl
        exact hown

/-- A removal, from its call to its return. -/
theorem remove_says {h : History} (hs : step s (.removeModuleView moduleName) = some (s', os))
    {s'' : Runtime} (hu : Until s.stack s' h s'') : os ++ own s.stack h =
      if moduleName ∈ s.views then [.installedModulesChanged, .removeReturned true]
      else [.removeReturned false] := by
  obtain he := Option.some.inj hs
  unfold Runtime.removeModuleView at he
  split at he
  · rename_i hnone
    obtain ⟨rfl, rfl⟩ := Prod.mk.inj he
    rw [if_neg (AList.lookup_eq_none.mp hnone), hu.own_nil rfl]
    rfl
  · rename_i n hn
    obtain ⟨rfl, rfl⟩ := Prod.mk.inj he
    rw [if_pos (AList.lookup_isSome.mp (Option.isSome_of_eq_some hn))]
    have hown : Script (.destroying n none) (own s.stack h) := hu.script [] rfl
    exact hown

/-! ### The last failure -/

@[simp] theorem heard_append (tr os : List Obs) : heard (tr ++ os) = os.foldl Shell.hear (heard tr) :=
  List.foldl_append

/-- A step fails with the error it reports, or it installs a view, or it says nothing of either. -/
inductive Reports (s s' : Runtime) (os : List Obs) : Prop where
  | failed (moduleName : String) (hos : os = [.moduleViewFailed moduleName s'.lastError])
  | installed (moduleName : String) (n : ℕ) (hos : os = [.moduleViewInstalled moduleName n])
      (herror : s'.lastError = "")
  | silent (hos : ∀ shell, os.foldl Shell.hear shell = shell) (herror : s'.lastError = s.lastError)

theorem reports_remove (moduleName : String) (install : Option (String × ℕ)) (s : Runtime) :
    Reports s (s.removeModuleView moduleName install).1
      (s.removeModuleView moduleName install).2 := by
  unfold Runtime.removeModuleView
  split
  · cases install with
    | none => exact .silent (fun _ => rfl) rfl
    | some install => exact .installed _ _ rfl rfl
  · exact .silent (fun _ => rfl) rfl

theorem step_reports {a : Action} {r : Runtime × List Obs} (hs : step s a = some r) :
    Reports s r.1 r.2 := by
  cases step_effect hs with
  | install name compileError =>
      unfold Runtime.installModuleView
      split
      · exact .failed name rfl
      · split
        · exact .failed name rfl
        · split
          · exact .failed name rfl
          · exact .silent (fun _ => rfl) rfl
  | remove name => exact reports_remove name none s
  | @created name n frames hstack =>
      cases reports_remove name (some (name, n))
        { s with viewAlive := Function.update s.viewAlive n true, stack := frames } with
      | failed name' hos => exact .failed name' hos
      | installed name' m hos herror => exact .installed name' m hos herror
      | silent hos herror => exact .silent hos herror
  | @createFailed name n frames error hstack => exact .failed name rfl
  | @returned frame frames r hstack hr =>
      cases frame with
      | creating name n => cases hr
      | removed install =>
          obtain rfl := Option.some.inj hr
          cases install with
          | none => exact .silent (fun _ => rfl) rfl
          | some install => exact .installed _ _ rfl rfl
      | destroying n install | installed n | changed n | failed context =>
          obtain rfl := Option.some.inj hr
          exact .silent (fun _ => rfl) rfl

theorem Tells.step {a : Action} {r : Runtime × List Obs} (h : Tells tr s) (hs : step s a = some r) :
    Tells (tr ++ r.2) r.1 := by
  unfold Tells
  rw [heard_append]
  cases step_reports hs with
  | failed moduleName hos =>
      right
      refine ⟨moduleName, ?_, ?_⟩ <;> rw [hos]
      · exact List.mem_append_right _ List.mem_cons_self
      · rfl
  | installed moduleName n hos herror =>
      left
      rw [hos]
      exact ⟨rfl, herror⟩
  | silent hos herror =>
      rw [hos, herror]
      obtain hnone | ⟨moduleName, hm, he⟩ := h
      · exact .inl hnone
      · exact .inr ⟨moduleName, List.mem_append_left _ hm, he⟩

/-- **Calls say what they did.**  From any state and whatever runs in between, a call of
`installModuleView` says that it failed and returns null, or it says that its view was installed
and returns that view; a call of `removeModuleView` says that a module went if there was one, and
returns which.  In every run the shell and `lastError` tell of the last failure that no
installation has followed, if there is one. -/
theorem calls_say_what_they_did (engine : Bool) :
    (∀ s s' s'' moduleName compileError os h,
      step s (.installModuleView moduleName compileError) = some (s', os) →
      Until s.stack s' h s'' → InstallSays moduleName s.created (os ++ own s.stack h)) ∧
    (∀ s s' s'' moduleName os h, step s (.removeModuleView moduleName) = some (s', os) →
      Until s.stack s' h s'' → os ++ own s.stack h =
        if moduleName ∈ s.views then [.installedModulesChanged, .removeReturned true]
        else [.removeReturned false]) ∧
    ∀ tr s, (machine engine).Run Machine.always tr s → Tells tr s := by
  refine ⟨fun _ _ _ _ _ _ _ hs hu => install_says hs hu, fun _ _ _ _ _ _ hs hu =>
    remove_says hs hu, fun tr s h => ?_⟩
  exact h.invariant (I := fun tr s => Tells tr s) (.inl ⟨rfl, rfl⟩) fun hi _ hs => hi.step hs

/-- A slot installs another module, which fails, while an installation replaces a view. -/
theorem failure_inside_a_replacement : ∃ s s' s'' h,
    step s (.installModuleView "counter" none) = some (s', []) ∧ Until s.stack s' h s'' ∧
    InstallSays "counter" 1 (own s.stack h) ∧
    own s.stack h = .installedModulesChanged :: announce "counter" 1 ∧
    .moduleViewFailed "wallet" "syntax error" ∈ h.flatMap (·.os) := by
  let s : Runtime :=
    { engine := true, views := (∅ : QHash String ℕ).insert "counter" 0, order := ["counter"],
      created := 1, viewAlive := (· = 0), contextAlive := (· = 0) }
  have hu : ∃ h s'', Until s.stack (s.installModuleView "counter" none).1 h s'' ∧
      own s.stack h = .installedModulesChanged :: announce "counter" 1 ∧
      .moduleViewFailed "wallet" "syntax error" ∈ h.flatMap (·.os) := by
    refine ⟨_, _, .step (a := .created) nofun rfl (.step (a := .returned) nofun rfl
      (.step (a := .installModuleView "wallet" (some "syntax error")) nofun rfl
      (.step (a := .returned) nofun rfl (.step (a := .returned) nofun rfl
      (.step (a := .returned) nofun rfl (.step (a := .returned) nofun rfl (.returned rfl))))))),
      rfl, ?_⟩
    simp
  obtain ⟨h, s'', hu, hown, hfailed⟩ := hu
  exact ⟨s, _, s'', h, rfl, hu,
    (calls_say_what_they_did true).1 s _ s'' "counter" none [] h rfl hu, hown, hfailed⟩

end LogosViewRuntime.WebRuntime
