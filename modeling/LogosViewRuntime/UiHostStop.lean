import LogosViewRuntime.UiHostHandshake

/-! # `stop` and the signals of a child

`ViewModuleHost::stop` asks its child to go, waits, and kills it if it does not.  The child turns
the signal into a byte in a pipe, which its event loop reads.

* **Signals.**  SIGTERM and SIGINT are one: `pending` until the kernel delivers it.  `handlers` says
  whether `main` of a child has come past the setup of its handlers and got its pipe for them;
  without them the signal ends the child.  A pipe always has room for a byte.
* **Notifier.**  It is there before the arguments are looked at and fires in any event loop, one of
  the plugin's own code included, and it empties the pipe.  `quit()` has an effect in the loop of
  the application only.
* **Waiting.**  `stops` are the calls of `stop` that wait, the innermost first: the slots that a
  wait runs may stop again.  A wait ends when the child has finished, or too late.  A child that is
  killed dies at some step of its own.
* What the host and its children do is what `UiHost.machine` does (`run_system`).

A termination signal waits, is a byte in the pipe, or the plugin has been asked to unload, exactly
along the runs in which the notifier is `Heard`: a signal that it finds while the plugin runs a loop
of its own before `exec()` is lost, unless another one comes.  In every run a signal ends no child
that has loaded its plugin and got its pipe (`termination_is_not_lost`). -/

namespace LogosViewRuntime.UiHost

open Reactive
open ViewModuleHost (Outcome succeeds)

/-- A call of `stop` that waits for its child. -/
structure Stopping where
  child : ℕ
  killing : Bool := false
deriving DecidableEq, Repr

structure Controlled where
  system : System := {}
  handlers : ℕ → Option Bool := fun _ => none
  pending : ℕ → Bool := fun _ => false
  /-- the bytes in the pipe of a child -/
  pipe : ℕ → ℕ := fun _ => 0
  stops : List Stopping := []

inductive StopObs where
  | system (o : Obs)
  /-- `pipe()` failed -/
  | unpiped (n : ℕ)
  | signalled (n : ℕ)
  /-- nobody catches the signal -/
  | ended (n : ℕ)
  | killed (n : ℕ)
  | returned (n : ℕ)
deriving DecidableEq

/-- The child is gone. -/
def Phase.isExited : Phase → Bool
  | .exited _ => true
  | _ => false

/-- The plugin was asked to unload, or nobody is there to ask. -/
def Phase.asked : Phase → Bool
  | .unloading | .exited _ => true
  | _ => false

namespace Controlled

/-- The child runs. -/
def runs (n : ℕ) (s : Controlled) : Bool :=
  match s.system.child n with
  | some c => !c.phase.isExited
  | none => false

def phase (n : ℕ) (s : Controlled) : Option Phase := (s.system.child n).map (·.phase)

/-- An event loop may turn in the child, of the plugin's code or of the application. -/
def loops (n : ℕ) (s : Controlled) : Bool := (s.system.child n).any (·.plugged)

/-- A step of the host and its children. -/
def base (a : Action) (s : Controlled) : Option (Controlled × List StopObs) :=
  (UiHost.step s.system a).map fun done => ({ s with system := done.1 }, done.2.map .system)

/-- `main` sets up its handlers before it looks at its arguments; `stop` is a step of its own. -/
def admits (s : Controlled) : Action → Bool
  | .stop => false
  | .move n .parse => (s.handlers n).isSome
  | _ => true

/-- `kill(pid, SIGTERM)` -/
def signal (n : ℕ) (s : Controlled) : Controlled × List StopObs :=
  if s.runs n then ({ s with pending := Function.update s.pending n true }, [.signalled n])
  else (s, [])

/-- The handler writes its byte, or there is none. -/
def deliver (n : ℕ) (s : Controlled) : Option (Controlled × List StopObs) :=
  let s := { s with pending := Function.update s.pending n false }
  if s.handlers n = some true then
    some ({ s with pipe := Function.update s.pipe n (s.pipe n + 1) }, [])
  else (s.base (.move n (.die 15))).map fun done => (done.1, .ended n :: done.2)

/-- The notifier empties the pipe and quits the application, if that runs. -/
def notify (n : ℕ) (s : Controlled) : Option (Controlled × List StopObs) :=
  let s := { s with pipe := Function.update s.pipe n 0 }
  if s.phase n = some .executing then s.base (.move n .quit) else some (s, [])

/-- `terminate()` and the first wait. -/
def stop (s : Controlled) : Option (Controlled × List StopObs) :=
  match s.system.host.process with
  | none => s.base .stop
  | some n =>
      let s := { s with stops := { child := n } :: s.stops }
      (s.base .stop).map fun done =>
        let signalled := done.1.signal n
        (signalled.1, done.2 ++ signalled.2)

end Controlled

inductive Control where
  | system (a : Action)
  | install (n : ℕ) (piped : Bool)
  | signal (n : ℕ)
  | deliver (n : ℕ)
  | notify (n : ℕ)
  | stop
  | timedOut
  | finished

def control (s : Controlled) : Control → Option (Controlled × List StopObs)
  | .system a => if s.admits a then s.base a else none
  | .install n piped =>
      if s.phase n = some .parsing ∧ s.handlers n = none then
        some ({ s with handlers := Function.update s.handlers n (some piped) },
          if piped then [] else [.unpiped n])
      else none
  | .signal n => some (s.signal n)
  | .deliver n => if s.runs n ∧ s.pending n = true then s.deliver n else none
  | .notify n => if s.loops n ∧ 0 < s.pipe n then s.notify n else none
  | .stop => s.stop
  | .timedOut =>
      match s.stops with
      | [] => none
      | f :: rest =>
          -- after the second wait `stop` gives up
          if f.killing then some ({ s with stops := rest }, [.returned f.child])
          else some ({ s with stops := { f with killing := true } :: rest }, [.killed f.child])
  | .finished =>
      match s.stops with
      | [] => none
      | f :: rest =>
          if s.system.host.process ≠ some f.child then
            some ({ s with stops := rest }, [.returned f.child])
          else none

/-- A host that has spawned nothing, and what becomes of the children that it stops. -/
def controlled : Machine Controlled Control StopObs where
  init := {}
  step := control

/-- What the host and its children did. -/
def StopObs.seen : StopObs → List Obs
  | .system o => [o]
  | .unpiped _ | .signalled _ | .ended _ | .killed _ | .returned _ => []

def systems (tr : List StopObs) : List Obs := tr.flatMap StopObs.seen

@[simp] theorem systems_append (tr os : List StopObs) :
    systems (tr ++ os) = systems tr ++ systems os := List.flatMap_append

@[simp] theorem systems_map (os : List Obs) : systems (os.map .system) = os := by
  induction os with
  | nil => rfl
  | cons o os ih => exact congrArg (o :: ·) ih

@[simp] theorem mem_systems {tr : List StopObs} {o : Obs} : o ∈ systems tr ↔ .system o ∈ tr := by
  simp only [systems, List.mem_flatMap]
  constructor
  · rintro ⟨e, he, ho⟩
    cases e with
    | system o' =>
        obtain rfl := List.mem_singleton.mp ho
        exact he
    | _ => cases ho
  · intro h
    exact ⟨_, h, List.mem_singleton.mpr rfl⟩

/-! ### What a step does to the children -/

/-- What becomes of a child at a step of its host. -/
inductive Kin : Option Child → Option Child → Prop
  | same (c : Option Child) : Kin c c
  | born (args : List String) : Kin none (some { args })
  | turned {c c' : Child}
      (hphase : c'.phase = c.phase ∨ c.phase = .connecting ∧ c'.phase = .awaiting) :
      Kin (some c) (some c')

/-- A step is one of the host, at which no child does anything, or `main` of a child goes on. -/
inductive Stepped (s : System) : Action → System × List Obs → Prop
  | hosted {a : Action} {s' : System} {os : List Obs} (hkin : ∀ n, Kin (s.child n) (s'.child n))
      (hos : ∀ n o, .child n o ∉ os) : Stepped s a (s', os)
  | moved {n : ℕ} {move : Move} {c c' : Child} {os : List ChildObs} (hc : s.child n = some c)
      (hmove : c.move move = some (c', os)) :
      Stepped s (.move n move) (s.setChild n c', os.map (.child n))

section stepped

variable {s s' : System} {tr os : List Obs} {a : Action}

theorem kin_same (h : s'.child = s.child) (n : ℕ) : Kin (s.child n) (s'.child n) := by
  rw [h]
  exact .same _

theorem kin_update {n : ℕ} {c c' : Child} (hc : s.child n = some c)
    (hphase : c'.phase = c.phase ∨ c.phase = .connecting ∧ c'.phase = .awaiting)
    (h : s'.child = Function.update s.child n (some c')) (m : ℕ) :
    Kin (s.child m) (s'.child m) := by
  rw [h, Function.update_apply]
  split_ifs with hm
  · rw [hm, hc]
    exact .turned hphase
  · exact .same _

theorem child_enter {m : ℕ} {client : Option ℕ} (h : s.enter m client = some s') :
    s'.child = s.child := by
  obtain ⟨done, -, rfl⟩ := Option.map_eq_some_iff.mp h
  rfl

theorem stepped_spawn (h : Sound tr s) (moduleName pluginPath authToken : String)
    (outcome : Outcome) (a : Action) :
    Stepped s a (s.spawn moduleName pluginPath authToken outcome) := by
  have hspawned := spawned moduleName pluginPath authToken outcome s.host
  simp only [System.spawn]
  generalize s.host.spawn moduleName pluginPath authToken outcome = done at hspawned
  cases hspawned with
  | idle hstarted =>
      simp only [hstarted]
      exact .hosted (kin_same rfl) (by simp)
  | started name socket hidle hprocess hcreated htoken hstarted =>
      simp only [hstarted]
      refine .hosted (fun n => ?_) (by simp)
      rw [System.setChild_child, Function.update_apply]
      split_ifs with hn
      · rw [hn, (h.fresh _ (Nat.le_refl _)).1]
        exact .born _
      · exact .same _

theorem stepped_connect {n : ℕ} (hs : s.connect n = some s') : Stepped s a (s', []) := by
  unfold System.connect at hs
  cases hc : s.child n with
  | none => simp [hc] at hs
  | some c =>
      simp only [hc] at hs
      split_ifs at hs with hphase
      split at hs
      · obtain ⟨t, henter, rfl⟩ := Option.map_eq_some_iff.mp hs
        have hchild : (t.setChild n { c with phase := .awaiting }).child =
            Function.update s.child n (some { c with phase := .awaiting }) := by
          rw [System.setChild_child, child_enter henter]
        exact .hosted (kin_update hc (.inr ⟨hphase, rfl⟩) hchild) (by simp)
      · cases hs

theorem stepped_newConnection {m : ℕ} (hs : s.newConnection m = some (s', os)) :
    Stepped s a (s', os) := by
  obtain ⟨done, -, he⟩ := Option.map_eq_some_iff.mp hs
  split at he
  · obtain ⟨rfl, rfl⟩ := Prod.mk.inj he
    exact .hosted (kin_same rfl) (by simp)
  · dsimp only at he
    split at he
    · split at he
      · rename_i c hc
        obtain ⟨rfl, rfl⟩ := Prod.mk.inj he
        refine .hosted (kin_update hc (.inl ?_) rfl) (by simp)
        rfl
      · obtain ⟨rfl, rfl⟩ := Prod.mk.inj he
        exact .hosted (kin_same rfl) (by simp)
    · obtain ⟨rfl, rfl⟩ := Prod.mk.inj he
      exact .hosted (kin_same rfl) (by simp)

theorem stepped (h : Sound tr s) (hs : UiHost.step s a = some (s', os)) : Stepped s a (s', os) := by
  cases a with
  | spawn moduleName pluginPath authToken outcome =>
      simp only [UiHost.step, Option.some.injEq] at hs
      rw [← hs]
      exact stepped_spawn h moduleName pluginPath authToken outcome _
  | stop | ret =>
      simp only [UiHost.step, System.alone] at hs
      obtain ⟨done, -, he⟩ := Option.map_eq_some_iff.mp hs
      obtain ⟨rfl, rfl⟩ := Prod.mk.inj he
      exact .hosted (kin_same rfl) (by simp)
  | stranger m =>
      obtain ⟨t, henter, he⟩ := Option.map_eq_some_iff.mp hs
      obtain ⟨rfl, rfl⟩ := Prod.mk.inj he
      exact .hosted (kin_same (child_enter henter)) (by simp)
  | connect n =>
      obtain ⟨t, hconnect, he⟩ := Option.map_eq_some_iff.mp hs
      obtain ⟨rfl, rfl⟩ := Prod.mk.inj he
      exact stepped_connect hconnect
  | newConnection m => exact stepped_newConnection hs
  | readyRead k =>
      simp only [UiHost.step, System.readyRead] at hs
      split at hs
      · split at hs
        · rename_i n _ c hc
          obtain ⟨done, -, he⟩ := Option.map_eq_some_iff.mp hs
          obtain ⟨rfl, rfl⟩ := Prod.mk.inj he
          refine .hosted (kin_update hc (.inl ?_) rfl) (by simp)
          rfl
        · cases hs
      · cases hs
  | finished =>
      simp only [UiHost.step, System.finished] at hs
      split at hs
      · split at hs
        · obtain ⟨done, -, he⟩ := Option.map_eq_some_iff.mp hs
          obtain ⟨rfl, rfl⟩ := Prod.mk.inj he
          exact .hosted (kin_same rfl) (by simp)
        · cases hs
      · cases hs
  | move n move =>
      simp only [UiHost.step] at hs
      split at hs
      · rename_i c hc
        obtain ⟨done, hmove, he⟩ := Option.map_eq_some_iff.mp hs
        obtain ⟨rfl, rfl⟩ := Prod.mk.inj he
        exact .moved hc hmove
      · cases hs

end stepped

section moves

variable {c c' : Child} {move : Move} {os : List ChildObs}

/-- Nobody takes it back that a plugin was asked to unload. -/
theorem asked_move (hmove : c.move move = some (c', os)) (hasked : c.phase.asked = true) :
    c'.phase.asked = true := by
  cases hphase : c.phase with
  | unloading =>
      cases move with
      | print data =>
          obtain ⟨-, rfl, -⟩ := Machine.taken_if hmove
          exact hasked
      | unload rc =>
          obtain ⟨-, rfl, -⟩ := Machine.taken_if hmove
          rfl
      | die code =>
          simp only [Child.move, hphase] at hmove
          obtain ⟨rfl, -⟩ := Prod.mk.inj (Option.some.inj hmove)
          rfl
      | _ => simp [Child.move, hphase] at hmove
  | exited code =>
      cases move with
      | print data =>
          obtain ⟨hplugged, -⟩ := Machine.taken_if hmove
          simp [Child.plugged, hphase] at hplugged
      | _ => simp [Child.move, hphase] at hmove
  | _ => simp [Phase.asked, hphase] at hasked

/-- Only the arguments bring `main` past its parser. -/
theorem parsed_move (hmove : c.move move = some (c', os)) (hparsed : c'.phase.parsed = true) :
    move = .parse ∨ c.phase.parsed = true := by
  cases hphase : c.phase with
  | parsing =>
      cases move with
      | parse => exact .inl rfl
      | print data =>
          obtain ⟨hplugged, -⟩ := Machine.taken_if hmove
          simp [Child.plugged, hphase] at hplugged
      | die code =>
          simp only [Child.move, hphase] at hmove
          obtain ⟨rfl, -⟩ := Prod.mk.inj (Option.some.inj hmove)
          cases hparsed
      | _ => simp [Child.move, hphase] at hmove
  | exited code =>
      cases move with
      | print data =>
          obtain ⟨hplugged, -⟩ := Machine.taken_if hmove
          simp [Child.plugged, hphase] at hplugged
      | _ => simp [Child.move, hphase] at hmove
  | _ => exact .inr rfl

/-- A plugin is loaded past the parser. -/
theorem loaded_move {path : String} (hmove : c.move move = some (c', os)) (hm : .loaded path ∈ os) :
    c.phase.parsed = true := by
  cases move with
  | load ok =>
      obtain ⟨hphase, -⟩ := Option.ite_none_right_eq_some.mp hmove
      rw [hphase]
      rfl
  | remote remoting =>
      obtain ⟨hphase, -⟩ := Machine.taken_if hmove
      rw [hphase]
      rfl
  | remoteModels properties =>
      obtain ⟨hphase, -⟩ := Machine.taken_if hmove
      rw [hphase]
      rfl
  | _ => grind [Child.move, Child.exit]

end moves

section children

variable {s s' : System} {os : List Obs} {a : Action} {n : ℕ}

theorem Stepped.lives {c : Child} (h : Stepped s a (s', os)) (hc : s.child n = some c) :
    ∃ c', s'.child n = some c' ∧ (c.phase.asked = true → c'.phase.asked = true) := by
  cases h with
  | hosted hkin hos =>
      have hn := hkin n
      rw [hc] at hn
      generalize s'.child n = c' at hn
      cases hn with
      | same => exact ⟨c, rfl, id⟩
      | turned hphase =>
          refine ⟨_, rfl, fun hasked => ?_⟩
          obtain hsame | ⟨hphase, -⟩ := hphase
          · rwa [hsame]
          · simp [Phase.asked, hphase] at hasked
  | @moved m move d d' _ hd hmove =>
      rw [System.setChild_child, Function.update_apply]
      split_ifs with hm
      · obtain rfl : d = c := Option.some.inj (hd.symm.trans (hm ▸ hc))
        exact ⟨d', rfl, asked_move hmove⟩
      · exact ⟨c, hc, id⟩

theorem Stepped.parsed {c' : Child} (h : Stepped s a (s', os)) (hc' : s'.child n = some c')
    (hparsed : c'.phase.parsed = true) :
    a = .move n .parse ∨ ∃ c, s.child n = some c ∧ c.phase.parsed = true := by
  cases h with
  | hosted hkin hos =>
      have hn := hkin n
      rw [hc'] at hn
      generalize s.child n = c at hn
      cases hn with
      | same => exact .inr ⟨c', rfl, hparsed⟩
      | born => cases hparsed
      | turned hphase =>
          refine .inr ⟨_, rfl, ?_⟩
          obtain hsame | ⟨hphase, -⟩ := hphase
          · rwa [← hsame]
          · rw [hphase]
            rfl
  | @moved m move d d' _ hd hmove =>
      rw [System.setChild_child, Function.update_apply] at hc'
      split_ifs at hc' with hm
      · subst hm
        obtain rfl := Option.some.inj hc'
        exact (parsed_move hmove hparsed).imp (fun he => by rw [he]) fun hwas => ⟨d, hd, hwas⟩
      · exact .inr ⟨c', hc', hparsed⟩

theorem Stepped.loaded {path : String} (h : Stepped s a (s', os))
    (hm : .child n (.loaded path) ∈ os) : ∃ c, s.child n = some c ∧ c.phase.parsed = true := by
  cases h with
  | hosted hkin hos => exact absurd hm (hos _ _)
  | moved hc hmove =>
      obtain ⟨o, ho, he⟩ := List.mem_map.mp hm
      obtain ⟨rfl, rfl⟩ := Obs.child.inj he
      exact ⟨_, hc, loaded_move hmove ho⟩

/-- A plugin that is to quit is asked to unload, and one that dies cannot be. -/
theorem asked_after {move : Move} {c : Child} (hs : UiHost.step s (.move n move) = some (s', os))
    (hmove : move = .quit ∨ ∃ code, move = .die code) (hc : s'.child n = some c) :
    c.phase.asked = true := by
  simp only [UiHost.step] at hs
  split at hs
  · obtain ⟨done, hdone, he⟩ := Option.map_eq_some_iff.mp hs
    obtain ⟨rfl, -⟩ := Prod.mk.inj he
    rw [System.setChild_child, Function.update_self] at hc
    obtain rfl := Option.some.inj hc
    obtain rfl | ⟨code, rfl⟩ := hmove
    · obtain ⟨-, hto, -⟩ := Machine.taken_if hdone
      rw [← hto]
      rfl
    · simp only [Child.move] at hdone
      split at hdone
      · cases hdone
      · rw [← Option.some.inj hdone]
        rfl
  · cases hs

end children

/-! ### What is kept -/

/-- The child is gone, and this was observed. -/
def Gone (n : ℕ) (tr : List StopObs) : Prop := ∃ code, .system (.child n (.exited code)) ∈ tr

/-- What must have been before. -/
def Due (before : List StopObs) : StopObs → Prop
  | .ended n => .unpiped n ∈ before ∨ ∀ path, .system (.child n (.loaded path)) ∉ before
  | .killed n => .system (.host (.stopping n)) ∈ before ∧ (.signalled n ∈ before ∨ Gone n before)
  | .returned n => .killed n ∈ before ∨ Gone n before
  | .system _ | .unpiped _ | .signalled _ => True

/-- A call of `stop` that waits. -/
structure Waits (tr : List StopObs) (s : Controlled) (f : Stopping) : Prop where
  child : ∃ c, s.system.child f.child = some c
  stopping : .system (.host (.stopping f.child)) ∈ tr
  signalled : .signalled f.child ∈ tr ∨ Gone f.child tr
  killing : f.killing = true → .killed f.child ∈ tr

/-- The signal is where it is not forgotten, or it did its work. -/
def Kept (n : ℕ) (s : Controlled) : Prop :=
  (s.system.child n).any (·.phase.asked) = true ∨ s.pending n = true ∨ 0 < s.pipe n

/-- No signal that was sent is lost. -/
def Preserved (tr : List StopObs) (s : Controlled) : Prop := ∀ n, .signalled n ∈ tr → Kept n s

/-- The notifier fires in the loop of the application, after it or while another signal waits. -/
def Heard (_ : List StopObs) (s : Controlled) : Control → Prop
  | .notify n => s.phase n = some .executing ∨ s.phase n = some .unloading ∨ s.pending n = true
  | .system _ | .install .. | .signal _ | .deliver _ | .stop | .timedOut | .finished => True

instance (tr : List StopObs) (s : Controlled) : (a : Control) → Decidable (Heard tr s a)
  | .notify n => inferInstanceAs (Decidable
      (s.phase n = some .executing ∨ s.phase n = some .unloading ∨ s.pending n = true))
  | .system _ | .install .. | .signal _ | .deliver _ | .stop | .timedOut | .finished =>
      inferInstanceAs (Decidable True)

structure Controls (tr : List StopObs) (s : Controlled) : Prop where
  sound : Sound (systems tr) s.system
  order : Machine.Each Due tr
  armed : ∀ n c, s.system.child n = some c → c.phase.parsed = true → s.handlers n ≠ none
  loaded : ∀ n path, .system (.child n (.loaded path)) ∈ tr → s.handlers n ≠ none
  unpiped : ∀ n, s.handlers n = some false → .unpiped n ∈ tr
  sent : ∀ n, s.pending n = true ∨ 0 < s.pipe n → .signalled n ∈ tr
  waits : ∀ f ∈ s.stops, Waits tr s f

variable {tr os : List StopObs} {s s' : Controlled} {a : Control} {n : ℕ}

theorem Gone.mono (h : Gone n tr) (os : List StopObs) : Gone n (tr ++ os) :=
  h.imp fun _ => List.mem_append_left os

theorem Waits.mono {f : Stopping} (h : Waits tr s f) (os : List StopObs)
    (hchild : ∀ c, s.system.child f.child = some c → ∃ c', s'.system.child f.child = some c') :
    Waits (tr ++ os) s' f where
  child := h.child.elim hchild
  stopping := List.mem_append_left _ h.stopping
  signalled := h.signalled.imp (List.mem_append_left _) fun hgone => hgone.mono os
  killing hk := List.mem_append_left _ (h.killing hk)

theorem Waits.congr {f : Stopping} (h : Waits tr s f) (hsystem : s'.system = s.system) :
    Waits tr s' f where
  child := hsystem ▸ h.child
  stopping := h.stopping
  signalled := h.signalled
  killing := h.killing

/-- A step of the system is one of the host and its children. -/
theorem base_step {b : Action} (hs : s.base b = some (s', os)) :
    ∃ system os', UiHost.step s.system b = some (system, os') ∧ s' = { s with system } ∧
      os = os'.map .system := by
  obtain ⟨⟨system, os'⟩, hstep, he⟩ := Option.map_eq_some_iff.mp hs
  obtain ⟨rfl, rfl⟩ := Prod.mk.inj he
  exact ⟨system, os', hstep, rfl, rfl⟩

/-- What the host and its children do is always due. -/
theorem due_systems (h : Machine.Each Due tr) (os : List Obs) :
    Machine.Each Due (tr ++ os.map .system) := by
  induction os using List.reverseRecOn with
  | nil => simpa using h
  | append_singleton os o ih =>
      rw [List.map_append, ← List.append_assoc]
      exact Machine.each_snoc.mpr ⟨ih, trivial⟩

/-- `terminate()` changes nothing by itself. -/
theorem stopping_step {s s' : System} {os : List Obs} (hprocess : s.host.process = some n)
    (hs : UiHost.step s .stop = some (s', os)) : s' = s ∧ os = [.host (.stopping n)] := by
  simp only [UiHost.step, System.alone, ViewModuleHost.step, ViewModuleHost.Host.stop, hprocess,
    Option.map_some, Option.some.injEq, Prod.mk.injEq] at hs
  exact ⟨hs.1.symm, hs.2.symm⟩

theorem signal_system (n : ℕ) (s : Controlled) : (s.signal n).1.system = s.system := by
  unfold Controlled.signal
  split_ifs <;> rfl

theorem signal_waits (n : ℕ) (s : Controlled) : (s.signal n).1.stops = s.stops := by
  unfold Controlled.signal
  split_ifs <;> rfl

/-- A signal does not look at the calls of `stop`. -/
theorem signal_stops (n : ℕ) (stops : List Stopping) (s : Controlled) :
    { s with stops }.signal n = ({ (s.signal n).1 with stops }, (s.signal n).2) := by
  have hruns : { s with stops }.runs n = s.runs n := rfl
  unfold Controlled.signal
  rw [hruns]
  split_ifs <;> rfl

namespace Controls

theorem initial : Controls [] {} where
  sound := Sound.initial
  order := Machine.each_nil _
  armed _ _ h := by cases h
  loaded _ _ h := by cases h
  unpiped _ h := by cases h
  sent _ h := by simp at h
  waits _ h := by cases h

/-- A child that is gone was observed to go. -/
theorem gone (h : Controls tr s) {c : Child} (hc : s.system.child n = some c)
    (hexited : c.phase.isExited = true) : Gone n tr := by
  have hpast := (h.sound.child n c hc).past
  cases hphase : c.phase with
  | exited code =>
      rw [hphase] at hpast
      exact ⟨code, mem_systems.mp hpast⟩
  | _ => simp [Phase.isExited, hphase] at hexited

/-- A child that the host does not have any more is gone. -/
theorem left (h : Controls tr s) {c : Child} (hc : s.system.child n = some c)
    (hleft : s.system.host.process ≠ some n) : Gone n tr := by
  obtain ⟨code, hcode⟩ := (h.sound.child n c hc).running.resolve_left hleft
  exact h.gone hc (by rw [hcode]; rfl)

/-- The host and its children go on. -/
theorem base (h : Controls tr s) {b : Action} {system : System} {os : List Obs}
    (hparse : ∀ n, b = .move n .parse → s.handlers n ≠ none)
    (hs : UiHost.step s.system b = some (system, os)) :
    Controls (tr ++ os.map .system) { s with system } where
  sound := by
    rw [systems_append, systems_map]
    exact h.sound.step hs
  order := due_systems h.order os
  armed n c' hc' hparsed := by
    obtain hb | ⟨c, hc, hwas⟩ := (stepped h.sound hs).parsed hc' hparsed
    · exact hparse n hb
    · exact h.armed n c hc hwas
  loaded n path hm := by
    obtain hm | hm := List.mem_append.mp hm
    · exact h.loaded n path hm
    · obtain ⟨c, hc, hparsed⟩ := (stepped h.sound hs).loaded (by simpa using hm)
      exact h.armed n c hc hparsed
  unpiped n hn := List.mem_append_left _ (h.unpiped n hn)
  sent n hn := List.mem_append_left _ (h.sent n hn)
  waits f hf := (h.waits f hf).mono _ fun c hc =>
    ((stepped h.sound hs).lives hc).imp fun _ hlives => hlives.1

/-- Something is observed. -/
theorem observe (h : Controls tr s) {o : StopObs} (hdue : Due tr o) (hseen : o.seen = []) :
    Controls (tr ++ [o]) s where
  sound := by
    rw [systems_append]
    simpa [systems, hseen] using h.sound
  order := Machine.each_snoc.mpr ⟨h.order, hdue⟩
  armed := h.armed
  loaded n path hm := by
    obtain hm | hm := List.mem_append.mp hm
    · exact h.loaded n path hm
    · obtain rfl := List.mem_singleton.mp hm
      cases hseen
  unpiped n hn := List.mem_append_left _ (h.unpiped n hn)
  sent n hn := List.mem_append_left _ (h.sent n hn)
  waits f hf := (h.waits f hf).mono _ fun c hc => ⟨c, hc⟩

/-- Other calls of `stop` wait. -/
theorem stops (h : Controls tr s) {stops : List Stopping} (hstops : ∀ f ∈ stops, Waits tr s f) :
    Controls tr { s with stops } where
  sound := h.sound
  order := h.order
  armed := h.armed
  loaded := h.loaded
  unpiped := h.unpiped
  sent := h.sent
  waits f hf := (hstops f hf).congr rfl

/-- Signals move on. -/
theorem signals (h : Controls tr s) {pending : ℕ → Bool} {pipe : ℕ → ℕ}
    (hsent : ∀ n, pending n = true ∨ 0 < pipe n → .signalled n ∈ tr) :
    Controls tr { s with pending, pipe } where
  sound := h.sound
  order := h.order
  armed := h.armed
  loaded := h.loaded
  unpiped := h.unpiped
  sent := hsent
  waits f hf := (h.waits f hf).congr rfl

/-- `main` sets up its handlers. -/
theorem handlers (h : Controls tr s) {piped : Bool} (hnone : s.handlers n = none)
    (hunpiped : piped = false → .unpiped n ∈ tr) :
    Controls tr { s with handlers := Function.update s.handlers n (some piped) } := by
  have hstay : ∀ m, s.handlers m ≠ none → Function.update s.handlers n (some piped) m ≠ none := by
    intro m hm
    have hne : m ≠ n := fun he => hm (he ▸ hnone)
    rwa [Function.update_of_ne hne]
  exact
    { sound := h.sound
      order := h.order
      armed := fun m c hc hparsed => hstay m (h.armed m c hc hparsed)
      loaded := fun m path hm => hstay m (h.loaded m path hm)
      unpiped := by
        intro m hm
        dsimp only at hm
        rw [Function.update_apply] at hm
        split_ifs at hm with hn
        · exact hn ▸ hunpiped (Option.some.inj hm)
        · exact h.unpiped m hm
      sent := h.sent
      waits := fun f hf => (h.waits f hf).congr rfl }

/-- A signal is sent to a child that runs. -/
theorem signal (h : Controls tr s) (n : ℕ) : Controls (tr ++ (s.signal n).2) (s.signal n).1 := by
  unfold Controlled.signal
  split_ifs with hruns
  · have hsignalled : Controls (tr ++ [.signalled n]) s := h.observe trivial rfl
    refine hsignalled.signals fun m hm => ?_
    obtain rfl | hne := eq_or_ne m n
    · simp
    · exact hsignalled.sent m (by simpa [Function.update_of_ne hne] using hm)
  · simpa using h

/-- The signal becomes a byte, or the end of its child. -/
theorem deliver (h : Controls tr s) (hpending : s.pending n = true)
    (hs : s.deliver n = some (s', os)) : Controls (tr ++ os) s' := by
  have hsent : ∀ m, Function.update s.pending n false m = true ∨ 0 < s.pipe m →
      .signalled m ∈ tr := by
    intro m hm
    refine h.sent m (hm.imp_left fun hm => ?_)
    obtain rfl | hne := eq_or_ne m n
    · exact hpending
    · rwa [Function.update_of_ne hne] at hm
  unfold Controlled.deliver at hs
  dsimp only at hs
  split_ifs at hs with hpiped
  · obtain ⟨rfl, rfl⟩ := Prod.mk.inj (Option.some.inj hs)
    rw [List.append_nil]
    refine h.signals fun m hm => ?_
    obtain rfl | hne := eq_or_ne m n
    · exact h.sent m (.inl hpending)
    · exact hsent m (by simpa [Function.update_of_ne hne] using hm)
  · obtain ⟨done, hbase, he⟩ := Option.map_eq_some_iff.mp hs
    obtain ⟨rfl, rfl⟩ := Prod.mk.inj he
    obtain ⟨system, os', hstep, hdone, hos⟩ := base_step hbase
    rw [hdone, hos, List.append_cons]
    have hdue : Due tr (.ended n) := by
      cases hhandlers : s.handlers n with
      | none => exact .inr fun path hm => h.loaded n path hm hhandlers
      | some piped =>
          cases piped with
          | true => exact absurd hhandlers hpiped
          | false => exact .inl (h.unpiped n hhandlers)
    have hended : Controls (tr ++ [.ended n]) s := h.observe hdue rfl
    refine (hended.base (by simp) hstep).signals fun m hm => ?_
    exact List.mem_append_left _ (List.mem_append_left _ (hsent m hm))

/-- The notifier empties the pipe. -/
theorem notify (h : Controls tr s) (hs : s.notify n = some (s', os)) : Controls (tr ++ os) s' := by
  have hdrained : Controls tr { s with pipe := Function.update s.pipe n 0 } := by
    refine h.signals fun m hm => h.sent m (hm.imp_right fun hpos => ?_)
    obtain rfl | hne := eq_or_ne m n
    · simp at hpos
    · rwa [Function.update_of_ne hne] at hpos
  unfold Controlled.notify at hs
  dsimp only at hs
  split_ifs at hs
  · obtain ⟨system, os', hstep, rfl, rfl⟩ := base_step hs
    exact hdrained.base (by simp) hstep
  · obtain ⟨rfl, rfl⟩ := Prod.mk.inj (Option.some.inj hs)
    rwa [List.append_nil]

/-- `stop` asks the child of the host to go, and waits for it. -/
theorem stop (h : Controls tr s) (hs : s.stop = some (s', os)) : Controls (tr ++ os) s' := by
  unfold Controlled.stop at hs
  cases hprocess : s.system.host.process with
  | none =>
      simp only [hprocess] at hs
      obtain ⟨system, os', hstep, rfl, rfl⟩ := base_step hs
      exact h.base (by simp) hstep
  | some n =>
      simp only [hprocess] at hs
      obtain ⟨⟨t, es⟩, hbase, he⟩ := Option.map_eq_some_iff.mp hs
      obtain ⟨rfl, rfl⟩ := Prod.mk.inj he
      obtain ⟨system, os', hstep, rfl, rfl⟩ := base_step hbase
      obtain ⟨rfl, rfl⟩ := stopping_step hprocess hstep
      have hchild : ∃ c, s.system.child n = some c :=
        Option.isSome_iff_exists.mp (h.sound.running n hprocess).2
      have hsignal := (h.base (by simp) hstep).signal n
      rw [signal_stops, ← List.append_assoc]
      refine hsignal.stops (List.forall_mem_cons.mpr ⟨⟨?_, ?_, ?_, by simp⟩, ?_⟩)
      · rw [signal_system]
        exact hchild
      · simp
      · obtain ⟨c, hc⟩ := hchild
        cases hruns : s.runs n with
        | true => exact .inl (by simp [Controlled.signal, hruns])
        | false =>
            have hexited : c.phase.isExited = true := by simpa [Controlled.runs, hc] using hruns
            exact .inr (((h.gone hc hexited).mono _).mono _)
      · intro f hf
        exact hsignal.waits f (by rwa [signal_waits])

/-- The wait is over, and the child lives: it is killed. -/
theorem timedOut (h : Controls tr s) {f : Stopping} {rest : List Stopping}
    (hstops : s.stops = f :: rest) :
    Controls (tr ++ [.killed f.child])
      { s with stops := { f with killing := true } :: rest } := by
  obtain ⟨hf, hrest⟩ := List.forall_mem_cons.mp (hstops ▸ h.waits)
  have hdue : Due tr (.killed f.child) := ⟨hf.stopping, hf.signalled⟩
  have hkilled : Controls (tr ++ [.killed f.child]) s := h.observe hdue rfl
  refine hkilled.stops (List.forall_mem_cons.mpr ⟨?_, fun g hg => ?_⟩)
  · exact ⟨hf.child, List.mem_append_left _ hf.stopping,
      hf.signalled.imp (List.mem_append_left _) fun hgone => hgone.mono _, by simp⟩
  · exact (hrest g hg).mono _ fun c hc => ⟨c, hc⟩

/-- `stop` returns. -/
theorem returned (h : Controls tr s) {f : Stopping} {rest : List Stopping}
    (hstops : s.stops = f :: rest) (hdue : Due tr (.returned f.child)) :
    Controls (tr ++ [.returned f.child]) { s with stops := rest } := by
  have hreturned : Controls (tr ++ [.returned f.child]) s := h.observe hdue rfl
  exact hreturned.stops fun g hg => hreturned.waits g (hstops ▸ List.mem_cons_of_mem f hg)

theorem step (h : Controls tr s) (hs : control s a = some (s', os)) : Controls (tr ++ os) s' := by
  cases a with
  | system b =>
      obtain ⟨hadmits, hs⟩ := Option.ite_none_right_eq_some.mp hs
      obtain ⟨system, os', hstep, rfl, rfl⟩ := base_step hs
      refine h.base (fun n hb hnone => ?_) hstep
      subst hb
      simp [Controlled.admits, hnone] at hadmits
  | install n piped =>
      obtain ⟨⟨-, hnone⟩, rfl, rfl⟩ := Machine.taken_if hs
      cases piped with
      | true => simpa using h.handlers hnone (by simp)
      | false =>
          have hunpiped : Controls (tr ++ [.unpiped n]) s := h.observe trivial rfl
          exact hunpiped.handlers hnone (by simp)
  | signal n =>
      obtain ⟨rfl, rfl⟩ := Prod.mk.inj (Option.some.inj hs)
      exact h.signal n
  | deliver n =>
      obtain ⟨⟨-, hpending⟩, hs⟩ := Option.ite_none_right_eq_some.mp hs
      exact h.deliver hpending hs
  | notify n =>
      obtain ⟨-, hs⟩ := Option.ite_none_right_eq_some.mp hs
      exact h.notify hs
  | stop => exact h.stop hs
  | timedOut =>
      simp only [control] at hs
      split at hs
      · cases hs
      · rename_i f rest hstops
        obtain ⟨hf, -⟩ := List.forall_mem_cons.mp (hstops ▸ h.waits)
        split_ifs at hs with hkilling
        · obtain ⟨rfl, rfl⟩ := Prod.mk.inj (Option.some.inj hs)
          exact h.returned hstops (.inl (hf.killing hkilling))
        · obtain ⟨rfl, rfl⟩ := Prod.mk.inj (Option.some.inj hs)
          exact h.timedOut hstops
  | finished =>
      simp only [control] at hs
      split at hs
      · cases hs
      · rename_i f rest hstops
        obtain ⟨hf, -⟩ := List.forall_mem_cons.mp (hstops ▸ h.waits)
        obtain ⟨c, hc⟩ := hf.child
        obtain ⟨hleft, rfl, rfl⟩ := Machine.taken_if hs
        exact h.returned hstops (.inr (h.left hc hleft))

end Controls

/-! ### Runs -/

theorem run_controls {G : List StopObs → Controlled → Control → Prop}
    (h : controlled.Run G tr s) : Controls tr s :=
  h.invariant Controls.initial fun hi _ hs => hi.step hs

theorem systems_signal (n : ℕ) (s : Controlled) : systems (s.signal n).2 = [] := by
  unfold Controlled.signal
  split_ifs <;> rfl

/-- A step under control is one of the host and its children, or none to them. -/
theorem control_moves (hs : control s a = some (s', os)) :
    machine.Moves s.system (systems os) s'.system := by
  have hbase : ∀ {b t es}, s.base b = some (t, es) →
      machine.Moves s.system (systems es) t.system := by
    intro b t es hb
    obtain ⟨system, os', hstep, rfl, rfl⟩ := base_step hb
    exact .inr ⟨b, by rw [systems_map]; exact hstep⟩
  cases a with
  | system b =>
      obtain ⟨-, hs⟩ := Option.ite_none_right_eq_some.mp hs
      exact hbase hs
  | install n piped =>
      obtain ⟨-, rfl, rfl⟩ := Machine.taken_if hs
      exact .inl ⟨rfl, by cases piped <;> rfl⟩
  | signal n =>
      obtain ⟨rfl, rfl⟩ := Prod.mk.inj (Option.some.inj hs)
      exact .inl ⟨signal_system n s, systems_signal n s⟩
  | deliver n =>
      obtain ⟨-, hs⟩ := Option.ite_none_right_eq_some.mp hs
      unfold Controlled.deliver at hs
      dsimp only at hs
      split_ifs at hs
      · obtain ⟨rfl, rfl⟩ := Prod.mk.inj (Option.some.inj hs)
        exact .inl ⟨rfl, rfl⟩
      · obtain ⟨⟨t, es⟩, hdie, he⟩ := Option.map_eq_some_iff.mp hs
        obtain ⟨rfl, rfl⟩ := Prod.mk.inj he
        obtain ⟨system, os', hstep, rfl, rfl⟩ := base_step hdie
        have hseen : systems (.ended n :: os'.map .system) = os' := systems_map os'
        rw [hseen]
        exact .inr ⟨.move n (.die 15), hstep⟩
  | notify n =>
      obtain ⟨-, hs⟩ := Option.ite_none_right_eq_some.mp hs
      unfold Controlled.notify at hs
      dsimp only at hs
      split_ifs at hs
      · obtain ⟨system, os', hstep, rfl, rfl⟩ := base_step hs
        rw [systems_map]
        exact .inr ⟨.move n .quit, hstep⟩
      · obtain ⟨rfl, rfl⟩ := Prod.mk.inj (Option.some.inj hs)
        exact .inl ⟨rfl, rfl⟩
  | stop =>
      simp only [control, Controlled.stop] at hs
      split at hs
      · exact hbase hs
      · obtain ⟨⟨t, es⟩, hstop, he⟩ := Option.map_eq_some_iff.mp hs
        obtain ⟨rfl, rfl⟩ := Prod.mk.inj he
        obtain ⟨system, os', hstep, rfl, rfl⟩ := base_step hstop
        rw [systems_append, systems_map, systems_signal, List.append_nil, signal_system]
        exact .inr ⟨.stop, hstep⟩
  | timedOut =>
      simp only [control] at hs
      split at hs
      · cases hs
      · split_ifs at hs
        · obtain ⟨rfl, rfl⟩ := Prod.mk.inj (Option.some.inj hs)
          exact .inl ⟨rfl, rfl⟩
        · obtain ⟨rfl, rfl⟩ := Prod.mk.inj (Option.some.inj hs)
          exact .inl ⟨rfl, rfl⟩
  | finished =>
      simp only [control] at hs
      split at hs
      · cases hs
      · obtain ⟨-, rfl, rfl⟩ := Machine.taken_if hs
        exact .inl ⟨rfl, rfl⟩

/-- What happens to the host and its children under control is a run of theirs. -/
theorem run_system (h : controlled.Run Machine.always tr s) :
    machine.Run Machine.always (systems tr) s.system := by
  have hsimulated : ∃ t, machine.Run Machine.always (tr.flatMap StopObs.seen) t ∧ t = s.system :=
    Machine.Run.simulates (R := fun _ s t => t = s.system) rfl
      (fun ht _ hs => ⟨_, ht ▸ control_moves hs, rfl⟩) h
  obtain ⟨t, hrun, rfl⟩ := hsimulated
  exact hrun

/-! ### Where a signal is -/

/-- The host and its children forget no signal. -/
theorem Kept.base {b : Action} {system : System} {os : List Obs} (h : Kept n s)
    (hsound : Sound (systems tr) s.system) (hs : UiHost.step s.system b = some (system, os)) :
    Kept n { s with system } := by
  refine h.imp_left fun hasked => ?_
  obtain ⟨c, hc, hwas⟩ := (Option.any_eq_true ..).mp hasked
  obtain ⟨c', hc', hstays⟩ := (stepped hsound hs).lives hc
  exact (Option.any_eq_true ..).mpr ⟨c', hc', hstays hwas⟩

/-- A plugin that quits or dies has nothing to be told any more. -/
theorem kept_after {move : Move} {system : System} {os : List Obs}
    (hs : UiHost.step s.system (.move n move) = some (system, os))
    (hmove : move = .quit ∨ ∃ code, move = .die code) : Kept n { s with system } := by
  left
  cases hc : system.child n with
  | none =>
      simp only [UiHost.step] at hs
      split at hs
      · obtain ⟨done, -, he⟩ := Option.map_eq_some_iff.mp hs
        obtain ⟨rfl, -⟩ := Prod.mk.inj he
        simp at hc
      · cases hs
  | some c => simpa [hc] using asked_after hs hmove hc

theorem Kept.signal (h : Kept n s) (m : ℕ) : Kept n (s.signal m).1 := by
  unfold Controlled.signal
  split_ifs
  · refine h.imp_right (Or.imp_left fun hp => ?_)
    dsimp only
    rw [Function.update_apply, hp, ite_self]
  · exact h

theorem Kept.deliver {m : ℕ} (h : Kept n s) (hsound : Sound (systems tr) s.system)
    (hs : s.deliver m = some (s', os)) : Kept n s' := by
  unfold Controlled.deliver at hs
  dsimp only at hs
  split_ifs at hs
  · obtain ⟨rfl, -⟩ := Prod.mk.inj (Option.some.inj hs)
    obtain rfl | hn := eq_or_ne n m
    · exact .inr (.inr (by simp))
    · simpa [Kept, Function.update_of_ne hn] using h
  · obtain ⟨done, hbase, he⟩ := Option.map_eq_some_iff.mp hs
    obtain ⟨rfl, -⟩ := Prod.mk.inj he
    obtain ⟨system, os', hstep, hdone, -⟩ := base_step hbase
    rw [hdone]
    obtain rfl | hn := eq_or_ne n m
    · exact kept_after hstep (.inr ⟨15, rfl⟩)
    · exact Kept.base (by simpa [Kept, Function.update_of_ne hn] using h) hsound hstep

/-- The notifier of a child forgets its own signal only, and only where nobody hears of it. -/
theorem notify_keeps {m : ℕ} (hsound : Sound (systems tr) s.system)
    (hs : s.notify m = some (s', os)) :
    (n ≠ m → Kept n s → Kept n s') ∧ (Kept m s' ↔ Heard tr s (.notify m) ∨
      (s.system.child m).any (·.phase.asked) = true) := by
  unfold Controlled.notify at hs
  dsimp only at hs
  have hother : n ≠ m → Kept n s → Kept n { s with pipe := Function.update s.pipe m 0 } := by
    intro hn h
    simpa [Kept, Function.update_of_ne hn] using h
  split_ifs at hs with hphase
  · obtain ⟨system, os', hstep, rfl, -⟩ := base_step hs
    have hkept : Kept m { s with system, pipe := Function.update s.pipe m 0 } :=
      kept_after (s := { s with pipe := Function.update s.pipe m 0 }) hstep (.inl rfl)
    exact ⟨fun hn h => (hother hn h).base hsound hstep, iff_of_true hkept (.inl (.inl hphase))⟩
  · obtain ⟨rfl, -⟩ := Prod.mk.inj (Option.some.inj hs)
    refine ⟨hother, ?_⟩
    have hnot : s.phase m ≠ some .executing := hphase
    have hunloading : s.phase m = some .unloading →
        (s.system.child m).any (·.phase.asked) = true := by
      intro hu
      obtain ⟨c, hc, hcu⟩ := Option.map_eq_some_iff.mp hu
      simp [hc, hcu, Phase.asked]
    simp only [Kept, Heard, hnot, Function.update_self, Nat.lt_irrefl, or_false, false_or]
    tauto

theorem step_signals (hs : control s a = some (s', os)) (hm : .signalled n ∈ os) : Kept n s' := by
  have hsignal : ∀ {t : Controlled} {m : ℕ}, .signalled n ∈ (t.signal m).2 →
      Kept n (t.signal m).1 := by
    intro t m hm
    unfold Controlled.signal at hm ⊢
    split_ifs at hm ⊢
    · obtain rfl := StopObs.signalled.inj (List.mem_singleton.mp hm)
      exact .inr (.inl (by simp))
    · cases hm
  have hbase : ∀ {b : Action} {t t' : Controlled} {es : List StopObs},
      t.base b = some (t', es) → .signalled n ∉ es := by
    intro b t t' es hb
    obtain ⟨system, os', hstep, -, rfl⟩ := base_step hb
    simp
  cases a with
  | system b =>
      obtain ⟨-, hs⟩ := Option.ite_none_right_eq_some.mp hs
      exact absurd hm (hbase hs)
  | install m piped =>
      obtain ⟨-, -, rfl⟩ := Machine.taken_if hs
      cases piped <;> simp at hm
  | signal m =>
      obtain ⟨rfl, rfl⟩ := Prod.mk.inj (Option.some.inj hs)
      exact hsignal hm
  | deliver m =>
      obtain ⟨-, hs⟩ := Option.ite_none_right_eq_some.mp hs
      unfold Controlled.deliver at hs
      dsimp only at hs
      split_ifs at hs
      · obtain ⟨-, rfl⟩ := Prod.mk.inj (Option.some.inj hs)
        cases hm
      · obtain ⟨done, hdie, he⟩ := Option.map_eq_some_iff.mp hs
        obtain ⟨-, rfl⟩ := Prod.mk.inj he
        exact absurd ((List.mem_cons.mp hm).resolve_left (by simp)) (hbase hdie)
  | notify m =>
      obtain ⟨-, hs⟩ := Option.ite_none_right_eq_some.mp hs
      unfold Controlled.notify at hs
      dsimp only at hs
      split_ifs at hs
      · exact absurd hm (hbase hs)
      · obtain ⟨-, rfl⟩ := Prod.mk.inj (Option.some.inj hs)
        cases hm
  | stop =>
      simp only [control, Controlled.stop] at hs
      split at hs
      · exact absurd hm (hbase hs)
      · obtain ⟨done, hstop, he⟩ := Option.map_eq_some_iff.mp hs
        obtain ⟨rfl, rfl⟩ := Prod.mk.inj he
        obtain hm | hm := List.mem_append.mp hm
        · exact absurd hm (hbase hstop)
        · exact hsignal hm
  | timedOut =>
      simp only [control] at hs
      split at hs
      · cases hs
      · split_ifs at hs <;> obtain ⟨-, rfl⟩ := Prod.mk.inj (Option.some.inj hs) <;> simp at hm
  | finished =>
      simp only [control] at hs
      split at hs
      · cases hs
      · obtain ⟨-, -, rfl⟩ := Machine.taken_if hs
        simp at hm

/-- Every other step keeps the signals where they are. -/
theorem step_keeps (hsound : Sound (systems tr) s.system) (ha : ∀ m, a ≠ .notify m)
    (hs : control s a = some (s', os)) (h : Kept n s) : Kept n s' := by
  cases a with
  | system b =>
      obtain ⟨-, hs⟩ := Option.ite_none_right_eq_some.mp hs
      obtain ⟨system, os', hstep, rfl, -⟩ := base_step hs
      exact h.base hsound hstep
  | install m piped =>
      obtain ⟨-, rfl, -⟩ := Machine.taken_if hs
      exact h
  | signal m =>
      obtain ⟨rfl, -⟩ := Prod.mk.inj (Option.some.inj hs)
      exact h.signal m
  | deliver m =>
      obtain ⟨-, hs⟩ := Option.ite_none_right_eq_some.mp hs
      exact h.deliver hsound hs
  | notify m => exact absurd rfl (ha m)
  | stop =>
      simp only [control, Controlled.stop] at hs
      split at hs
      · obtain ⟨system, os', hstep, rfl, -⟩ := base_step hs
        exact h.base hsound hstep
      · obtain ⟨done, hstop, he⟩ := Option.map_eq_some_iff.mp hs
        obtain ⟨rfl, -⟩ := Prod.mk.inj he
        obtain ⟨system, os', hstep, hdone, -⟩ := base_step hstop
        rw [hdone]
        have hwaits : ∀ m, Kept n { s with stops := { child := m } :: s.stops } := fun _ => h
        exact Kept.signal ((hwaits _).base hsound hstep) _
  | timedOut =>
      simp only [control] at hs
      split at hs
      · cases hs
      · split_ifs at hs <;> obtain ⟨rfl, -⟩ := Prod.mk.inj (Option.some.inj hs) <;> exact h
  | finished =>
      simp only [control] at hs
      split at hs
      · cases hs
      · obtain ⟨-, rfl, -⟩ := Machine.taken_if hs
        exact h

/-- A step loses no signal exactly if the notifier is heard. -/
theorem Controls.preserved_iff (h : Controls tr s) (hpreserved : Preserved tr s)
    (hs : control s a = some (s', os)) : Preserved (tr ++ os) s' ↔ Heard tr s a := by
  have hsuffices : (∀ n, .signalled n ∈ tr → Kept n s') → Preserved (tr ++ os) s' := by
    intro hall n hm
    obtain hm | hm := List.mem_append.mp hm
    · exact hall n hm
    · exact step_signals hs hm
  cases a with
  | notify m =>
      obtain ⟨⟨hloops, hpipe⟩, hnotify⟩ := Option.ite_none_right_eq_some.mp hs
      have hown : Kept m s' ↔ Heard tr s (.notify m) := by
        rw [(notify_keeps (n := m) h.sound hnotify).2, or_iff_left_iff_imp]
        -- a loop turns, so what was asked to unload is at it
        intro hasked
        obtain ⟨c, hc, hplugged⟩ := (Option.any_eq_true ..).mp hloops
        rw [hc, Option.any_some] at hasked
        refine .inr (.inl ?_)
        cases hphase : c.phase <;>
          simp_all [Child.plugged, Phase.asked, Controlled.phase]
      rw [← hown]
      constructor
      · intro hafter
        exact hafter m (List.mem_append_left _ (h.sent m (.inr hpipe)))
      · intro hkept
        refine hsuffices fun n hm => ?_
        obtain rfl | hn := eq_or_ne n m
        · exact hkept
        · exact (notify_keeps h.sound hnotify).1 hn (hpreserved n hm)
  | _ =>
      refine iff_of_true (hsuffices fun n hm => ?_) trivial
      exact step_keeps h.sound (by simp) hs (hpreserved n hm)

/-- The next things that happen to the signal ask the plugin to unload. -/
def Heeds (n : ℕ) (s : Controlled) : Prop :=
  ∃ t, (t = s ∨ control s (.deliver n) = some (t, [])) ∧
    ∃ u os, control t (.notify n) = some (u, os) ∧ .system (.child n .aboutToUnload) ∈ os

theorem notified {c : Child} (hc : s.system.child n = some c) (hphase : c.phase = .executing)
    (hpipe : 0 < s.pipe n) :
    ∃ u os, control s (.notify n) = some (u, os) ∧ .system (.child n .aboutToUnload) ∈ os := by
  have hloops : s.loops n = true := by simp [Controlled.loops, hc, Child.plugged, hphase]
  have hexecuting : s.phase n = some .executing := by simp [Controlled.phase, hc, hphase]
  have hquit : c.move .quit = some ({ c with phase := .unloading }, [.aboutToUnload]) := by
    simp [Child.move, hphase]
  rw [control, if_pos ⟨hloops, hpipe⟩, Controlled.notify, if_pos (by exact hexecuting)]
  simp only [Controlled.base, UiHost.step, hc, hquit, Option.map_some]
  exact ⟨_, _, rfl, by simp⟩

theorem Controls.heeds (h : Controls tr s) (hkept : Kept n s) (hphase : s.phase n = some .executing)
    (hpiped : .unpiped n ∉ tr) : Heeds n s := by
  obtain ⟨c, hc, hexecuting⟩ := Option.map_eq_some_iff.mp hphase
  have harmed : s.handlers n ≠ none := h.armed n c hc (by rw [hexecuting]; rfl)
  have hhandlers : s.handlers n = some true := by
    obtain ⟨piped, hset⟩ := Option.ne_none_iff_exists'.mp harmed
    cases piped with
    | true => exact hset
    | false => exact absurd (h.unpiped n hset) hpiped
  obtain hasked | hpending | hpipe := hkept
  · simp [hc, Phase.asked, hexecuting] at hasked
  · have hruns : s.runs n = true := by simp [Controlled.runs, hc, hexecuting, Phase.isExited]
    let t : Controlled := { s with
      pending := Function.update s.pending n false
      pipe := Function.update s.pipe n (s.pipe n + 1) }
    have hdeliver : control s (.deliver n) = some (t, []) := by
      rw [control, if_pos ⟨hruns, hpending⟩]
      exact if_pos hhandlers
    have hpipe : 0 < t.pipe n := by simp [t]
    have hchild : t.system.child n = some c := hc
    exact ⟨t, .inr hdeliver, notified hchild hexecuting hpipe⟩
  · exact ⟨s, .inl rfl, notified hc hexecuting hpipe⟩

/-- **When a termination signal is lost**, however the host, its children, the signals and the calls
of `stop` interleave: as long as the plugin of its child was not asked to unload, it waits for its
delivery or is a byte in the pipe, exactly along the runs in which the notifier fires in the loop of
the application, after it or while another signal waits; then that loop has the plugin asked.  In
every run it ends no child that has loaded a plugin, if `pipe()` worked, and `stop` kills only a
child that was asked to go before and returns only when the child is gone or was killed. -/
theorem termination_is_not_lost (tr : List StopObs) (s : Controlled) :
    (controlled.Run Machine.always tr s →
      machine.Run Machine.always (systems tr) s.system ∧ Machine.Each Due tr) ∧
    (controlled.Run Heard tr s → ∀ n, .signalled n ∈ tr → Kept n s ∧
      (s.phase n = some .executing → .unpiped n ∉ tr → Heeds n s)) ∧
    (controlled.Run (controlled.keeps Preserved) tr s → controlled.Run Heard tr s) := by
  obtain ⟨hkept, hheard⟩ := Machine.Run.exact_always (M := controlled) (C := Heard)
    (P := Preserved) (fun n hm => by cases hm) fun hrun hpreserved hs =>
      (run_controls hrun).preserved_iff hpreserved hs
  refine ⟨fun h => ⟨run_system h, (run_controls h).order⟩, fun h n hm => ?_, hheard tr s⟩
  exact ⟨hkept tr s h n hm, (run_controls h).heeds (hkept tr s h n hm)⟩

/-- A child that unloads its plugin during a second `stop`, one that the signal finds too early and
one that is too busy to hear it in time. -/
theorem one_unloads_one_ends_one_is_killed : ∃ tr s, controlled.Run Heard tr s ∧
    Machine.Each Due tr ∧ .system (.child 0 .deleted) ∈ tr ∧ .returned 0 ∈ tr ∧ .ended 1 ∈ tr ∧
    .killed 2 ∈ tr ∧ Heeds 2 s := by
  obtain ⟨tr, s, h, ⟨hdeleted, hreturned, hended, hkilled, hsignalled⟩, hpiped, hphase⟩ :=
    Machine.exec_any (M := controlled) (G := Heard)
    [.system (.spawn "wallet" "wallet.so" "token" succeeds), .install 0 true,
      .system (.move 0 .parse), .system (.connect 0), .system (.newConnection 0),
      .system (.move 0 .readToken), .system (.move 0 (.load true)),
      .system (.move 0 (.instantiate true true)),
      .system (.move 0 (.remote ⟨true, true, true, true⟩)), .system (.move 0 (.remoteModels [])),
      .stop, .deliver 0, .system (.readyRead 6), .stop, .notify 0, .system .ret,
      .system (.move 0 (.unload 0)), .system .finished, .finished, .finished,
      .system (.spawn "notes" "notes.so" "token" succeeds), .stop, .deliver 1, .system .finished,
      .finished,
      .system (.spawn "chat" "chat.so" "token" succeeds), .install 2 true,
      .system (.move 2 .parse), .system (.connect 2), .system (.newConnection 2),
      .system (.move 2 .readToken), .system (.move 2 (.load true)),
      .system (.move 2 (.instantiate true true)),
      .system (.move 2 (.remote ⟨true, true, true, true⟩)), .system (.move 2 (.remoteModels [])),
      .stop, .timedOut]
    (p := fun tr s => (StopObs.system (.child 0 .deleted) ∈ tr ∧ StopObs.returned 0 ∈ tr ∧
      StopObs.ended 1 ∈ tr ∧ StopObs.killed 2 ∈ tr ∧ StopObs.signalled 2 ∈ tr) ∧
      StopObs.unpiped 2 ∉ tr ∧ s.phase 2 = some .executing) (by decide +kernel)
  obtain ⟨hruns, hkept, -⟩ := termination_is_not_lost tr s
  obtain ⟨-, horder⟩ := hruns (h.mono fun _ _ _ _ => trivial)
  obtain ⟨-, hheeds⟩ := hkept h 2 hsignalled
  exact ⟨tr, s, h, horder, hdeleted, hreturned, hended, hkilled, hheeds hphase hpiped⟩

end LogosViewRuntime.UiHost
