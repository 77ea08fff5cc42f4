import LogosViewRuntime.ViewModuleHost

/-! # The token server of a child

A successful `spawn` leaves its token server listening until a connection is served.  A start that
fails closes the server; a child that exits does not, so if nobody has connected by then the server
goes on listening with the token of a child that is gone, past the next `spawn`, which overwrites
the only pointer to it. -/

namespace LogosViewRuntime.ViewModuleHost

open Reactive

def Host.listening (n : ℕ) (s : Host) : Prop := (s.server n).listening = true

/-- How often a server wrote its token. -/
def writes (n : ℕ) (tr : List Obs) : ℕ := tr.countP fun
  | .tokenWritten m _ => m = n
  | _ => false

@[simp] theorem writes_append (n : ℕ) (tr os : List Obs) :
    writes n (tr ++ os) = writes n tr + writes n os := List.countP_append

/-- A token is offered only by the server of the running child, and to one connection only. -/
structure Guarded (tr : List Obs) (s : Host) : Prop where
  one : ∀ m n, s.listening m → s.listening n → m = n
  owned : ∀ n, s.listening n → s.process = some n
  once : ∀ n, writes n tr ≤ 1
  silent : s.process = none → ∀ n, ¬ s.listening n

/-- A child exits after its token server was closed. -/
def ExitsServed (_ : List Obs) (s : Host) : Action → Prop
  | .finished _ => ∀ n, s.process = some n → ¬ s.listening n
  | _ => True

instance (n : ℕ) (s : Host) : Decidable (s.listening n) :=
  inferInstanceAs (Decidable ((s.server n).listening = true))

instance (tr : List Obs) (s : Host) : (a : Action) → Decidable (ExitsServed tr s a)
  | .finished _ =>
      match h : s.process with
      | none => isTrue fun n hn => by rw [h] at hn; cases hn
      | some n => decidable_of_iff (¬ s.listening n)
          ⟨fun hn m hm => Option.some.inj (h.symm.trans hm) ▸ hn, fun hall => hall n h⟩
  | .spawn .. | .stop | .connect _ | .newConnection _ | .readyRead _ | .ret =>
      inferInstanceAs (Decidable True)

/-! ### What a step does to the servers -/

/-- No child or server comes up. -/
structure Quiet (s s' : Host) : Prop where
  process : s'.process = s.process
  created : s.created ≤ s'.created
  listening : ∀ n, s'.listening n → s.listening n

inductive Effect (s : Host) : Action → Host × List Obs → Prop
  | quiet {a : Action} {s' : Host} {os : List Obs} (hquiet : Quiet s s')
      (hos : ∀ n, writes n os = 0) (ha : ∀ exitCode, a ≠ .finished exitCode) : Effect s a (s', os)
  | launched {a : Action} {s' : Host} {os : List Obs} (hidle : s.process = none)
      (hprocess : s'.process = some s.created) (hcreated : s'.created = s.created + 1)
      (hlistening : ∀ n, s'.listening n → n = s.created ∨ s.listening n)
      (hos : ∀ n, writes n os = 0) (ha : ∀ exitCode, a ≠ .finished exitCode) : Effect s a (s', os)
  | handed {n : ℕ} {s' : Host} (token : String) (hwas : s.listening n) (hquiet : Quiet s s')
      (hclosed : ¬ s'.listening n) : Effect s (.newConnection n) (s', [.tokenWritten n token])
  | finished {exitCode : ℤ} (hprocess : s.process ≠ none) :
      Effect s (.finished exitCode) (s.finished exitCode)

variable {tr os : List Obs} {s s' : Host} {a : Action}

/-- What the loop leaves alone. -/
theorem parse_quiet {fuel : ℕ} (h : s.parse fuel = some (s', os)) :
    s'.process = s.process ∧ s'.created = s.created ∧ s'.server = s.server ∧
      ∀ n, writes n os = 0 := by
  induction fuel generalizing s with
  | zero =>
      rw [Host.parse] at h
      split_ifs at h
      obtain ⟨rfl, rfl⟩ := Prod.mk.inj (Option.some.inj h)
      exact ⟨rfl, rfl, rfl, fun _ => rfl⟩
  | succ fuel ih =>
      rw [Host.parse] at h
      dsimp only at h
      split_ifs at h
      · obtain ⟨rfl, rfl⟩ := Prod.mk.inj (Option.some.inj h)
        exact ⟨rfl, rfl, rfl, fun _ => rfl⟩
      · have hrest := ih h
        exact hrest
      · obtain ⟨rfl, rfl⟩ := Prod.mk.inj (Option.some.inj h)
        exact ⟨rfl, rfl, rfl, fun _ => rfl⟩

theorem listening_setServer {n m : ℕ} {server : TokenServer} {s : Host} :
    (s.setServer n server).listening m ↔
      if m = n then server.listening = true else s.listening m := by
  unfold Host.listening Host.setServer
  by_cases h : m = n
  · rw [h]
    simp
  · simp [h]

/-- `t` is `s` after `spawn` has reset the buffer. -/
theorem launch_effect {t : Host} (pluginPath authToken : String) (outcome : Outcome)
    (os : List Obs) (hidle : s.process = none) (hprocess : t.process = none)
    (hcreated : t.created = s.created) (hserver : t.server = s.server)
    (hos : ∀ n, writes n os = 0) (ha : ∀ exitCode, a ≠ .finished exitCode) :
    Effect s a ((t.launch pluginPath authToken outcome).1,
      os ++ (t.launch pluginPath authToken outcome).2) := by
  have hlistening : ∀ n, t.listening n → s.listening n := by
    intro n h
    rwa [Host.listening, hserver] at h
  have hwrites : ∀ n, writes n (os ++ (t.launch pluginPath authToken outcome).2) = 0 := by
    intro n
    rw [writes_append, hos n]
    simp only [Host.launch]
    split_ifs <;> rfl
  simp only [Host.launch, hcreated] at hwrites ⊢
  split_ifs at hwrites ⊢
  · exact .quiet ⟨hprocess.trans hidle.symm, Nat.le_succ _, hlistening⟩ hwrites ha
  · refine .quiet ⟨hidle.symm, Nat.le_succ _, fun n h => hlistening n ?_⟩ hwrites ha
    rw [listening_setServer] at h
    split_ifs at h
    exact h
  · refine .launched hidle rfl rfl (fun n h => ?_) hwrites ha
    rw [listening_setServer] at h
    split_ifs at h with hn
    · exact .inl hn
    · exact .inr (hlistening n h)

theorem spawn_effect (moduleName pluginPath authToken : String) (outcome : Outcome)
    (ha : ∀ exitCode, a ≠ .finished exitCode) :
    Effect s a (s.spawn moduleName pluginPath authToken outcome) := by
  unfold Host.spawn
  dsimp only
  split_ifs with hrunning
  · exact .quiet ⟨rfl, Nat.le_refl _, fun _ h => h⟩ (fun _ => rfl) ha
  · exact .quiet ⟨rfl, Nat.le_refl _, fun _ h => h⟩ (fun _ => rfl) ha
  · exact .quiet ⟨rfl, Nat.le_refl _, fun _ h => h⟩ (fun _ => rfl) ha
  · have hidle : s.process = none := by simpa using hrunning
    exact launch_effect pluginPath authToken outcome [.spawning moduleName] hidle hidle rfl rfl
      (fun _ => rfl) ha

theorem step_effect (hs : step s a = some (s', os)) : Effect s a (s', os) := by
  cases a with
  | spawn moduleName pluginPath authToken outcome =>
      rw [← Option.some.inj hs]
      exact spawn_effect _ _ _ _ (by simp)
  | stop =>
      rw [← Option.some.inj hs]
      unfold Host.stop
      split
      · exact .quiet ⟨rfl, Nat.le_refl _, fun _ h => h⟩ (fun _ => rfl) (by simp)
      · exact .quiet ⟨rfl, Nat.le_refl _, fun _ h => h⟩ (fun _ => rfl) (by simp)
  | connect n =>
      obtain ⟨hlistening, rfl, rfl⟩ := Machine.taken_if hs
      refine .quiet ⟨rfl, Nat.le_refl _, fun m h => ?_⟩ (fun _ => rfl) (by simp)
      rw [listening_setServer] at h
      split_ifs at h with hm
      · rw [hm]
        exact hlistening
      · exact h
  | newConnection n =>
      obtain ⟨hlistening, rfl, rfl⟩ := Machine.taken_if hs
      unfold Host.newConnection
      dsimp only
      split
      · exact .quiet ⟨rfl, Nat.le_refl _, fun _ h => h⟩ (fun _ => rfl) (by simp)
      · refine .handed _ hlistening ⟨rfl, Nat.le_refl _, fun m h => ?_⟩ ?_
        · rw [listening_setServer] at h
          split_ifs at h
          exact h
        · simp [listening_setServer]
  | readyRead chunk =>
      obtain ⟨-, hs⟩ := Option.ite_none_right_eq_some.mp hs
      obtain ⟨parsed, hparse, he⟩ := Option.map_eq_some_iff.mp hs
      obtain ⟨rfl, rfl⟩ := Prod.mk.inj he
      obtain ⟨hprocess, hcreated, hserver, hos⟩ := parse_quiet hparse
      refine .quiet ⟨hprocess, hcreated.ge, fun n h => ?_⟩ hos (by simp)
      rwa [Host.listening, hserver] at h
  | finished exitCode =>
      obtain ⟨hprocess, rfl, rfl⟩ := Machine.taken_if hs
      exact .finished hprocess
  | ret =>
      simp only [step, Host.ret] at hs
      split at hs
      · cases hs
      · obtain ⟨hprocess, hcreated, hserver, hos⟩ := parse_quiet hs
        refine .quiet ⟨hprocess, hcreated.ge, fun n h => ?_⟩ hos (by simp)
        rwa [Host.listening, hserver] at h

/-! ### Runs -/

/-- What is known of the servers whatever the children do. -/
structure Served (tr : List Obs) (s : Host) : Prop where
  fresh : ∀ n, s.created ≤ n → ¬ s.listening n ∧ writes n tr = 0
  unwritten : ∀ n, s.listening n → writes n tr = 0
  once : ∀ n, writes n tr ≤ 1

namespace Served

theorem initial : Served [] {} where
  fresh _ _ := ⟨by simp [Host.listening], rfl⟩
  unwritten _ _ := rfl
  once _ := Nat.zero_le _

theorem step (h : Served tr s) (hs : ViewModuleHost.step s a = some (s', os)) :
    Served (tr ++ os) s' := by
  cases step_effect hs with
  | quiet hquiet hos =>
      refine ⟨fun n hn => ?_, fun n hn => ?_, fun n => ?_⟩ <;> rw [writes_append, hos n]
      · obtain ⟨hfresh, hwrites⟩ := h.fresh n (Nat.le_trans hquiet.created hn)
        exact ⟨fun hlistening => hfresh (hquiet.listening n hlistening), hwrites⟩
      · exact h.unwritten n (hquiet.listening n hn)
      · exact h.once n
  | launched _ _ hcreated hlistening hos =>
      refine ⟨fun n hn => ?_, fun n hn => ?_, fun n => ?_⟩ <;> rw [writes_append, hos n]
      · rw [hcreated] at hn
        obtain ⟨hfresh, hwrites⟩ := h.fresh n (Nat.le_of_succ_le hn)
        refine ⟨fun hn' => ?_, hwrites⟩
        obtain rfl | hn' := hlistening n hn'
        · exact Nat.not_succ_le_self _ hn
        · exact hfresh hn'
      · obtain rfl | hn := hlistening n hn
        · exact (h.fresh _ (Nat.le_refl _)).2
        · exact h.unwritten n hn
      · exact h.once n
  | @handed m _ token hwas hquiet hclosed =>
      have hm : ∀ n, n ≠ m → writes n [.tokenWritten m token] = 0 := by
        intro n hne
        simp [writes, Ne.symm hne]
      refine ⟨fun n hn => ?_, fun n hn => ?_, fun n => ?_⟩ <;> rw [writes_append]
      · obtain ⟨hfresh, hwrites⟩ := h.fresh n (Nat.le_trans hquiet.created hn)
        have hne : n ≠ m := fun he => hfresh (he ▸ hwas)
        rw [hm n hne]
        exact ⟨fun hlistening => hfresh (hquiet.listening n hlistening), hwrites⟩
      · have hne : n ≠ m := fun he => hclosed (he ▸ hn)
        rw [hm n hne]
        exact h.unwritten n (hquiet.listening n hn)
      · by_cases hne : n = m
        · rw [hne, h.unwritten m hwas]
          simp [writes]
        · rw [hm n hne]
          exact h.once n
  | finished =>
      have hos : ∀ exitCode n, writes n [.processExited exitCode] = 0 := fun _ _ => rfl
      refine ⟨fun n hn => ?_, fun n hn => ?_, fun n => ?_⟩ <;> rw [writes_append, hos]
      · exact h.fresh n hn
      · exact h.unwritten n hn
      · exact h.once n

end Served

theorem run_served {G : List Obs → Host → Action → Prop} (h : machine.Run G tr s) : Served tr s :=
  h.invariant .initial fun hi _ hs => hi.step hs

theorem Guarded.initial : Guarded [] {} where
  one _ _ h := by simp [Host.listening] at h
  owned _ h := by simp [Host.listening] at h
  once _ := Nat.zero_le _
  silent _ _ := by simp [Host.listening]

/-- If every listening server is that of the running child, the rest follows. -/
theorem Guarded.of_owned (hserved : Served tr s) (howned : ∀ n, s.listening n → s.process = some n) :
    Guarded tr s where
  one m n hm hn := Option.some.inj ((howned m hm).symm.trans (howned n hn))
  owned := howned
  once := hserved.once
  silent hidle n hn := by
    rw [hidle] at howned
    cases howned n hn

/-- Only an exit can leave a server behind. -/
theorem exitsServed_of_ne (ha : ∀ exitCode, a ≠ .finished exitCode) : ExitsServed tr s a := by
  cases a with
  | finished exitCode => exact absurd rfl (ha exitCode)
  | _ => trivial

theorem guarded_step (hserved : Served tr s) (h : Guarded tr s) (hs : step s a = some (s', os)) :
    Guarded (tr ++ os) s' ↔ ExitsServed tr s a := by
  have hserved' := hserved.step hs
  cases step_effect hs with
  | quiet hquiet hos ha =>
      refine iff_of_true (.of_owned hserved' fun n hn => ?_) (exitsServed_of_ne ha)
      rw [hquiet.process]
      exact h.owned n (hquiet.listening n hn)
  | launched hidle hprocess _ hlistening _ ha =>
      refine iff_of_true (.of_owned hserved' fun n hn => ?_) (exitsServed_of_ne ha)
      obtain rfl | hn := hlistening n hn
      · exact hprocess
      · exact absurd hn (h.silent hidle n)
  | handed _ _ hquiet =>
      refine iff_of_true (.of_owned hserved' fun n hn => ?_) trivial
      rw [hquiet.process]
      exact h.owned n (hquiet.listening n hn)
  | finished hprocess =>
      constructor
      · intro hguarded n _ hn
        exact hguarded.silent rfl n hn
      · intro hexits
        refine .of_owned hserved' fun n hn => ?_
        exact absurd hn (hexits n (h.owned n hn))

/-- A token is offered only by the server of the running child and to one connection, at every
moment of a run, if and only if each child exits after its token server was closed. -/
theorem guarded_iff_exits_served (tr : List Obs) (s : Host) :
    (machine.Run ExitsServed tr s → Guarded tr s) ∧
      (machine.Run (machine.keeps Guarded) tr s → machine.Run ExitsServed tr s) := by
  obtain ⟨hguarded, hserved⟩ := Machine.Run.exact_always (M := machine) (C := ExitsServed)
    (P := Guarded) .initial fun hrun h hs => guarded_step (run_served hrun) h hs
  exact ⟨hguarded tr s, hserved tr s⟩

/-- Children that exit before they fetch their token: two servers listen, and no child runs. -/
theorem early_exits_leave_servers :
    ∃ tr s, machine.Run Machine.always tr s ∧ s.process = none ∧ s.listening 0 ∧ s.listening 1 := by
  have h := Machine.exec_run (M := machine) (G := Machine.always)
    [.spawn "wallet" "wallet.so" "token" succeeds, .finished 1,
      .spawn "wallet" "wallet.so" "other" succeeds, .finished 1] rfl
  exact ⟨_, _, h, rfl, rfl, rfl⟩

/-- Two children in turn that fetch their tokens. -/
theorem fetched_tokens_leave_none :
    ∃ tr s, machine.Run ExitsServed tr s ∧ Guarded tr s ∧ writes 0 tr = 1 ∧ writes 1 tr = 1 := by
  have h := Machine.exec_run (M := machine) (G := ExitsServed)
    [.spawn "wallet" "wallet.so" "token" succeeds, .connect 0, .newConnection 0, .finished 0,
      .spawn "wallet" "wallet.so" "other" succeeds, .connect 1, .newConnection 1, .stop,
      .finished 0] rfl
  exact ⟨_, _, h, (guarded_iff_exits_served _ _).1 h, rfl, rfl⟩

end LogosViewRuntime.ViewModuleHost
