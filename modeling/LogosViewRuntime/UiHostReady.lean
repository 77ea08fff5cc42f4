import LogosViewRuntime.UiHostHandshake

/-! # `ready()` and the child it speaks of

The host among its children takes its own steps (`host_step`), so it emits `ready()` for the READY
line of what it read since its last `spawn`; what it read is what its present child printed.  So
`ready()` means that this child holds its token and, if plugins do not print themselves, that its
plugin is remoted and its READY line read to the end (`ready_after_remoting`). -/

namespace LogosViewRuntime.UiHost

open Reactive
open ViewModuleHost (Host QByteArray bytes succeeds stream readies HasReady Knows Unread addRead
  parse_reads step_output)

variable {tr os : List Obs} {s s' : System} {a : Action}

/-- What the host did. -/
def hosts (tr : List Obs) : List ViewModuleHost.Obs :=
  tr.filterMap fun | .host o => some o | _ => none

@[simp] theorem hosts_append (tr os : List Obs) : hosts (tr ++ os) = hosts tr ++ hosts os :=
  List.filterMap_append

@[simp] theorem hosts_host (os : List ViewModuleHost.Obs) : hosts (os.map .host) = os := by
  simp [hosts, List.filterMap_map]

@[simp] theorem hosts_child (n : ℕ) (os : List ChildObs) : hosts (os.map (.child n)) = [] := by
  simp [hosts, List.filterMap_map]

/-! ### What is read -/

/-- What is read but not by the handler of the output. -/
theorem stream_kept {h h' : Host} {b : ViewModuleHost.Action} {os : List ViewModuleHost.Obs}
    (hs : ViewModuleHost.step h b = some (h', os))
    (hb : (∀ m p t o, b ≠ .spawn m p t o) ∧ ∀ chunk, b ≠ .readyRead chunk)
    (total : QByteArray) : os.foldl addRead total = total := by
  cases step_output hs with
  | kept _ _ _ hread => exact hread total
  | reset => exact absurd rfl (hb.1 _ _ _ _)
  | read => exact absurd rfl (hb.2 _)
  | resumed _ hparse => exact parse_reads hparse total

/-- The handler of the output reads its chunk. -/
theorem stream_read {h h' : Host} {chunk : QByteArray} {os : List ViewModuleHost.Obs}
    (hs : ViewModuleHost.step h (.readyRead chunk) = some (h', os)) (total : QByteArray) :
    os.foldl addRead total = total ++ chunk := by
  obtain ⟨-, hs⟩ := Option.ite_none_right_eq_some.mp hs
  obtain ⟨⟨t, done⟩, hparse, he⟩ := Option.map_eq_some_iff.mp hs
  obtain ⟨-, rfl⟩ := Prod.mk.inj he
  rw [List.foldl_cons]
  exact parse_reads hparse _

/-- A child that is started has printed nothing, and nothing of it was read. -/
theorem stream_started {m p t : String} {o : ViewModuleHost.Outcome} {h : Host}
    (hs : System.started (h.spawn m p t o).2 ≠ none) (total : QByteArray) :
    (h.spawn m p t o).2.foldl addRead total = [] := by
  obtain hrefused | ⟨h', os, hspawned, -, -, hread, -⟩ := ViewModuleHost.spawn_cases m p t o h
  · rw [hrefused] at hs
    exact absurd rfl hs
  · rw [hspawned]
    exact hread

/-! ### What a child prints -/

/-- What `main` and the plugin add to the output. -/
theorem move_out {c c' : Child} {move : Move} {os : List ChildObs}
    (hs : c.move move = some (c', os)) :
    c'.stdout = c.stdout ∧ .ready ∉ os ∨
      (∃ data, move = .print data ∧ c.plugged = true ∧ c'.stdout = c.stdout ++ data ∧ os = []) ∨
      c.phase = .listing ∧ c'.stdout = c.stdout ++ bytes "READY\n" ∧ .ready ∈ os := by
  cases move with
  | parse =>
      obtain ⟨-, hs⟩ := Option.ite_none_right_eq_some.mp hs
      split at hs <;> obtain ⟨rfl, rfl⟩ := Prod.mk.inj (Option.some.inj hs)
      · exact .inl ⟨rfl, by simp⟩
      · exact .inl ⟨rfl, by simp⟩
  | refused | timedOut =>
      obtain ⟨-, rfl, rfl⟩ := Machine.taken_if hs
      exact .inl ⟨rfl, by simp [Child.exit]⟩
  | readToken =>
      simp only [Child.move] at hs
      split at hs
      · split_ifs at hs <;> obtain ⟨rfl, rfl⟩ := Prod.mk.inj (Option.some.inj hs)
        · exact .inl ⟨rfl, by simp⟩
        · exact .inl ⟨rfl, by simp⟩
      · cases hs
  | load ok =>
      obtain ⟨-, hs⟩ := Option.ite_none_right_eq_some.mp hs
      split_ifs at hs <;> obtain ⟨rfl, rfl⟩ := Prod.mk.inj (Option.some.inj hs)
      · exact .inl ⟨rfl, by simp⟩
      · exact .inl ⟨rfl, by simp⟩
  | instantiate ok initLogos =>
      obtain ⟨-, hs⟩ := Option.ite_none_right_eq_some.mp hs
      cases ok <;> obtain ⟨rfl, rfl⟩ := Prod.mk.inj (Option.some.inj hs)
      · exact .inl ⟨rfl, by simp⟩
      · exact .inl ⟨rfl, by cases initLogos <;> simp⟩
  | remote remoting =>
      obtain ⟨-, rfl, rfl⟩ := Machine.taken_if hs
      unfold Child.remote
      dsimp only
      generalize (if remoting.viewPlugin && remoting.viewObject then Target.viewObject
        else .plugin) = remoteTarget
      split_ifs
      · exact .inl ⟨rfl, by simp⟩
      · exact .inl ⟨rfl, by simp [Child.exit]⟩
      · exact .inl ⟨rfl, by simp⟩
  | remoteModels properties =>
      obtain ⟨hphase, rfl, rfl⟩ := Machine.taken_if hs
      exact .inr (.inr ⟨hphase, rfl, by simp⟩)
  | print data =>
      obtain ⟨hplugged, rfl, rfl⟩ := Machine.taken_if hs
      exact .inr (.inl ⟨data, rfl, hplugged, rfl, rfl⟩)
  | quit =>
      obtain ⟨-, rfl, rfl⟩ := Machine.taken_if hs
      exact .inl ⟨rfl, by simp⟩
  | unload rc =>
      obtain ⟨-, rfl, rfl⟩ := Machine.taken_if hs
      exact .inl ⟨rfl, by simp [Child.exit]⟩
  | die code =>
      simp only [Child.move] at hs
      split at hs
      · cases hs
      · obtain ⟨rfl, rfl⟩ := Prod.mk.inj (Option.some.inj hs)
        exact .inl ⟨rfl, by simp⟩

/-- What a child printed in a step. -/
inductive Printed (tr os : List Obs) (a : Action) (n : ℕ) (c : Child) : QByteArray → Prop
  | nothing (hready : .child n .ready ∈ tr ++ os ↔ .child n .ready ∈ tr) : Printed tr os a n c []
  | plugin (data : QByteArray) (ha : a = .move n (.print data)) (hplugged : c.plugged = true)
      (hready : .child n .ready ∈ tr ++ os ↔ .child n .ready ∈ tr) : Printed tr os a n c data
  | line (hphase : c.phase = .listing) (hready : .child n .ready ∈ os) :
      Printed tr os a n c (bytes "READY\n")

/-- What the child printed, read or not. -/
def output (tr : List Obs) (c : Child) : QByteArray := stream (hosts tr) ++ c.stdout

/-- A running child was just started, or ran before and printed some more. -/
def Outputs (tr os : List Obs) (s : System) (a : Action) (n : ℕ) (c' : Child) : Prop :=
  output (tr ++ os) c' = [] ∧ .child n .ready ∉ tr ++ os ∨
    ∃ c data, s.host.process = some n ∧ s.child n = some c ∧
      output (tr ++ os) c' = output tr c ++ data ∧ Printed tr os a n c data

/-- A step of the host that reads nothing, and nothing is printed. -/
theorem outputs_host {n : ℕ} {c c' : Child} {h' : Host} {b : ViewModuleHost.Action}
    {done : List ViewModuleHost.Obs} (hn : s.host.process = some n) (hc : s.child n = some c)
    (hstdout : c'.stdout = c.stdout) (hs : ViewModuleHost.step s.host b = some (h', done))
    (hb : (∀ m p t o, b ≠ .spawn m p t o) ∧ ∀ chunk, b ≠ .readyRead chunk)
    (hos : hosts os = done) (hready : .child n .ready ∉ os) : Outputs tr os s a n c' := by
  refine .inr ⟨c, [], hn, hc, ?_, .nothing ?_⟩
  · rw [output, hosts_append, ViewModuleHost.stream_append, hos, stream_kept hs hb, hstdout,
      List.append_nil]
    rfl
  · simp [hready]

theorem spawn_out (h : Sound tr s) {m p t : String} {o : ViewModuleHost.Outcome} {n : ℕ} {c' : Child}
    (hs : s.spawn m p t o = (s', os)) (hn : s'.host.process = some n) (hc' : s'.child n = some c') :
    Outputs tr os s a n c' := by
  cases hprocess : s.host.process with
  | some k =>
      have hrefused : s.host.spawn m p t o = (s.host, [.spawnReturned false]) := by
        rw [Host.spawn, if_pos (by simp [hprocess])]
      rw [System.spawn, hrefused] at hs
      obtain ⟨rfl, rfl⟩ := Prod.mk.inj hs
      refine .inr ⟨c', [], hn, hc', ?_, .nothing (by simp)⟩
      simp [output, addRead, hosts]
  | none =>
      have hspawned := spawned m p t o s.host
      have hread := stream_started (m := m) (p := p) (t := t) (o := o) (h := s.host)
      rw [System.spawn] at hs
      generalize s.host.spawn m p t o = done at hspawned hread hs
      cases hspawned with
      | idle hstarted _ hprocess' =>
          simp only [hstarted] at hs
          obtain ⟨rfl, -⟩ := Prod.mk.inj hs
          rw [hprocess', hprocess] at hn
          cases hn
      | started name socket _ hprocess' _ _ hstarted =>
          simp only [hstarted] at hs
          obtain ⟨rfl, rfl⟩ := Prod.mk.inj hs
          obtain rfl : s.host.created = n := Option.some.inj (hprocess'.symm.trans hn)
          simp only [System.setChild_child, Function.update_self, Option.some.injEq] at hc'
          subst hc'
          refine .inl ⟨?_, by simpa using (h.fresh _ (Nat.le_refl _)).2.2.2 _⟩
          rw [output, hosts_append, hosts_host, ViewModuleHost.stream_append,
            hread (by simp [hstarted])]
          rfl

theorem newConnection_out {m n : ℕ} {c' : Child} (hs : s.newConnection m = some (s', os))
    (hn : s'.host.process = some n) (hc' : s'.child n = some c') : Outputs tr os s a n c' := by
  obtain ⟨⟨h', done⟩, hstep, he⟩ := Option.map_eq_some_iff.mp hs
  have hprocess : h'.process = s.host.process := by
    obtain ⟨-, ⟨-, rfl, -⟩ | ⟨_, -, rfl, -⟩⟩ := newConnected hstep <;> rfl
  have hsame : ∀ {t : System} {os' : List Obs}, t.host.process = h'.process → (t, os') = (s', os) →
      (∃ c, s.child n = some c ∧ c'.stdout = c.stdout) → hosts os' = done →
      .child n .ready ∉ os' → Outputs tr os s a n c' := by
    intro t os' ht heq hchild hos hready
    obtain ⟨rfl, rfl⟩ := Prod.mk.inj heq
    obtain ⟨c, hc, hstdout⟩ := hchild
    exact outputs_host (hprocess ▸ ht ▸ hn) hc hstdout hstep ⟨by simp, by simp⟩ hos hready
  have hserved : ∀ client, hosts (done.map Obs.host ++ [.served m client]) = done := by
    intro client
    rw [hosts_append, hosts_host]
    exact List.append_nil done
  cases hwaiting : s.waiting m with
  | nil =>
      simp only [hwaiting] at he
      refine hsame rfl he ⟨c', ?_, rfl⟩ (hosts_host done) (by simp)
      rw [← (Prod.mk.inj he).1] at hc'
      exact hc'
  | cons client rest =>
      simp only [hwaiting] at he
      cases client with
      | none =>
          refine hsame rfl he ⟨c', ?_, rfl⟩ (hserved none) (by simp)
          rw [← (Prod.mk.inj he).1] at hc'
          exact hc'
      | some k =>
          cases hk : s.child k with
          | none =>
              simp only [hk] at he
              refine hsame rfl he ⟨c', ?_, rfl⟩ (hserved (some k)) (by simp)
              rw [← (Prod.mk.inj he).1] at hc'
              exact hc'
          | some d =>
              simp only [hk] at he
              refine hsame rfl he ?_ (hserved (some k)) (by simp)
              rw [← (Prod.mk.inj he).1] at hc'
              simp only [System.setChild_child, Function.update_apply] at hc'
              split_ifs at hc' with hnk
              · rw [← Option.some.inj hc']
                exact ⟨d, hnk ▸ hk, rfl⟩
              · exact ⟨c', hc', rfl⟩

theorem readyRead_out {k n : ℕ} {c' : Child} (hs : s.readyRead k = some (s', os))
    (hn : s'.host.process = some n) (hc' : s'.child n = some c') : Outputs tr os s a n c' := by
  unfold System.readyRead at hs
  split at hs
  · rename_i m hm
    split at hs
    · rename_i c hc
      obtain ⟨⟨h', done⟩, hstep, he⟩ := Option.map_eq_some_iff.mp hs
      obtain ⟨rfl, rfl⟩ := Prod.mk.inj he
      obtain ⟨-, -, hprocess, -⟩ := server_eq hstep (.inl ⟨_, rfl⟩)
      obtain rfl : m = n := Option.some.inj ((hm.symm.trans hprocess.symm).trans hn)
      simp only [System.setChild_child, Function.update_self, Option.some.injEq] at hc'
      subst hc'
      refine .inr ⟨c, [], hm, hc, ?_, .nothing (by simp)⟩
      rw [output, hosts_append, hosts_host, ViewModuleHost.stream_append, stream_read hstep]
      simp [output]
    · cases hs
  · cases hs

theorem connect_out {m n : ℕ} {c' : Child} (hs : s.connect m = some s')
    (hn : s'.host.process = some n) (hc' : s'.child n = some c') : Outputs tr [] s a n c' := by
  unfold System.connect at hs
  split at hs
  · rename_i c hc
    split_ifs at hs
    split at hs
    · obtain ⟨t, henter, rfl⟩ := Option.map_eq_some_iff.mp hs
      obtain ⟨⟨h', done⟩, hstep, rfl⟩ := Option.map_eq_some_iff.mp henter
      obtain ⟨-, rfl, rfl⟩ := connected hstep
      simp only [System.setChild_child, Function.update_apply] at hc'
      split_ifs at hc' with hnm
      · subst hnm
        exact outputs_host hn hc (by rw [← Option.some.inj hc']) hstep ⟨by simp, by simp⟩ rfl (by simp)
      · exact outputs_host hn hc' rfl hstep ⟨by simp, by simp⟩ rfl (by simp)
    · cases hs
  · cases hs

theorem step_out (h : Sound tr s) (hs : UiHost.step s a = some (s', os)) {n : ℕ} {c' : Child}
    (hn : s'.host.process = some n) (hc' : s'.child n = some c') : Outputs tr os s a n c' := by
  cases a with
  | spawn m p t o => exact spawn_out h (Option.some.inj hs) hn hc'
  | stop =>
      simp only [UiHost.step, System.alone] at hs
      obtain ⟨⟨h', done⟩, hstep, he⟩ := Option.map_eq_some_iff.mp hs
      obtain ⟨rfl, rfl⟩ := Prod.mk.inj he
      obtain ⟨-, -, hprocess, -⟩ := server_eq hstep (.inr (.inl rfl))
      exact outputs_host (hprocess ▸ hn) hc' rfl hstep ⟨by simp, by simp⟩ (hosts_host done) (by simp)
  | ret =>
      simp only [UiHost.step, System.alone] at hs
      obtain ⟨⟨h', done⟩, hstep, he⟩ := Option.map_eq_some_iff.mp hs
      obtain ⟨rfl, rfl⟩ := Prod.mk.inj he
      obtain ⟨-, -, hprocess, -⟩ := server_eq hstep (.inr (.inr rfl))
      exact outputs_host (hprocess ▸ hn) hc' rfl hstep ⟨by simp, by simp⟩ (hosts_host done) (by simp)
  | stranger m =>
      obtain ⟨t, henter, he⟩ := Option.map_eq_some_iff.mp hs
      obtain ⟨rfl, rfl⟩ := Prod.mk.inj he
      obtain ⟨⟨h', done⟩, hstep, rfl⟩ := Option.map_eq_some_iff.mp henter
      obtain ⟨-, rfl, rfl⟩ := connected hstep
      exact outputs_host hn hc' rfl hstep ⟨by simp, by simp⟩ rfl (by simp)
  | connect m =>
      obtain ⟨t, hconnect, he⟩ := Option.map_eq_some_iff.mp hs
      obtain ⟨rfl, rfl⟩ := Prod.mk.inj he
      exact connect_out hconnect hn hc'
  | newConnection m => exact newConnection_out hs hn hc'
  | readyRead k => exact readyRead_out hs hn hc'
  | finished =>
      simp only [UiHost.step, System.finished] at hs
      split at hs
      · split at hs
        · obtain ⟨⟨h', done⟩, hstep, he⟩ := Option.map_eq_some_iff.mp hs
          obtain ⟨-, rfl, rfl⟩ := Machine.taken_if hstep
          obtain ⟨rfl, rfl⟩ := Prod.mk.inj he
          cases hn
        · cases hs
      · cases hs
  | move m move =>
      simp only [UiHost.step] at hs
      split at hs
      · rename_i c hc
        obtain ⟨⟨d, done⟩, hmove, he⟩ := Option.map_eq_some_iff.mp hs
        obtain ⟨rfl, rfl⟩ := Prod.mk.inj he
        have hstream : stream (hosts (tr ++ done.map (.child m))) = stream (hosts tr) := by simp
        simp only [System.setChild_child, Function.update_apply] at hc'
        split_ifs at hc' with hnm
        · subst hnm
          obtain rfl := Option.some.inj hc'
          simp only [Outputs, output, hstream]
          obtain ⟨hout, hready⟩ | ⟨data, rfl, hplugged, hout, rfl⟩ | ⟨hphase, hout, hready⟩ :=
            move_out hmove
          · exact .inr ⟨c, [], hn, hc, by simp [hout], .nothing (by simp [hready])⟩
          · exact .inr ⟨c, data, hn, hc, by simp [hout], .plugin data rfl hplugged (by simp)⟩
          · exact .inr ⟨c, _, hn, hc, by simp [hout], .line hphase (by simp [hready])⟩
        · simp only [Outputs, output, hstream]
          exact .inr ⟨c', [], hn, hc', by simp, .nothing (by simp [Ne.symm hnm])⟩
      · cases hs

/-! ### Runs -/

/-- The host among its children takes its own steps. -/
theorem host_step (hs : UiHost.step s a = some (s', os)) :
    s'.host = s.host ∧ hosts os = [] ∨
      ∃ b, ViewModuleHost.step s.host b = some (s'.host, hosts os) := by
  have hlift : ∀ {b : ViewModuleHost.Action} {done : Host × List ViewModuleHost.Obs},
      ViewModuleHost.step s.host b = some done → s'.host = done.1 → hosts os = done.2 →
      ∃ b, ViewModuleHost.step s.host b = some (s'.host, hosts os) := by
    intro b done hstep hhost hos
    exact ⟨b, by rw [hstep, hhost, hos]⟩
  cases a with
  | spawn m p t o =>
      simp only [UiHost.step, System.spawn, Option.some.injEq] at hs
      right
      split at hs <;> obtain ⟨rfl, rfl⟩ := Prod.mk.inj hs
      · exact hlift (b := .spawn m p t o) rfl rfl (hosts_host _)
      · exact hlift (b := .spawn m p t o) rfl rfl (hosts_host _)
  | stop | ret =>
      simp only [UiHost.step, System.alone] at hs
      obtain ⟨done, hstep, he⟩ := Option.map_eq_some_iff.mp hs
      obtain ⟨rfl, rfl⟩ := Prod.mk.inj he
      exact .inr (hlift hstep rfl (hosts_host _))
  | stranger m =>
      obtain ⟨t, henter, he⟩ := Option.map_eq_some_iff.mp hs
      obtain ⟨rfl, rfl⟩ := Prod.mk.inj he
      obtain ⟨done, hstep, rfl⟩ := Option.map_eq_some_iff.mp henter
      exact .inr (hlift hstep rfl (connected hstep).2.1.symm)
  | connect m =>
      obtain ⟨t, hconnect, he⟩ := Option.map_eq_some_iff.mp hs
      obtain ⟨rfl, rfl⟩ := Prod.mk.inj he
      unfold System.connect at hconnect
      split at hconnect
      · split_ifs at hconnect
        split at hconnect
        · obtain ⟨u, henter, rfl⟩ := Option.map_eq_some_iff.mp hconnect
          obtain ⟨done, hstep, rfl⟩ := Option.map_eq_some_iff.mp henter
          exact .inr (hlift hstep rfl (connected hstep).2.1.symm)
        · cases hconnect
      · cases hconnect
  | newConnection m =>
      obtain ⟨done, hstep, he⟩ := Option.map_eq_some_iff.mp hs
      right
      split at he
      · obtain ⟨rfl, rfl⟩ := Prod.mk.inj he
        exact hlift hstep rfl (hosts_host _)
      · have hserved : ∀ client, hosts (done.2.map Obs.host ++ [.served m client]) = done.2 := by
          intro client
          rw [hosts_append, hosts_host]
          exact List.append_nil _
        split at he
        · dsimp only at he
          split at he <;> obtain ⟨rfl, rfl⟩ := Prod.mk.inj he
          · exact hlift hstep rfl (hserved _)
          · exact hlift hstep rfl (hserved _)
        · obtain ⟨rfl, rfl⟩ := Prod.mk.inj he
          exact hlift hstep rfl (hserved _)
  | readyRead k =>
      simp only [UiHost.step, System.readyRead] at hs
      split at hs
      · split at hs
        · obtain ⟨done, hstep, he⟩ := Option.map_eq_some_iff.mp hs
          obtain ⟨rfl, rfl⟩ := Prod.mk.inj he
          exact .inr (hlift hstep rfl (hosts_host _))
        · cases hs
      · cases hs
  | finished =>
      simp only [UiHost.step, System.finished] at hs
      split at hs
      · split at hs
        · obtain ⟨done, hstep, he⟩ := Option.map_eq_some_iff.mp hs
          obtain ⟨rfl, rfl⟩ := Prod.mk.inj he
          exact .inr (hlift hstep rfl (hosts_host _))
        · cases hs
      · cases hs
  | move m move =>
      simp only [UiHost.step] at hs
      split at hs
      · obtain ⟨done, -, he⟩ := Option.map_eq_some_iff.mp hs
        obtain ⟨rfl, rfl⟩ := Prod.mk.inj he
        exact .inl ⟨rfl, by simp⟩
      · cases hs

/-- What the host makes of nothing, and what is read of a child whose token was not written to
it. -/
structure Reads (tr : List Obs) (s : System) : Prop extends Sound tr s where
  unread : Unread (hosts tr) s.host
  reads : ∀ n c, s.host.process = some n → s.child n = some c → output tr c ≠ [] →
    .served n (some n) ∈ tr

theorem Reads.initial : Reads [] {} where
  toSound := Sound.initial
  unread := Unread.initial
  reads _ _ h := by cases h

theorem Reads.step (h : Reads tr s) (hs : UiHost.step s a = some (s', os)) :
    Reads (tr ++ os) s' where
  toSound := h.toSound.step hs
  unread := by
    rw [hosts_append]
    obtain ⟨hhost, hnone⟩ | ⟨b, hb⟩ := host_step hs
    · rw [hhost, hnone, List.append_nil]
      exact h.unread
    · exact h.unread.step hb
  reads n c' hn hc' hout := by
    obtain ⟨hnil, -⟩ | ⟨c, data, hwas, hc, heq, hprinted⟩ := step_out h.toSound hs hn hc'
    · exact absurd hnil hout
    · apply List.mem_append_left
      cases hprinted with
      | nothing =>
          rw [heq, List.append_nil] at hout
          exact h.reads n c hwas hc hout
      | plugin data _ hplugged => exact ((h.child n c hc).plugged hplugged).1
      | line hphase => exact ((h.child n c hc).plugged (by simp [Child.plugged, hphase])).1

theorem run_reads {G : List Obs → System → Action → Prop} (h : machine.Run G tr s) : Reads tr s :=
  h.invariant Reads.initial fun hi _ hs => hi.step hs

/-- Plugins leave the standard output alone. -/
def Mute (_ : List Obs) (_ : System) : Action → Prop
  | .move _ (.print _) => False
  | _ => True

instance (tr : List Obs) (s : System) : (a : Action) → Decidable (Mute tr s a)
  | .move _ (.print _) => inferInstanceAs (Decidable False)
  | .move _ (.parse) | .move _ .refused | .move _ .timedOut | .move _ .readToken
  | .move _ (.load _) | .move _ (.instantiate ..) | .move _ (.remote _) | .move _ (.remoteModels _)
  | .move _ .quit | .move _ (.unload _) | .move _ (.die _) | .spawn .. | .stop | .ret
  | .stranger _ | .connect _ | .newConnection _ | .readyRead _ | .finished =>
      inferInstanceAs (Decidable True)

/-- All that a child prints is its READY line. -/
def Line (tr : List Obs) (s : System) : Prop :=
  ∀ n c, s.host.process = some n → s.child n = some c →
    .child n .ready ∉ tr ∧ output tr c = [] ∨ .child n .ready ∈ tr ∧ output tr c = bytes "READY\n"

theorem run_line (h : machine.Run Mute tr s) : Line tr s := by
  induction h with
  | start => exact fun _ _ hn => by cases hn
  | @step tr s s' a os h hmute hs ih =>
      intro n c' hn hc'
      have hsound := (run_reads h).toSound
      obtain ⟨hnil, hnot⟩ | ⟨c, data, hwas, hc, heq, hprinted⟩ := step_out hsound hs hn hc'
      · exact .inl ⟨hnot, hnil⟩
      · cases hprinted with
        | nothing hready =>
            rw [hready, heq, List.append_nil]
            exact ih n c hwas hc
        | plugin data ha =>
            subst ha
            exact hmute.elim
        | line hphase hready =>
            -- at its place the child has not printed the line before
            have hearly := (hsound.child n c hc).early (by simp [hphase, Phase.early])
            have hnone : output tr c = [] := by
              obtain ⟨-, hnil⟩ | ⟨hbefore, -⟩ := ih n c hwas hc
              · exact hnil
              · exact absurd hbefore hearly
            right
            rw [heq, hnone]
            exact ⟨List.mem_append_right _ hready, rfl⟩

/-- So all that is read of it is a part of that line. -/
theorem stream_mute (h : machine.Run Mute tr s) {n : ℕ} (hn : s.host.process = some n) :
    stream (hosts tr) <+: bytes "READY\n" := by
  obtain ⟨c, hc⟩ := Option.isSome_iff_exists.mp ((run_reads h).running n hn).2
  have hprefix : stream (hosts tr) <+: output tr c := List.prefix_append _ _
  obtain ⟨-, hnil⟩ | ⟨-, hline⟩ := run_line h n c hn hc
  · rw [hnil] at hprefix
    exact hprefix.trans (List.nil_prefix)
  · rwa [hline] at hprefix

theorem knows_mute (h : machine.Run Mute tr s) : Knows (hosts tr) s.host := by
  induction h with
  | start => exact .initial
  | @step tr s s' a os h hmute hs ih =>
      have hrun := h.step hmute hs
      rw [hosts_append]
      obtain ⟨hhost, hnone⟩ | ⟨b, hb⟩ := host_step hs
      · rw [hhost, hnone, List.append_nil]
        exact ih
      · refine ih.step ?_ hb
        cases b with
        | readyRead chunk =>
            -- what is read is a part of six bytes, so no line of it is long
            intro l hl
            obtain ⟨-, -, hprocess, -⟩ := server_eq hb (.inl ⟨chunk, rfl⟩)
            obtain ⟨hsome, -⟩ := Option.ite_none_right_eq_some.mp hb
            obtain ⟨n, hn⟩ := Option.ne_none_iff_exists'.mp hsome
            have hpart := (stream_mute hrun (hprocess.trans hn)).length_le
            rw [hosts_append, ViewModuleHost.stream_append, stream_read hb] at hpart
            have hle := Lines.length_le_of_mem_lines hl
            have hsix : (bytes "READY\n").length = 6 := by decide
            omega
        | _ => trivial

theorem readies_pos {tr : List ViewModuleHost.Obs} {h : Host} (hknows : Knows tr h) :
    0 < readies tr ↔ HasReady (stream tr) := by
  obtain ⟨⟨done, hreading⟩, hclean⟩ := hknows
  rw [hreading.hasReady_iff hclean, hreading.once]
  cases h.readyEmitted <;> simp

/-- The line is READY when all of it is read. -/
theorem hasReady_line {stream left : QByteArray} (h : stream ++ left = bytes "READY\n") :
    HasReady stream ↔ left = [] := by
  have hparts : ∀ k < 6, ¬ HasReady ((bytes "READY\n").take k) := by decide +kernel
  have hsix : stream.length + left.length = 6 := by
    rw [← List.length_append, h]
    rfl
  constructor
  · intro hready
    by_contra hleft
    have hpos := List.length_pos_iff.mpr hleft
    refine hparts stream.length (by omega) ?_
    rwa [← h, List.take_left]
  · rintro rfl
    rw [List.append_nil] at h
    rw [h]
    decide +kernel

/-- **`ready()` speaks of the child that runs**: once the host emitted it, this child's token was
written to this child and to no other process.  A child that printed its READY line is remoted, and
if plugins print nothing themselves, `ready()` was emitted exactly if the child printed the line
and nothing of it is left to read. -/
theorem ready_after_remoting {n : ℕ} {c : Child} (h : machine.Run Machine.always tr s)
    (hn : s.host.process = some n) (hc : s.child n = some c) :
    (0 < readies (hosts tr) → ∀ client, .served n client ∈ tr ↔ client = some n) ∧
    (.child n .ready ∈ tr → Remoted n tr) ∧
    (machine.Run Mute tr s → (0 < readies (hosts tr) ↔ .child n .ready ∈ tr ∧ c.stdout = [])) := by
  have hreads := run_reads h
  refine ⟨fun hpos client => ?_, fun hready => ?_, fun hmute => ?_⟩
  · have hsome : output tr c ≠ [] := by
      intro hnil
      have hnone := (hreads.unread (List.append_eq_nil_iff.mp hnil).1).2
      omega
    have hserved := hreads.reads n c hn hc hsome
    constructor
    · intro hclient
      exact served_unique hreads.order hclient hserved
    · rintro rfl
      exact hserved
  · obtain ⟨before, ⟨after, rfl⟩, hremoted⟩ := inTurn_of_mem hreads.order hready
    exact Remoted.mono hremoted after
  · rw [readies_pos (knows_mute hmute)]
    obtain ⟨hnot, hnil⟩ | ⟨hready, hline⟩ := run_line hmute n c hn hc
    · have hnone : ¬ HasReady (stream (hosts tr)) := by
        rw [(List.append_eq_nil_iff.mp hnil).1]
        decide
      simp [hnone, hnot]
    · rw [hasReady_line hline]
      simp [hready]

/-- A child that is ready, and another process that comes too late for its token. -/
theorem ready_child : ∃ tr s c, machine.Run Mute tr s ∧ s.host.process = some 0 ∧
    s.child 0 = some c ∧ 0 < readies (hosts tr) ∧ Remoted 0 tr ∧
      ∀ client, .served 0 client ∈ tr ↔ client = some 0 := by
  obtain ⟨tr, s, h, hprocess, hchild, hstdout, hready⟩ := Machine.exec_any (M := machine) (G := Mute)
    [.spawn "wallet" "wallet.so" "token" succeeds, .move 0 .parse, .connect 0, .stranger 0,
      .newConnection 0, .move 0 .readToken, .move 0 (.load true), .move 0 (.instantiate true true),
      .move 0 (.remote ⟨true, true, true, true⟩), .move 0 (.remoteModels []), .readyRead 4,
      .readyRead 2, .ret]
    (p := fun tr s => s.host.process = some 0 ∧ (s.child 0).isSome = true ∧
      (s.child 0).map (·.stdout) = some [] ∧ Obs.child 0 .ready ∈ tr) (by decide +kernel)
  obtain ⟨c, hc⟩ := Option.isSome_iff_exists.mp hchild
  rw [hc] at hstdout
  have hrun : machine.Run Machine.always tr s := h.mono fun _ _ _ _ => trivial
  obtain ⟨hserved, hremoted, hmute⟩ := ready_after_remoting hrun hprocess hc
  have hpos := (hmute h).mpr ⟨hready, Option.some.inj hstdout⟩
  exact ⟨tr, s, c, h, hprocess, hc, hpos, hremoted hready, hserved hpos⟩

end LogosViewRuntime.UiHost
