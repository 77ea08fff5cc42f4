import LogosViewRuntime.ReadyLines
import LogosViewRuntime.TokenServer
import LogosViewRuntime.UiHost
import Mathlib.Data.List.Induction

/-! # The handshake of a child and its host

What has happened before each thing that a child does (`InTurn`), over all interleavings of the
host, its children and other processes that connect to the token sockets (`handshake_in_turn`).
The token is what everything hangs on: its server writes it once, so a child whose token went to
another process never loads its plugin. -/

namespace LogosViewRuntime.UiHost

open Reactive
open ViewModuleHost (Host Outcome QByteArray bytes TokenServer succeeds parse_emits)

/-! ### What a step of the host does to its servers -/

section host

variable {h h' : Host} {os : List ViewModuleHost.Obs} {a : ViewModuleHost.Action}

theorem setServer_server (m k : ℕ) (server : TokenServer) (h : Host) :
    (h.setServer m server).server k = if k = m then server else h.server k :=
  Function.update_apply _ _ _ _

/-- What `spawn` does: nothing is started, or the next child is, with a server of its own. -/
inductive Spawned (h : Host) (authToken pluginPath : String) : Host × List ViewModuleHost.Obs → Prop
  | idle {h' : Host} {os : List ViewModuleHost.Obs} (hstarted : System.started os = none)
      (hcreated : h.created ≤ h'.created) (hprocess : h'.process = h.process)
      (hrefused : h.process ≠ none → h' = h)
      (hserver : ∀ m, h'.server m = h.server m ∨
        h.created ≤ m ∧ m < h'.created ∧ (h'.server m).listening = false)
      (hos : ∀ code, .processExited code ∉ os) : Spawned h authToken pluginPath (h', os)
  | started {h' : Host} {os : List ViewModuleHost.Obs} (name socket : String)
      (hidle : h.process = none) (hprocess : h'.process = some h.created)
      (hcreated : h'.created = h.created + 1) (htoken : authToken ≠ "")
      (hstarted : System.started os =
        some (h.created, ["--name", name, "--path", pluginPath, "--socket", socket]))
      (hserver : h'.server = Function.update h.server h.created
        { name := socket ++ "_token", token := authToken, listening := true })
      (hsocket : h'.socketName = socket)
      (hos : ∀ code, .processExited code ∉ os) : Spawned h authToken pluginPath (h', os)

theorem spawned (moduleName pluginPath authToken : String) (outcome : Outcome) (h : Host) :
    Spawned h authToken pluginPath (h.spawn moduleName pluginPath authToken outcome) := by
  unfold Host.spawn
  dsimp only
  split_ifs with hrunning htoken hfound
  · exact .idle rfl (Nat.le_refl _) rfl (fun _ => rfl) (fun _ => .inl rfl) (by simp)
  · exact .idle rfl (Nat.le_refl _) rfl (fun _ => rfl) (fun _ => .inl rfl) (by simp)
  · have hidle : h.process = none := by simpa using hrunning
    exact .idle rfl (Nat.le_refl _) rfl (fun hne => absurd hidle hne) (fun _ => .inl rfl) (by simp)
  · have hidle : h.process = none := by simpa using hrunning
    simp only [Host.launch]
    split_ifs with hlistens hstarts
    · exact .idle rfl (Nat.le_succ _) rfl (fun hne => absurd hidle hne) (fun _ => .inl rfl) (by simp)
    · refine .idle rfl (Nat.le_succ _) hidle.symm (fun hne => absurd hidle hne) (fun m => ?_) (by simp)
      rw [setServer_server]
      split_ifs with hm
      · exact .inr ⟨hm.ge, hm ▸ Nat.lt_succ_self _, rfl⟩
      · exact .inl rfl
    · exact .started moduleName _ hidle rfl rfl htoken rfl rfl rfl (by simp)

/-- `connect` is one more pending connection. -/
theorem connected {m : ℕ} (hs : ViewModuleHost.step h (.connect m) = some (h', os)) :
    (h.server m).listening = true ∧ os = [] ∧
      h' = h.setServer m { h.server m with pending := (h.server m).pending + 1 } := by
  obtain ⟨hlistening, rfl, rfl⟩ := Machine.taken_if hs
  exact ⟨hlistening, rfl, rfl⟩

/-- `newConnection` finds no connection, or writes the token to one and closes the server. -/
theorem newConnected {m : ℕ} (hs : ViewModuleHost.step h (.newConnection m) = some (h', os)) :
    (h.server m).listening = true ∧ ((h.server m).pending = 0 ∧ h' = h ∧ os = [] ∨
      ∃ pending, (h.server m).pending = pending + 1 ∧
        h' = h.setServer m { h.server m with pending, listening := false } ∧
        os = [.tokenWritten m (h.server m).token]) := by
  obtain ⟨hlistening, rfl, rfl⟩ := Machine.taken_if hs
  refine ⟨hlistening, ?_⟩
  unfold Host.newConnection
  dsimp only
  split
  · exact .inl ⟨‹_›, rfl, rfl⟩
  · exact .inr ⟨_, ‹_›, rfl, rfl⟩

theorem parse_unexited {fuel : ℕ} (hp : h.parse fuel = some (h', os)) (code : ℤ) :
    .processExited code ∉ os := by
  obtain rfl | rfl := parse_emits hp <;> simp

/-- Reading and stopping leave the servers alone. -/
theorem server_eq (hs : ViewModuleHost.step h a = some (h', os))
    (ha : (∃ chunk, a = .readyRead chunk) ∨ a = .stop ∨ a = .ret) :
    h'.server = h.server ∧ h'.created = h.created ∧ h'.process = h.process ∧
      ∀ code, .processExited code ∉ os := by
  obtain ⟨chunk, rfl⟩ | rfl | rfl := ha
  · obtain ⟨-, hs⟩ := Option.ite_none_right_eq_some.mp hs
    obtain ⟨parsed, hp, he⟩ := Option.map_eq_some_iff.mp hs
    obtain ⟨rfl, rfl⟩ := Prod.mk.inj he
    obtain ⟨hprocess, hcreated, hserver, -⟩ := ViewModuleHost.parse_quiet hp
    refine ⟨hserver, hcreated, hprocess, fun code hm => ?_⟩
    exact parse_unexited hp code ((List.mem_cons.mp hm).resolve_left (by simp))
  · simp only [ViewModuleHost.step, Host.stop, Option.some.injEq] at hs
    split at hs
    · obtain ⟨rfl, rfl⟩ := Prod.mk.inj hs
      exact ⟨rfl, rfl, rfl, by simp⟩
    · obtain ⟨rfl, rfl⟩ := Prod.mk.inj hs
      exact ⟨rfl, rfl, rfl, by simp⟩
  · simp only [ViewModuleHost.step, Host.ret] at hs
    split at hs
    · cases hs
    · obtain ⟨hprocess, hcreated, hserver, -⟩ := ViewModuleHost.parse_quiet hs
      exact ⟨hserver, hcreated, hprocess, parse_unexited hs⟩

end host

/-! ### The order of a handshake -/

/-- The arguments of a child. -/
def argsOf (options : Options) : List String :=
  ["--name", options.name, "--path", options.path, "--socket", options.socket]

/-- The plugin can be reached. -/
def Remoted (n : ℕ) (tr : List Obs) : Prop :=
  .child n .remotedTyped ∈ tr ∨ ∃ target name, .child n (.remoted target name) ∈ tr

/-- The plugin has its token and was initialised, if it can be. -/
def Initialised (n : ℕ) (tr : List Obs) : Prop :=
  (∃ authToken, .child n (.adopted authToken) ∈ tr) ∧ ∃ initLogos,
    .child n (.instantiated initLogos) ∈ tr ∧ (initLogos = true → .child n .initLogos ∈ tr)

/-- What must have been before. -/
def InTurn (before : List Obs) : Obs → Prop
  | .served m _ => ∀ client, .served m client ∉ before
  | .child n (.loaded path) => .served n (some n) ∈ before ∧
      ∃ options : Options, .host (.started n (argsOf options)) ∈ before ∧ path = options.path
  | .child n (.instantiated _) => (∃ path, .child n (.loaded path) ∈ before) ∧
      ∀ initLogos, .child n (.instantiated initLogos) ∉ before
  | .child n (.adopted authToken) => authToken ≠ "" ∧ .host (.tokenWritten n authToken) ∈ before ∧
      ∃ initLogos, .child n (.instantiated initLogos) ∈ before
  | .child n .initLogos => (∃ authToken, .child n (.adopted authToken) ∈ before) ∧
      .child n (.instantiated true) ∈ before ∧ .child n .initLogos ∉ before
  | .child n (.hosting url) => Initialised n before ∧
      ∃ options : Options, .host (.started n (argsOf options)) ∈ before ∧
        url = "local:" ++ options.socket
  | .child n .remotedTyped => ∃ url, .child n (.hosting url) ∈ before
  | .child n (.remoted _ name) => (∃ url, .child n (.hosting url) ∈ before) ∧
      ∃ options : Options, .host (.started n (argsOf options)) ∈ before ∧ name = options.name
  | .child n (.remotedModel _) => Remoted n before
  | .child n .ready => Remoted n before
  | .child n .aboutToUnload => .child n .ready ∈ before
  | .child n .deleted => .child n .aboutToUnload ∈ before
  | .child n (.exited _) => ∀ code, .child n (.exited code) ∉ before
  | .host (.processExited code) => ∃ n, .child n (.exited code) ∈ before
  | .host _ => True

/-- What `main` has come past at each of its places. -/
def Past (n : ℕ) (tr : List Obs) : Phase → Prop
  | .parsing | .connecting | .awaiting | .loading => True
  | .loaded => ∃ path, .child n (.loaded path) ∈ tr
  | .starting => Initialised n tr
  | .listing => Remoted n tr
  | .executing => .child n .ready ∈ tr
  | .unloading => .child n .aboutToUnload ∈ tr
  | .exited code => .child n (.exited code) ∈ tr

theorem Remoted.mono {n : ℕ} {tr : List Obs} (h : Remoted n tr) (os : List Obs) :
    Remoted n (tr ++ os) :=
  h.imp (List.mem_append_left _) fun ⟨target, name, hm⟩ =>
    ⟨target, name, List.mem_append_left _ hm⟩

theorem Initialised.mono {n : ℕ} {tr : List Obs} (h : Initialised n tr) (os : List Obs) :
    Initialised n (tr ++ os) := by
  obtain ⟨⟨authToken, hadopted⟩, initLogos, hinstantiated, hinit⟩ := h
  exact ⟨⟨authToken, List.mem_append_left _ hadopted⟩, initLogos,
    List.mem_append_left _ hinstantiated, fun hi => List.mem_append_left _ (hinit hi)⟩

theorem Past.mono {n : ℕ} {tr : List Obs} {phase : Phase} (h : Past n tr phase) (os : List Obs) :
    Past n (tr ++ os) phase := by
  cases phase with
  | parsing | connecting | awaiting | loading => trivial
  | loaded => exact h.imp fun _ => List.mem_append_left _
  | starting => exact Initialised.mono h os
  | listing => exact Remoted.mono h os
  | executing | unloading | exited => exact List.mem_append_left _ h

/-- The options are known. -/
def Phase.parsed : Phase → Bool
  | .parsing | .exited _ => false
  | _ => true

/-- The plugin's object is not there yet. -/
def Phase.pluginless : Phase → Bool
  | .parsing | .connecting | .awaiting | .loading | .loaded => true
  | _ => false

/-- The plugin's object is made or initialised. -/
def ChildObs.isPlugin : ChildObs → Bool
  | .instantiated _ | .initLogos => true
  | _ => false

/-- The plugin is neither there nor initialised. -/
def Uninitialised (n : ℕ) (tr : List Obs) : Prop :=
  (∀ initLogos, .child n (.instantiated initLogos) ∉ tr) ∧ .child n .initLogos ∉ tr

/-- READY is not printed yet. -/
def Phase.early : Phase → Bool
  | .executing | .unloading | .exited _ => false
  | _ => true

/-- A child, and what happened to it. -/
structure Proper (tr : List Obs) (s : System) (n : ℕ) (c : Child) : Prop where
  running : s.host.process = some n ∨ ∃ code, c.phase = .exited code
  args : ∃ options, c.args = argsOf options ∧ .host (.started n (argsOf options)) ∈ tr ∧
    (s.host.server n).name = options.socket ++ "_token" ∧
    (c.phase.parsed = true → c.options = options)
  mail : ∀ authToken, c.mail = some authToken →
    .served n (some n) ∈ tr ∧ .host (.tokenWritten n authToken) ∈ tr
  plugged : c.plugged = true →
    .served n (some n) ∈ tr ∧ .host (.tokenWritten n c.authToken) ∈ tr ∧ c.authToken ≠ ""
  silent : c.stdout ≠ [] → .served n (some n) ∈ tr
  past : Past n tr c.phase
  pluginless : c.phase.pluginless = true → Uninitialised n tr
  early : c.phase.early = true → .child n .ready ∉ tr
  alive : (∀ code, c.phase ≠ .exited code) → ∀ code, .child n (.exited code) ∉ tr

/-- The token sockets. -/
structure Sockets (tr : List Obs) (s : System) : Prop where
  fresh : ∀ m, s.host.created ≤ m → s.child m = none ∧
    ((s.host.server m).listening = false ∧ s.waiting m = []) ∧
    (∀ client, .served m client ∉ tr) ∧ ∀ o, .child m o ∉ tr
  listening : ∀ m, (s.host.server m).listening = true →
    (s.host.server m).pending = (s.waiting m).length ∧ ∀ client, .served m client ∉ tr
  own : ∀ m n, some n ∈ s.waiting m → n = m
  running : ∀ n, s.host.process = some n → s.host.created = n + 1 ∧ (s.child n).isSome = true

/-- The system in a run. -/
structure Sound (tr : List Obs) (s : System) : Prop extends Sockets tr s where
  order : Machine.Each InTurn tr
  child : ∀ n c, s.child n = some c → Proper tr s n c

variable {tr os : List Obs} {s s' : System} {a : Action}

/-- A child that nothing happens to. -/
theorem Proper.mono {n : ℕ} {c : Child} (h : Proper tr s n c)
    (hrunning : s'.host.process = some n ∨ ∃ code, c.phase = .exited code)
    (hname : (s'.host.server n).name = (s.host.server n).name)
    (hquiet : ∀ o, .child n o ∉ os) : Proper (tr ++ os) s' n c where
  running := hrunning
  args := by
    obtain ⟨options, hargs, hstarted, hserver, hparsed⟩ := h.args
    exact ⟨options, hargs, List.mem_append_left _ hstarted, hname.trans hserver, hparsed⟩
  mail authToken hm := (h.mail authToken hm).imp (List.mem_append_left _) (List.mem_append_left _)
  plugged hp := by
    obtain ⟨hserved, hwritten, htoken⟩ := h.plugged hp
    exact ⟨List.mem_append_left _ hserved, List.mem_append_left _ hwritten, htoken⟩
  silent hs := List.mem_append_left _ (h.silent hs)
  past := h.past.mono os
  pluginless hp := by
    obtain ⟨hinstantiated, hinit⟩ := h.pluginless hp
    exact ⟨fun i hm => (List.mem_append.mp hm).elim (hinstantiated i) (hquiet _),
      fun hm => (List.mem_append.mp hm).elim hinit (hquiet _)⟩
  early he hm := (List.mem_append.mp hm).elim (h.early he) (hquiet _)
  alive ha code hm := (List.mem_append.mp hm).elim (h.alive ha code) (hquiet _)

/-- A child that goes on and does not exit. -/
theorem Proper.goes {n : ℕ} {c c' : Child} {os : List ChildObs} (h : Proper tr s n c)
    (halive : ∀ code, c.phase ≠ .exited code) (hargs : c'.args = c.args) (hmail : c'.mail = c.mail)
    (hoptions : ∀ options, c.args = argsOf options → (c.phase.parsed = true → c.options = options) →
      c'.phase.parsed = true → c'.options = options)
    (hplugged : c'.plugged = true →
      .served n (some n) ∈ tr ∧ .host (.tokenWritten n c'.authToken) ∈ tr ∧ c'.authToken ≠ "")
    (hstdout : c'.stdout ≠ [] → c.stdout ≠ [] ∨ c.plugged = true)
    (hpast : Past n (tr ++ os.map (.child n)) c'.phase)
    (hpluginless : c'.phase.pluginless = true → c.phase.pluginless = true ∧ os.all
      (fun o => !o.isPlugin) = true)
    (hearly : c'.phase.early = true → c.phase.early = true ∧ .ready ∉ os)
    (hexits : ∀ code, .exited code ∉ os) : Proper (tr ++ os.map (.child n)) s n c' where
  running := .inl (h.running.resolve_right fun ⟨code, hcode⟩ => halive code hcode)
  args := by
    obtain ⟨options, hargs', hstarted, hname, hparsed⟩ := h.args
    exact ⟨options, hargs.trans hargs', List.mem_append_left _ hstarted, hname,
      hoptions options hargs' hparsed⟩
  mail authToken hm := by
    rw [hmail] at hm
    exact (h.mail authToken hm).imp (List.mem_append_left _) (List.mem_append_left _)
  plugged hp := by
    obtain ⟨hserved, hwritten, htoken⟩ := hplugged hp
    exact ⟨List.mem_append_left _ hserved, List.mem_append_left _ hwritten, htoken⟩
  silent hs := List.mem_append_left _ ((hstdout hs).elim h.silent fun hp => (h.plugged hp).1)
  past := hpast
  pluginless hp := by
    obtain ⟨hwas, hnot⟩ := hpluginless hp
    obtain ⟨hinstantiated, hinit⟩ := h.pluginless hwas
    rw [List.all_eq_true] at hnot
    refine ⟨fun i hm => ?_, fun hm => ?_⟩
    · obtain hm | hm := List.mem_append.mp hm
      · exact hinstantiated i hm
      · cases hnot (.instantiated i) (by simpa using hm)
    · obtain hm | hm := List.mem_append.mp hm
      · exact hinit hm
      · cases hnot .initLogos (by simpa using hm)
  early he hm := by
    obtain ⟨hwas, hnot⟩ := hearly he
    obtain hm | hm := List.mem_append.mp hm
    · exact h.early hwas hm
    · simp [hnot] at hm
  alive _ code hm := by
    obtain hm | hm := List.mem_append.mp hm
    · exact h.alive halive code hm
    · simp [hexits] at hm

/-- A child that exits. -/
theorem Proper.exits {n : ℕ} {c : Child} (h : Proper tr s n c) (os : List ChildObs) (code : ℤ) :
    Proper (tr ++ (os ++ [ChildObs.exited code]).map (.child n)) s n
      { c with phase := .exited code } where
  running := .inr ⟨code, rfl⟩
  args := by
    obtain ⟨options, hargs, hstarted, hname, -⟩ := h.args
    exact ⟨options, hargs, List.mem_append_left _ hstarted, hname, by simp [Phase.parsed]⟩
  mail authToken hm := (h.mail authToken hm).imp (List.mem_append_left _) (List.mem_append_left _)
  plugged hp := by cases hp
  silent hs := List.mem_append_left _ (h.silent hs)
  past := by simp [Past]
  pluginless hp := by cases hp
  early he := by cases he
  alive ha := absurd rfl (ha code)

/-- What may come now and later. -/
theorem each_append {tr : List Obs} (h : Machine.Each InTurn tr) {os : List Obs}
    (hos : ∀ o ∈ os, ∀ more, InTurn (tr ++ more) o) : Machine.Each InTurn (tr ++ os) := by
  induction os using List.reverseRecOn with
  | nil => rwa [List.append_nil]
  | append_singleton os o ih =>
      rw [← List.append_assoc]
      refine Machine.each_snoc.mpr ⟨ih fun o' ho => hos o' (List.mem_append_left _ ho), ?_⟩
      exact hos o (by simp) os

theorem inTurn_host {os : List ViewModuleHost.Obs} (hos : ∀ code, .processExited code ∉ os) :
    ∀ o ∈ os.map Obs.host, ∀ more, InTurn (tr ++ more) o := by
  rintro _ hm more
  obtain ⟨o, ho, rfl⟩ := List.mem_map.mp hm
  cases o with
  | processExited code => exact absurd ho (hos code)
  | _ => trivial

/-! ### Steps -/

namespace Sound

theorem initial : Sound [] {} where
  fresh _ _ := ⟨rfl, ⟨rfl, rfl⟩, by simp, by simp⟩
  listening _ h := by cases h
  own _ _ hm := by cases hm
  running _ h := by cases h
  order := Machine.each_nil _
  child _ _ h := by cases h

theorem lt_created (h : Sound tr s) {n : ℕ} {c : Child} (hc : s.child n = some c) :
    n < s.host.created := by
  by_contra hn
  rw [(h.fresh n (Nat.not_lt.mp hn)).1] at hc
  cases hc

/-- The host goes on alone, and its servers are as they were. -/
theorem host (h : Sound tr s) {h' : Host} {os : List ViewModuleHost.Obs}
    (hserver : h'.server = s.host.server) (hcreated : h'.created = s.host.created)
    (hprocess : h'.process = s.host.process) (hos : ∀ code, .processExited code ∉ os) :
    Sound (tr ++ os.map .host) { s with host := h' } where
  fresh m hm := by
    obtain ⟨hchild, hlistening, hserved, hnone⟩ := h.fresh m (hcreated ▸ hm)
    exact ⟨hchild, by rwa [hserver], by simpa using hserved, by simpa using hnone⟩
  listening m hm := by
    rw [hserver] at hm ⊢
    simpa using h.listening m hm
  own := h.own
  running n hn := by
    rw [hcreated]
    exact h.running n (hprocess.symm.trans hn)
  order := each_append h.order (inTurn_host hos)
  child n c hc := (h.child n c hc).mono (by simpa [hprocess] using (h.child n c hc).running)
    (by simp [hserver]) (by simp)

theorem idle (h : Sound tr s) {h' : Host} {os : List ViewModuleHost.Obs}
    (hcreated : s.host.created ≤ h'.created) (hprocess : h'.process = s.host.process)
    (hrefused : s.host.process ≠ none → h' = s.host)
    (hserver : ∀ m, h'.server m = s.host.server m ∨
      s.host.created ≤ m ∧ m < h'.created ∧ (h'.server m).listening = false)
    (hos : ∀ code, .processExited code ∉ os) :
    Sound (tr ++ os.map .host) { s with host := h' } where
  fresh m hm := by
    obtain ⟨hchild, hlistening, hserved, hnone⟩ := h.fresh m (Nat.le_trans hcreated hm)
    refine ⟨hchild, ⟨?_, hlistening.2⟩, by simpa using hserved, by simpa using hnone⟩
    obtain hsame | ⟨-, -, hclosed⟩ := hserver m
    · rw [hsame]
      exact hlistening.1
    · exact hclosed
  listening m hm := by
    obtain hsame | ⟨-, -, hclosed⟩ := hserver m
    · rw [hsame] at hm ⊢
      simpa using h.listening m hm
    · rw [hclosed] at hm
      cases hm
  own := h.own
  running n hn := by
    have hwas : s.host.process = some n := hprocess.symm.trans hn
    rw [hrefused (by simp [hwas])]
    exact h.running n hwas
  order := each_append h.order (inTurn_host hos)
  child n c hc := by
    refine (h.child n c hc).mono (by simpa [hprocess] using (h.child n c hc).running) ?_ (by simp)
    obtain hsame | ⟨hle, -, -⟩ := hserver n
    · rw [hsame]
    · exact absurd (h.lt_created hc) (Nat.not_lt.mpr hle)

theorem started (h : Sound tr s) {h' : Host} {os : List ViewModuleHost.Obs} {options : Options}
    {authToken : String} (hidle : s.host.process = none) (hprocess : h'.process = some s.host.created)
    (hcreated : h'.created = s.host.created + 1)
    (hstarted : .started s.host.created (argsOf options) ∈ os)
    (hserver : h'.server = Function.update s.host.server s.host.created
      { name := options.socket ++ "_token", token := authToken, listening := true })
    (hos : ∀ code, .processExited code ∉ os) :
    Sound (tr ++ os.map .host)
      ({ s with host := h' }.setChild s.host.created { args := argsOf options }) where
  fresh m hm := by
    rw [System.setChild_host, hcreated] at hm
    have hne : m ≠ s.host.created := by omega
    obtain ⟨hchild, hlistening, hserved, hnone⟩ := h.fresh m (Nat.le_of_succ_le hm)
    refine ⟨?_, ?_, by simpa using hserved, by simpa using hnone⟩
    · rw [System.setChild_child, Function.update_of_ne hne]
      exact hchild
    · rw [System.setChild_host, hserver, Function.update_of_ne hne]
      exact hlistening
  listening m hm := by
    rw [System.setChild_host, hserver] at hm ⊢
    by_cases hne : m = s.host.created
    · subst hne
      simpa [(h.fresh _ (Nat.le_refl _)).2.1.2] using (h.fresh _ (Nat.le_refl _)).2.2.1
    · rw [Function.update_of_ne hne] at hm ⊢
      simpa using h.listening m hm
  own := h.own
  running n hn := by
    obtain rfl : s.host.created = n := Option.some.inj (hprocess.symm.trans hn)
    exact ⟨hcreated, by simp⟩
  order := each_append h.order (inTurn_host hos)
  child n c hc := by
    by_cases hne : n = s.host.created
    · subst hne
      simp only [System.setChild_child, Function.update_self, Option.some.injEq] at hc
      subst hc
      have hnone := (h.fresh _ (Nat.le_refl _)).2.2.2
      refine ⟨.inl hprocess, ⟨options, rfl, ?_, by simp [hserver], by simp [Phase.parsed]⟩, by simp,
        by simp [Child.plugged], by simp, trivial,
        fun _ => ⟨fun _ => by simpa using hnone _, by simpa using hnone _⟩,
        fun _ => by simpa using hnone _, fun _ code => by simpa using hnone _⟩
      exact List.mem_append_right _ (List.mem_map_of_mem hstarted)
    · rw [System.setChild_child, Function.update_of_ne hne] at hc
      have hproper := h.child n c hc
      refine hproper.mono (.inr (hproper.running.resolve_left (by simp [hidle]))) ?_ (by simp)
      rw [System.setChild_host, hserver, Function.update_of_ne hne]

/-- A process waits for the token of server `m`. -/
theorem enter (h : Sound tr s) {m : ℕ} {client : Option ℕ} (hclient : ∀ n, client = some n → n = m)
    (hs : s.enter m client = some s') : Sound tr s' := by
  obtain ⟨⟨h', os⟩, hconnect, rfl⟩ := Option.map_eq_some_iff.mp hs
  obtain ⟨hlistening, -, rfl⟩ := connected hconnect
  have hname : ∀ k, ((s.host.setServer m
      { s.host.server m with pending := (s.host.server m).pending + 1 }).server k).name =
        (s.host.server k).name := by
    intro k
    rw [setServer_server]
    split_ifs with hk
    · rw [hk]
    · rfl
  refine ⟨⟨?_, ?_, ?_, h.running⟩, h.order, ?_⟩
  · intro k hk
    have hne : k ≠ m := by
      rintro rfl
      rw [(h.fresh k hk).2.1.1] at hlistening
      cases hlistening
    simpa [setServer_server, hne, Function.update_of_ne hne] using h.fresh k hk
  · intro k hk
    simp only [setServer_server] at hk ⊢
    by_cases hkm : k = m
    · subst hkm
      obtain ⟨hpending, hserved⟩ := h.listening k hlistening
      simpa [hpending] using hserved
    · rw [if_neg hkm] at hk ⊢
      rw [Function.update_of_ne hkm]
      exact h.listening k hk
  · intro k n hm
    by_cases hkm : k = m
    · subst hkm
      simp only [Function.update_self] at hm
      obtain hm | hm := List.mem_append.mp hm
      · exact h.own k n hm
      · exact hclient n (List.mem_singleton.mp hm).symm
    · simp only [Function.update_of_ne hkm] at hm
      exact h.own k n hm
  · intro n c hc
    rw [← List.append_nil tr]
    exact (h.child n c hc).mono (h.child n c hc).running (hname n) (by simp)

/-- A child goes on. -/
theorem setChild (h : Sound tr s) {n : ℕ} {c c' : Child} (hc : s.child n = some c)
    (os : List ChildObs) (horder : Machine.Each InTurn (tr ++ os.map (.child n)))
    (hproper : Proper (tr ++ os.map (.child n)) s n c') :
    Sound (tr ++ os.map (.child n)) (s.setChild n c') where
  fresh m hm := by
    have hne : m ≠ n := (Nat.lt_of_lt_of_le (h.lt_created hc) hm).ne'
    obtain ⟨hchild, hlistening, hserved, hnone⟩ := h.fresh m hm
    refine ⟨?_, hlistening, by simpa using hserved, by simpa [Ne.symm hne] using hnone⟩
    rwa [System.setChild_child, Function.update_of_ne hne]
  listening m hm := by simpa using h.listening m hm
  own := h.own
  running k hk := by
    refine ⟨(h.running k hk).1, ?_⟩
    rw [System.setChild_child, Function.update_apply]
    split_ifs
    · rfl
    · exact (h.running k hk).2
  order := horder
  child k d hd := by
    by_cases hne : k = n
    · subst hne
      simp only [System.setChild_child, Function.update_self, Option.some.injEq] at hd
      subst hd
      exact { hproper with running := hproper.running }
    · rw [System.setChild_child, Function.update_of_ne hne] at hd
      exact (h.child k d hd).mono (h.child k d hd).running rfl (by simp [Ne.symm hne])

/-- A child changes and nothing is seen of it. -/
theorem change (h : Sound tr s) {n : ℕ} {c c' : Child} (hc : s.child n = some c)
    (hproper : Proper tr s n c') : Sound tr (s.setChild n c') := by
  have hset := h.setChild hc [] (by simpa using h.order) (by simpa using hproper)
  simpa using hset

/-- A name leads to the server of the child that runs. -/
theorem resolve (h : Sound tr s) {n : ℕ} (hn : s.host.process = some n) :
    s.resolve (s.host.server n).name = some n := by
  rw [System.resolve, (h.running n hn).1, List.range_succ, List.reverse_append]
  simp

theorem connect (h : Sound tr s) {n : ℕ} (hs : s.connect n = some s') : Sound tr s' := by
  unfold System.connect at hs
  split at hs
  · rename_i c hc
    split_ifs at hs with hphase
    have hproper := h.child n c hc
    obtain ⟨options, hargs, hstarted, hname, hparsed⟩ := hproper.args
    have hrunning : s.host.process = some n := hproper.running.resolve_right (by simp [hphase])
    have hresolve : s.resolve (c.options.socket ++ "_token") = some n := by
      rw [hparsed (by simp [hphase, Phase.parsed]), ← hname]
      exact h.resolve hrunning
    rw [hresolve] at hs
    obtain ⟨t, henter, rfl⟩ := Option.map_eq_some_iff.mp hs
    have hsound := h.enter (fun k hk => (Option.some.inj hk).symm) henter
    have hchild : t.child n = some c := by
      obtain ⟨done, -, rfl⟩ := Option.map_eq_some_iff.mp henter
      exact hc
    have hwas := hsound.child n c hchild
    refine hsound.change hchild ⟨.inl (hwas.running.resolve_right (by simp [hphase])), ?_, hwas.mail,
      by simp [Child.plugged], hwas.silent, trivial, fun _ => ?_, fun _ => ?_, fun _ => ?_⟩
    · obtain ⟨options, hargs, hstarted, hname, hparsed⟩ := hwas.args
      exact ⟨options, hargs, hstarted, hname, fun _ => hparsed (by simp [hphase, Phase.parsed])⟩
    · exact hwas.pluginless (by simp [hphase, Phase.pluginless])
    · exact hwas.early (by simp [hphase, Phase.early])
    · exact hwas.alive (by simp [hphase])
  · cases hs

/-- The token is written to one process, and nobody waits for it any more. -/
theorem serve (h : Sound tr s) {m : ℕ} (client : Option ℕ) (pending : ℕ)
    (hlistening : (s.host.server m).listening = true) :
    Sound (tr ++ [.host (.tokenWritten m (s.host.server m).token), .served m client])
      { s with
        host := s.host.setServer m { s.host.server m with pending, listening := false }
        waiting := Function.update s.waiting m [] } := by
  have hunserved := (h.listening m hlistening).2
  refine ⟨⟨fun k hk => ?_, fun k hk => ?_, fun k n hm => ?_, h.running⟩, ?_, fun n c hc => ?_⟩
  · have hne : k ≠ m := by
      rintro rfl
      rw [(h.fresh k hk).2.1.1] at hlistening
      cases hlistening
    simpa [setServer_server, hne, Ne.symm hne, Function.update_of_ne hne] using h.fresh k hk
  · simp only [setServer_server] at hk ⊢
    by_cases hkm : k = m
    · simp [hkm] at hk
    · rw [if_neg hkm] at hk ⊢
      rw [Function.update_of_ne hkm]
      simpa [hkm] using h.listening k hk
  · by_cases hkm : k = m
    · simp [hkm] at hm
    · simp only [Function.update_of_ne hkm] at hm
      exact h.own k n hm
  · rw [← List.singleton_append, ← List.append_assoc]
    refine Machine.each_snoc.mpr ⟨Machine.each_snoc.mpr ⟨h.order, trivial⟩, fun client' hm => ?_⟩
    simp [hunserved client'] at hm
  · refine (h.child n c hc).mono (h.child n c hc).running ?_ (by simp)
    simp only [setServer_server]
    split_ifs with hn
    · rw [hn]
    · rfl

theorem newConnection (h : Sound tr s) {m : ℕ} (hs : s.newConnection m = some (s', os)) :
    Sound (tr ++ os) s' := by
  obtain ⟨⟨h', done⟩, hstep, he⟩ := Option.map_eq_some_iff.mp hs
  obtain ⟨hlistening, hcase⟩ := newConnected hstep
  have hpending := (h.listening m hlistening).1
  cases hwaiting : s.waiting m with
  | nil =>
      rw [hwaiting] at he hpending
      obtain ⟨-, rfl, rfl⟩ | ⟨pending, hmore, -⟩ := hcase
      · obtain ⟨rfl, rfl⟩ := Prod.mk.inj he
        simpa using h
      · rw [hpending] at hmore
        cases hmore
  | cons client rest =>
      rw [hwaiting] at he hpending
      obtain ⟨hnone, -⟩ | ⟨pending, -, rfl, rfl⟩ := hcase
      · rw [hpending] at hnone
        cases hnone
      · have hserve := h.serve client pending hlistening
        cases client with
        | none =>
            obtain ⟨rfl, rfl⟩ := Prod.mk.inj he
            exact hserve
        | some n =>
            obtain rfl := h.own m n (by simp [hwaiting])
            cases hc : s.child n with
            | none =>
                simp only [hc] at he
                obtain ⟨rfl, rfl⟩ := Prod.mk.inj he
                exact hserve
            | some c =>
                simp only [hc] at he
                obtain ⟨rfl, rfl⟩ := Prod.mk.inj he
                have hproper := hserve.child n c hc
                refine hserve.change hc { hproper with mail := fun authToken hmail => ?_ }
                simp only [setServer_server, if_true, Option.some.injEq] at hmail
                subst hmail
                simp

/-- The host reads some of what its child printed. -/
theorem readyRead (h : Sound tr s) {k : ℕ} (hs : s.readyRead k = some (s', os)) :
    Sound (tr ++ os) s' := by
  unfold System.readyRead at hs
  split at hs
  · rename_i n hn
    split at hs
    · rename_i c hc
      obtain ⟨⟨h', done⟩, hstep, he⟩ := Option.map_eq_some_iff.mp hs
      obtain ⟨rfl, rfl⟩ := Prod.mk.inj he
      obtain ⟨hserver, hcreated, hprocess, hexits⟩ := server_eq hstep (.inl ⟨_, rfl⟩)
      have hsound := h.host hserver hcreated hprocess hexits
      have hproper := hsound.child n c hc
      refine hsound.change hc { hproper with silent := fun hleft => hproper.silent ?_ }
      intro hnil
      simp [hnil] at hleft
    · cases hs
  · cases hs

/-- The host hears that its child is gone. -/
theorem finished (h : Sound tr s) (hs : s.finished = some (s', os)) : Sound (tr ++ os) s' := by
  unfold System.finished at hs
  split at hs
  · rename_i n hn
    split at hs
    · rename_i args options code mail authToken stdout hc
      obtain ⟨⟨h', done⟩, hstep, he⟩ := Option.map_eq_some_iff.mp hs
      obtain ⟨-, rfl, rfl⟩ := Machine.taken_if hstep
      obtain ⟨rfl, rfl⟩ := Prod.mk.inj he
      have hexited := (h.child n _ hc).past
      refine ⟨⟨fun m hm => ?_, fun m hm => ?_, h.own, fun m hm => by cases hm⟩, ?_, fun m c hm => ?_⟩
      · simpa [Host.finished] using h.fresh m hm
      · simpa [Host.finished] using h.listening m hm
      · exact Machine.each_snoc.mpr ⟨h.order, n, hexited⟩
      · refine (h.child m c hm).mono (.inr ?_) rfl (by simp [Host.finished])
        obtain hrunning | hgone := (h.child m c hm).running
        · obtain rfl := Option.some.inj (hn.symm.trans hrunning)
          obtain rfl := Option.some.inj (hc.symm.trans hm)
          exact ⟨code, rfl⟩
        · exact hgone
    · cases hs
  · cases hs

/-- A child exits, having done `os`. -/
theorem exit (h : Sound tr s) {n : ℕ} {c : Child} (hc : s.child n = some c) (os : List ChildObs)
    (code : ℤ) (halive : ∀ code, c.phase ≠ .exited code) (hos : ∀ code, ChildObs.exited code ∉ os)
    (horder : Machine.Each InTurn (tr ++ os.map (.child n))) :
    Sound (tr ++ (os ++ [ChildObs.exited code]).map (.child n))
      (s.setChild n { c with phase := .exited code }) := by
  refine h.setChild hc _ ?_ ((h.child n c hc).exits os code)
  rw [List.map_append, ← List.append_assoc]
  refine Machine.each_snoc.mpr ⟨horder, fun code' hm => ?_⟩
  obtain hm | hm := List.mem_append.mp hm
  · exact (h.child n c hc).alive halive code' hm
  · simp [hos] at hm

/-- The child goes from one place of `main` to the next. -/
theorem goes (h : Sound tr s) {n : ℕ} {c c' : Child} (hc : s.child n = some c) (os : List ChildObs)
    (halive : ∀ code, c.phase ≠ .exited code) (hargs : c'.args = c.args) (hmail : c'.mail = c.mail)
    (hoptions : ∀ options, c.args = argsOf options → (c.phase.parsed = true → c.options = options) →
      c'.phase.parsed = true → c'.options = options)
    (hplugged : c'.plugged = true →
      .served n (some n) ∈ tr ∧ .host (.tokenWritten n c'.authToken) ∈ tr ∧ c'.authToken ≠ "")
    (hstdout : c'.stdout ≠ [] → c.stdout ≠ [] ∨ c.plugged = true)
    (hpast : Past n (tr ++ os.map (.child n)) c'.phase)
    (hpluginless : c'.phase.pluginless = true → c.phase.pluginless = true ∧ os.all
      (fun o => !o.isPlugin) = true)
    (hearly : c'.phase.early = true → c.phase.early = true ∧ .ready ∉ os)
    (hexits : ∀ code, .exited code ∉ os) (horder : Machine.Each InTurn (tr ++ os.map (.child n))) :
    Sound (tr ++ os.map (.child n)) (s.setChild n c') :=
  h.setChild hc os horder ((h.child n c hc).goes halive hargs hmail hoptions hplugged hstdout hpast
    hpluginless hearly hexits)

/-- The options of a child that has parsed its arguments. -/
theorem options (h : Sound tr s) {n : ℕ} {c : Child} (hc : s.child n = some c)
    (hparsed : c.phase.parsed = true) :
    .host (.started n (argsOf c.options)) ∈ tr := by
  obtain ⟨options, -, hstarted, -, hoptions⟩ := (h.child n c hc).args
  rwa [hoptions hparsed]

theorem remote (h : Sound tr s) {n : ℕ} {c : Child} (hc : s.child n = some c)
    (hphase : c.phase = .starting) (remoting : Remoting) :
    Sound (tr ++ (c.remote remoting).2.map (.child n)) (s.setChild n (c.remote remoting).1) := by
  have hproper := h.child n c hc
  have hplugged := hproper.plugged (by simp [Child.plugged, hphase])
  have hstarted := h.options hc (by simp [hphase, Phase.parsed])
  have hinitialised : Initialised n tr := by
    have hpast := hproper.past
    rwa [hphase] at hpast
  have hhosting : Machine.Each InTurn
      (tr ++ [.child n (.hosting ("local:" ++ c.options.socket))]) :=
    Machine.each_snoc.mpr ⟨h.order, hinitialised, c.options, hstarted, rfl⟩
  have hhosts : Obs.child n (.hosting ("local:" ++ c.options.socket)) ∈
      tr ++ [.child n (.hosting ("local:" ++ c.options.socket))] := by simp
  unfold Child.remote
  dsimp only
  generalize (if remoting.viewPlugin && remoting.viewObject then Target.viewObject
    else .plugin) = remoteTarget
  split_ifs with htyped hdynamic
  · refine h.goes hc _ (by simp [hphase]) rfl rfl
      (fun _ _ hwas _ => hwas (by simp [hphase, Phase.parsed])) (fun _ => hplugged) .inl
      (.inl (by simp)) (fun hp => by cases hp)
      (fun _ => ⟨by simp [hphase, Phase.early], by simp⟩) (by simp) ?_
    rw [List.map_cons, ← List.singleton_append, ← List.append_assoc]
    exact Machine.each_snoc.mpr ⟨hhosting, _, hhosts⟩
  · exact h.exit hc [.hosting _] 1 (by simp [hphase]) (by simp) hhosting
  · refine h.goes hc _ (by simp [hphase]) rfl rfl
      (fun _ _ hwas _ => hwas (by simp [hphase, Phase.parsed])) (fun _ => hplugged) .inl
      (.inr ⟨remoteTarget, c.options.name, by simp⟩) (fun hp => by cases hp)
      (fun _ => ⟨by simp [hphase, Phase.early], by simp⟩) (by simp) ?_
    rw [List.map_cons, ← List.singleton_append, ← List.append_assoc]
    refine Machine.each_snoc.mpr ⟨hhosting, ⟨_, hhosts⟩, c.options, ?_, rfl⟩
    exact List.mem_append_left _ hstarted

theorem move (h : Sound tr s) {n : ℕ} {c c' : Child} (hc : s.child n = some c) {move : Move}
    {os : List ChildObs} (hs : c.move move = some (c', os)) :
    Sound (tr ++ os.map (.child n)) (s.setChild n c') := by
  have hproper := h.child n c hc
  cases move with
  | parse =>
      obtain ⟨hphase, hs⟩ := Option.ite_none_right_eq_some.mp hs
      obtain ⟨options, hargs, -⟩ := hproper.args
      have hparse : parseOptions c.args = some options := by
        rw [hargs]
        exact parseOptions_args _ _ _
      rw [hparse] at hs
      obtain ⟨rfl, rfl⟩ := Prod.mk.inj (Option.some.inj hs)
      refine h.goes hc [] (by simp [hphase]) rfl rfl (fun options' hargs' _ _ => ?_)
        (fun hp => by cases hp) .inl trivial (fun _ => ⟨by simp [hphase, Phase.pluginless], rfl⟩)
        (fun _ => ⟨by simp [hphase, Phase.early], by simp⟩) (by simp) (by simpa using h.order)
      have hboth := parseOptions_args options'.name options'.path options'.socket
      rw [← argsOf, ← hargs', hparse] at hboth
      exact Option.some.inj hboth
  | refused =>
      obtain ⟨hphase, rfl, rfl⟩ := Machine.taken_if hs
      exact h.exit hc [] 1 (by simp [hphase]) (by simp) (by simpa using h.order)
  | timedOut =>
      obtain ⟨hphase, rfl, rfl⟩ := Machine.taken_if hs
      exact h.exit hc [] 1 (by simp [hphase]) (by simp) (by simpa using h.order)
  | readToken =>
      simp only [Child.move] at hs
      split at hs
      · rename_i authToken hphase hmail
        split_ifs at hs with htoken
        · obtain ⟨rfl, rfl⟩ := Prod.mk.inj (Option.some.inj hs)
          exact h.exit hc [] 1 (by simp [hphase]) (by simp) (by simpa using h.order)
        · obtain ⟨rfl, rfl⟩ := Prod.mk.inj (Option.some.inj hs)
          obtain ⟨hserved, hwritten⟩ := hproper.mail authToken hmail
          exact h.goes hc [] (by simp [hphase]) rfl rfl
            (fun _ _ hwas _ => hwas (by simp [hphase, Phase.parsed]))
            (fun _ => ⟨hserved, hwritten, htoken⟩) .inl trivial
            (fun _ => ⟨by simp [hphase, Phase.pluginless], rfl⟩)
            (fun _ => ⟨by simp [hphase, Phase.early], by simp⟩) (by simp) (by simpa using h.order)
      · cases hs
  | load ok =>
      obtain ⟨hphase, hs⟩ := Option.ite_none_right_eq_some.mp hs
      have hplugged := hproper.plugged (by simp [Child.plugged, hphase])
      split_ifs at hs
      · obtain ⟨rfl, rfl⟩ := Prod.mk.inj (Option.some.inj hs)
        refine h.goes hc _ (by simp [hphase]) rfl rfl
          (fun _ _ hwas _ => hwas (by simp [hphase, Phase.parsed])) (fun _ => hplugged) .inl
          ⟨c.options.path, by simp⟩ (fun _ => ⟨by simp [hphase, Phase.pluginless], rfl⟩)
          (fun _ => ⟨by simp [hphase, Phase.early], by simp⟩) (by simp) ?_
        refine Machine.each_snoc.mpr ⟨h.order, hplugged.1, c.options, ?_, rfl⟩
        exact h.options hc (by simp [hphase, Phase.parsed])
      · obtain ⟨rfl, rfl⟩ := Prod.mk.inj (Option.some.inj hs)
        exact h.exit hc [] 1 (by simp [hphase]) (by simp) (by simpa using h.order)
  | instantiate ok initLogos =>
      obtain ⟨hphase, hs⟩ := Option.ite_none_right_eq_some.mp hs
      have hplugged := hproper.plugged (by simp [Child.plugged, hphase])
      have hloaded : ∃ path, .child n (.loaded path) ∈ tr := by
        have hpast := hproper.past
        rwa [hphase] at hpast
      cases ok with
      | false =>
          obtain ⟨rfl, rfl⟩ := Prod.mk.inj (Option.some.inj hs)
          exact h.exit hc [] 1 (by simp [hphase]) (by simp) (by simpa using h.order)
      | true =>
          obtain ⟨rfl, rfl⟩ := Prod.mk.inj (Option.some.inj hs)
          refine h.goes hc _ (by simp [hphase]) rfl rfl
            (fun _ _ hwas _ => hwas (by simp [hphase, Phase.parsed])) (fun _ => hplugged) .inl
            ⟨⟨c.authToken, by simp⟩, initLogos, by simp, fun hi => by simp [hi]⟩
            (fun hp => by cases hp)
            (fun _ => ⟨by simp [hphase, Phase.early], by cases initLogos <;> simp⟩)
            (by cases initLogos <;> simp) ?_
          obtain ⟨hnone, hinit⟩ := hproper.pluginless (by simp [hphase, Phase.pluginless])
          have hinstantiated : Machine.Each InTurn (tr ++ [.child n (.instantiated initLogos)]) :=
            Machine.each_snoc.mpr ⟨h.order, hloaded, hnone⟩
          have hadopted : Machine.Each InTurn (tr ++ [.child n (.instantiated initLogos)] ++
              [.child n (.adopted c.authToken)]) :=
            Machine.each_snoc.mpr ⟨hinstantiated, hplugged.2.2,
              List.mem_append_left _ hplugged.2.1, initLogos, by simp⟩
          cases initLogos with
          | false => simpa using hadopted
          | true =>
              have hturn : InTurn (tr ++ [.child n (.instantiated true)] ++
                  [.child n (.adopted c.authToken)]) (.child n .initLogos) :=
                ⟨⟨c.authToken, by simp⟩, by simp, by simp [hinit]⟩
              simpa using Machine.each_snoc.mpr ⟨hadopted, hturn⟩
  | remote remoting =>
      obtain ⟨hphase, rfl, rfl⟩ := Machine.taken_if hs
      exact h.remote hc hphase remoting
  | remoteModels properties =>
      obtain ⟨hphase, rfl, rfl⟩ := Machine.taken_if hs
      have hplugged := hproper.plugged (by simp [Child.plugged, hphase])
      have hremoted : Remoted n tr := by
        have hpast := hproper.past
        rwa [hphase] at hpast
      refine h.goes hc _ (by simp [hphase]) rfl rfl
        (fun _ _ hwas _ => hwas (by simp [hphase, Phase.parsed])) (fun _ => hplugged)
        (fun _ => .inr (by simp [Child.plugged, hphase])) (by simp [Past]) (fun hp => by cases hp)
        (fun he => by cases he) (by simp) ?_
      refine each_append h.order fun o ho more => ?_
      simp only [List.map_append, List.map_map, List.mem_append, List.mem_map, List.map_cons,
        List.map_nil, List.mem_singleton] at ho
      obtain ⟨name, -, rfl⟩ | rfl := ho
      · exact hremoted.mono more
      · exact hremoted.mono more
  | print data =>
      obtain ⟨hp, rfl, rfl⟩ := Machine.taken_if hs
      have halive : ∀ code, c.phase ≠ .exited code := by
        intro code hcode
        simp [Child.plugged, hcode] at hp
      refine h.goes hc [] halive rfl rfl (fun _ _ hwas => hwas) (fun _ => hproper.plugged hp)
        (fun _ => .inr hp) (by simpa using hproper.past) (fun hp => ⟨hp, rfl⟩)
        (fun he => ⟨he, by simp⟩) (by simp)
        (by simpa using h.order)
  | quit =>
      obtain ⟨hphase, rfl, rfl⟩ := Machine.taken_if hs
      have hplugged := hproper.plugged (by simp [Child.plugged, hphase])
      have hready : .child n .ready ∈ tr := by
        have hpast := hproper.past
        rwa [hphase] at hpast
      refine h.goes hc _ (by simp [hphase]) rfl rfl
        (fun _ _ hwas _ => hwas (by simp [hphase, Phase.parsed])) (fun _ => hplugged) .inl
        (by simp [Past]) (fun hp => by cases hp) (fun he => by cases he) (by simp) ?_
      exact Machine.each_snoc.mpr ⟨h.order, hready⟩
  | unload rc =>
      obtain ⟨hphase, rfl, rfl⟩ := Machine.taken_if hs
      have hhook : .child n .aboutToUnload ∈ tr := by
        have hpast := hproper.past
        rwa [hphase] at hpast
      exact h.exit hc [.deleted] rc (by simp [hphase]) (by simp)
        (Machine.each_snoc.mpr ⟨h.order, hhook⟩)
  | die code =>
      simp only [Child.move] at hs
      split at hs
      · cases hs
      · rename_i halive
        obtain ⟨rfl, rfl⟩ := Prod.mk.inj (Option.some.inj hs)
        exact h.exit hc [] code halive (by simp) (by simpa using h.order)

end Sound

/-- A started process is observed. -/
theorem mem_of_started {os : List ViewModuleHost.Obs} {n : ℕ} {args : List String}
    (h : System.started os = some (n, args)) : .started n args ∈ os := by
  obtain ⟨o, ho, hsome⟩ := List.exists_of_findSome?_eq_some h
  cases o with
  | started m args' =>
      obtain ⟨rfl, rfl⟩ := Prod.mk.inj (Option.some.inj hsome)
      exact ho
  | _ => cases hsome

theorem Sound.step (h : Sound tr s) (hs : UiHost.step s a = some (s', os)) :
    Sound (tr ++ os) s' := by
  cases a with
  | spawn moduleName pluginPath authToken outcome =>
      have hspawned := spawned moduleName pluginPath authToken outcome s.host
      simp only [UiHost.step, System.spawn, Option.some.injEq] at hs
      generalize s.host.spawn moduleName pluginPath authToken outcome = done at hspawned hs
      cases hspawned with
      | idle hstarted hcreated hprocess hrefused hserver hos =>
          simp only [hstarted] at hs
          obtain ⟨rfl, rfl⟩ := Prod.mk.inj hs
          exact h.idle hcreated hprocess hrefused hserver hos
      | started name socket hidle hprocess hcreated htoken hstarted hserver hsocket hos =>
          simp only [hstarted] at hs
          obtain ⟨rfl, rfl⟩ := Prod.mk.inj hs
          have hargs : ViewModuleHost.Obs.started s.host.created
              (argsOf { name, path := pluginPath, socket }) ∈ _ := mem_of_started hstarted
          exact h.started hidle hprocess hcreated hargs hserver hos
  | stop =>
      simp only [UiHost.step, System.alone] at hs
      obtain ⟨⟨h', done⟩, hstep, he⟩ := Option.map_eq_some_iff.mp hs
      obtain ⟨rfl, rfl⟩ := Prod.mk.inj he
      obtain ⟨hserver, hcreated, hprocess, hexits⟩ := server_eq hstep (.inr (.inl rfl))
      exact h.host hserver hcreated hprocess hexits
  | ret =>
      simp only [UiHost.step, System.alone] at hs
      obtain ⟨⟨h', done⟩, hstep, he⟩ := Option.map_eq_some_iff.mp hs
      obtain ⟨rfl, rfl⟩ := Prod.mk.inj he
      obtain ⟨hserver, hcreated, hprocess, hexits⟩ := server_eq hstep (.inr (.inr rfl))
      exact h.host hserver hcreated hprocess hexits
  | stranger m =>
      obtain ⟨t, henter, he⟩ := Option.map_eq_some_iff.mp hs
      obtain ⟨rfl, rfl⟩ := Prod.mk.inj he
      rw [List.append_nil]
      exact h.enter (by simp) henter
  | connect n =>
      obtain ⟨t, hconnect, he⟩ := Option.map_eq_some_iff.mp hs
      obtain ⟨rfl, rfl⟩ := Prod.mk.inj he
      rw [List.append_nil]
      exact h.connect hconnect
  | newConnection m => exact h.newConnection hs
  | readyRead k => exact h.readyRead hs
  | finished => exact h.finished hs
  | move n move =>
      simp only [UiHost.step] at hs
      split at hs
      · rename_i c hc
        obtain ⟨⟨c', done⟩, hmove, he⟩ := Option.map_eq_some_iff.mp hs
        obtain ⟨rfl, rfl⟩ := Prod.mk.inj he
        exact h.move hc hmove
      · cases hs

theorem run_sound {G : List Obs → System → Action → Prop} (h : machine.Run G tr s) : Sound tr s :=
  h.invariant Sound.initial fun hi _ hs => hi.step hs

/-! ### Runs -/

theorem served_unique (h : Machine.Each InTurn tr) {m : ℕ} {client client' : Option ℕ}
    (hm : .served m client ∈ tr) (hm' : .served m client' ∈ tr) : client = client' := by
  induction tr using List.reverseRecOn with
  | nil => cases hm
  | append_singleton tr o ih =>
      obtain ⟨hbefore, ho⟩ := Machine.each_snoc.mp h
      obtain hfirst | hlast := List.mem_append.mp hm
      · obtain hfirst' | hlast' := List.mem_append.mp hm'
        · exact ih hbefore hfirst hfirst'
        · obtain rfl := List.mem_singleton.mp hlast'
          exact absurd hfirst (ho client)
      · obtain rfl := List.mem_singleton.mp hlast
        obtain hfirst' | hlast' := List.mem_append.mp hm'
        · exact absurd hfirst' (ho client')
        · exact (Obs.served.inj (List.mem_singleton.mp hlast')).2.symm

/-- What was observed came in turn. -/
theorem inTurn_of_mem (h : Machine.Each InTurn tr) {o : Obs} (ho : o ∈ tr) :
    ∃ before, before <+: tr ∧ InTurn before o := by
  obtain ⟨before, after, rfl⟩ := List.append_of_mem ho
  exact ⟨before, List.prefix_append _ _, h before o after rfl⟩

/-- **Every step of a handshake comes in turn**, however the host, its children and other processes
interleave: a child loads its plugin after its own server wrote the token to it, makes the plugin's
object, adopts this token and no other, which is not empty, calls `initLogos` if there is one, then
hosts its own socket and remotes the plugin under its own name, is ready only then, and is asked to
unload and deletes the plugin only after that.  A child whose token went to another process never
loads its plugin. -/
theorem handshake_in_turn (h : machine.Run Machine.always tr s) :
    Machine.Each InTurn tr ∧ ∀ n path, .child n (.loaded path) ∈ tr →
      ∀ client, .served n client ∈ tr → client = some n := by
  have horder := (run_sound h).order
  refine ⟨horder, fun n path hloaded client hserved => ?_⟩
  obtain ⟨before, hbefore, hown, -⟩ := inTurn_of_mem horder hloaded
  exact served_unique horder hserved (hbefore.subset hown)

/-- A child that comes to its end, and one whose token another process took. -/
theorem one_served_one_robbed : ∃ tr s, machine.Run Machine.always tr s ∧
    Machine.Each InTurn tr ∧ .child 0 (.adopted "token") ∈ tr ∧ .child 0 .deleted ∈ tr ∧
    .served 1 none ∈ tr ∧ ∀ path, .child 1 (.loaded path) ∉ tr := by
  obtain ⟨tr, s, h, hadopted, hdeleted, hserved⟩ := Machine.exec_any (M := machine)
    (G := Machine.always)
    [.spawn "wallet" "wallet.so" "token" succeeds, .move 0 .parse, .connect 0, .newConnection 0,
      .move 0 .readToken, .move 0 (.load true), .move 0 (.instantiate true true),
      .move 0 (.remote ⟨true, true, false, true⟩), .move 0 (.remoteModels [⟨"rows", true, true, true⟩]),
      .readyRead 6, .ret, .stop, .move 0 .quit, .move 0 (.unload 0), .finished,
      .spawn "wallet" "wallet.so" "other" succeeds, .stranger 1, .move 1 .parse, .connect 1,
      .newConnection 1, .move 1 .timedOut, .finished]
    (p := fun tr _ => Obs.child 0 (.adopted "token") ∈ tr ∧ Obs.child 0 .deleted ∈ tr ∧
      Obs.served 1 none ∈ tr) (by decide +kernel)
  obtain ⟨horder, hown⟩ := handshake_in_turn h
  exact ⟨tr, s, h, horder, hadopted, hdeleted, hserved, fun path hloaded => by
    cases hown 1 path hloaded none hserved⟩

end LogosViewRuntime.UiHost
