import LogosViewRuntime.Lib.Stock
import LogosViewRuntime.PortRecovery

/-! # Who has a port

`take` removes a port from the registry, so that no second user can find it there.  What it cannot
remove is the same port under another name, in a pending list or on a device that is attached
already: publishing a port again brings it back.  The ports on offer are counted, and the runs in
which a port is handed to one device at most are exactly those that publish no attached port and
take no port that is on offer twice (`handed_once_iff`). -/

namespace LogosViewRuntime.PortTransport

open Reactive Stock

/-! ### The property and its condition -/

/-- The ports in the registry and in the servers' pending lists, as often as they are there. -/
def Process.offered (s : Process) : List PortId :=
  values s.registry ++ s.servers.flatMap (·.pending)

/-- A port is attached to one device, and is not on offer then. -/
structure HandedOnce (s : Process) : Prop where
  device : ∀ d d', ∀ device ∈ s.devices d, ∀ device' ∈ s.devices d',
    device'.port = device.port → d' = d
  registry : ∀ d, ∀ device ∈ s.devices d, ∀ name, s.registry.lookup name ≠ some device.port
  pending : ∀ d, ∀ device ∈ s.devices d, ∀ server ∈ s.servers, device.port ∉ server.pending

/-- A port that is published is attached to no device, and a port that is taken for a device is on
offer once. -/
def TakesSole (_ : List Obs) (s : Process) : Action → Prop
  | .publish name port => name ≠ "" → s.attachedTo port = []
  | .connectToServer c => s.deviceIsOpen c = false →
      ∀ port ∈ s.registry.lookup (portNameOf (s.clients c).url), s.offered.count port = 1
  | .configureNewConnection i =>
      ∀ server ∈ s.servers[i]?, ∀ port ∈ server.pending.head?, s.offered.count port = 1
  | _ => True

instance (tr : List Obs) (s : Process) : (a : Action) → Decidable (TakesSole tr s a)
  | .publish name port => inferInstanceAs (Decidable (name ≠ "" → s.attachedTo port = []))
  | .connectToServer c => inferInstanceAs (Decidable (s.deviceIsOpen c = false →
      ∀ port ∈ s.registry.lookup (portNameOf (s.clients c).url), s.offered.count port = 1))
  | .configureNewConnection i => inferInstanceAs (Decidable
      (∀ server ∈ s.servers[i]?, ∀ port ∈ server.pending.head?, s.offered.count port = 1))
  | .withdraw _ | .closePort _ | .turn | .disconnectFromServer _ | .createServer | .listen .. |
    .closeServer _ | .closeIo _ => inferInstanceAs (Decidable True)

/-- A port that is published is neither attached nor on offer. -/
def PublishesFresh (_ : List Obs) (s : Process) : Action → Prop
  | .publish _ port => s.attachedTo port = [] ∧ port ∉ s.offered
  | _ => True

variable {s s' : Process}

theorem mem_offered {port : PortId} : port ∈ s.offered ↔
    (∃ name, s.registry.lookup name = some port) ∨ ∃ server ∈ s.servers, port ∈ server.pending := by
  rw [Process.offered, List.mem_append, mem_values, List.mem_flatMap]

/-- Devices have different ports, none of which is on offer. -/
theorem handedOnce_iff : HandedOnce s ↔
    (∀ d d', ∀ device ∈ s.devices d, ∀ device' ∈ s.devices d',
      device'.port = device.port → d' = d) ∧
    ∀ d, ∀ device ∈ s.devices d, device.port ∉ s.offered := by
  constructor
  · rintro ⟨hdevice, hregistry, hpending⟩
    refine ⟨hdevice, fun d device hd hoffered => ?_⟩
    obtain ⟨name, hname⟩ | ⟨server, hserver, hport⟩ := mem_offered.mp hoffered
    · exact hregistry d device hd name hname
    · exact hpending d device hd server hserver hport
  · rintro ⟨hdevice, hoffered⟩
    refine ⟨hdevice, fun d device hd name hname => ?_, fun d device hd server hserver hport => ?_⟩
    · exact hoffered d device hd (mem_offered.mpr (.inl ⟨name, hname⟩))
    · exact hoffered d device hd (mem_offered.mpr (.inr ⟨server, hserver, hport⟩))

/-! ### What is on offer -/

section offers

variable {name : String} {port p : PortId} {i : ℕ} {server : Server}

theorem count_offered (p : PortId) (s : Process) : s.offered.count p =
    (values s.registry).count p + (s.servers.flatMap (·.pending)).count p :=
  List.count_append ..

theorem Spares.offered (h : Spares s s') : s'.offered = s.offered := by
  rw [Process.offered, Process.offered, h.registry, h.servers]

theorem count_withdraw (hname : s.registry.lookup name = some port) (p : PortId) :
    s.offered.count p = (s.withdraw name).offered.count p + [port].count p := by
  have := count_values_erase hname p
  simp only [count_offered, Process.withdraw]
  omega

theorem count_withdraw_le (name : String) (p : PortId) (s : Process) :
    (s.withdraw name).offered.count p ≤ s.offered.count p := by
  cases hname : s.registry.lookup name with
  | none => rw [Process.withdraw, erase_of_lookup_none hname]
  | some port =>
      have := count_withdraw hname p
      omega

theorem count_setServer (hi : s.servers[i]? = some server) (server' : Server) (p : PortId) :
    (s.setServer i server').offered.count p + server.pending.count p =
      s.offered.count p + server'.pending.count p := by
  have := count_flatMap_set (·.pending) hi server' p
  simp only [count_offered, Process.setServer]
  omega

/-- A server that takes a published port has it on offer. -/
theorem count_onPublished (hi : s.servers[i]? = some server) (name : String) (p : PortId) :
    (s.onPublished name i server).offered.count p = s.offered.count p := by
  unfold Process.onPublished Process.take
  split_ifs
  · rfl
  · cases hname : s.registry.lookup name with
    | none => rfl
    | some port =>
        have hwithdraw := count_withdraw hname p
        have hset := count_setServer (s := s.withdraw name) hi
          { server with pending := server.pending ++ [port] } p
        rw [List.count_append] at hset
        change ((s.withdraw name).setServer i _).offered.count p = _
        omega

theorem count_emitPublished {servers : List Server}
    (hservers : ∀ k server, servers[k]? = some server → s.servers[i + k]? = some server)
    (name : String) (p : PortId) :
    (s.emitPublished name i servers).offered.count p = s.offered.count p := by
  induction servers generalizing i s with
  | nil => rfl
  | cons server servers ih =>
      refine (ih fun k server' hk => ?_).trans (count_onPublished (hservers 0 server rfl) name p)
      rw [getElem?_onPublished (by omega), Nat.add_right_comm]
      exact hservers (k + 1) server' hk

theorem devices_onPublished (name : String) (i : ℕ) (server : Server) (s : Process) :
    (s.onPublished name i server).devices = s.devices := by
  unfold Process.onPublished Process.take
  split_ifs
  · rfl
  · cases s.registry.lookup name <;> rfl

theorem devices_publish (name : String) (port : PortId) (s : Process) :
    (s.publish name port).devices = s.devices := by
  have hemit : ∀ (servers : List Server) (i : ℕ) (s : Process),
      (s.emitPublished name i servers).devices = s.devices := by
    intro servers
    induction servers with
    | nil => exact fun _ _ => rfl
    | cons server servers ih =>
        exact fun i s => (ih _ _).trans (devices_onPublished name i server s)
  unfold Process.publish
  split_ifs
  · rfl
  · apply hemit

/-- What is published is on offer, in the place of what was published under its name. -/
theorem count_publish (hname : name ≠ "") (port p : PortId) (s : Process) :
    (s.publish name port).offered.count p =
      (s.withdraw name).offered.count p + [port].count p := by
  rw [Process.publish, if_neg hname, count_emitPublished fun k server hk => by rwa [Nat.zero_add]]
  have := count_values_insert s.registry name port p
  simp only [count_offered, Process.withdraw]
  omega

theorem count_publish_le (name : String) (port p : PortId) (s : Process) :
    (s.publish name port).offered.count p ≤ s.offered.count p + [port].count p := by
  by_cases hname : name = ""
  · rw [Process.publish, if_pos hname]
    omega
  · have := count_withdraw_le name p s
    rw [count_publish hname]
    omega

theorem count_listen (hi : s.servers[i]? = some server) (address : String) (p : PortId) :
    (s.listen i address server).offered.count p = s.offered.count p := by
  have hset : ∀ server', server'.pending = server.pending →
      (s.setServer i server').offered.count p = s.offered.count p := by
    intro server' hpending
    have := count_setServer hi server' p
    rw [hpending] at this
    omega
  have hlt : i < s.servers.length := (List.getElem?_eq_some_iff.mp hi).1
  simp only [Process.listen]
  split_ifs
  · exact hset _ rfl
  · rw [count_onPublished (List.getElem?_set_self hlt)]
    exact hset _ rfl

end offers

/-! ### Steps that build no device -/

/-- Ports are let go of, or the devices are left alone. -/
structure Loses (s s' : Process) : Prop extends Drops s s' where
  offered : ∀ p, s'.offered.count p ≤ s.offered.count p

theorem Loses.of_spares (hdrops : Drops s s') (hspares : Spares s s') : Loses s s' :=
  ⟨hdrops, fun p => by rw [hspares.offered]⟩

theorem Drops.handedOnce (h : Drops s s') (hs : HandedOnce s)
    (hoffered : ∀ d, ∀ device ∈ s.devices d, device.port ∉ s'.offered) : HandedOnce s' := by
  refine handedOnce_iff.mpr ⟨fun d d' device hd device' hd' hport => ?_, fun d device hd => ?_⟩
  · obtain ⟨before, hbefore, hp, -⟩ := h.devices d device hd
    obtain ⟨before', hbefore', hp', -⟩ := h.devices d' device' hd'
    exact hs.device d d' before hbefore before' hbefore' (by rw [← hp, ← hp', hport])
  · obtain ⟨before, hbefore, hp, -⟩ := h.devices d device hd
    rw [hp]
    exact hoffered d before hbefore

theorem Loses.handedOnce (h : Loses s s') (hs : HandedOnce s) : HandedOnce s' := by
  refine h.toDrops.handedOnce hs fun d device hd => ?_
  have hnot := List.count_eq_zero.mpr ((handedOnce_iff.mp hs).2 d device hd)
  have := h.offered device.port
  exact List.count_eq_zero.mp (by omega)

theorem attachedTo_eq_nil {port : PortId} (hbuilt : Built s) :
    s.attachedTo port = [] ↔ ∀ d, ∀ device ∈ s.devices d, device.port ≠ port := by
  rw [Process.attachedTo, List.filter_eq_nil_iff]
  constructor
  · intro h d device hd hport
    have hlt : d < s.created := by
      by_contra hge
      rw [hbuilt d (by omega)] at hd
      cases hd
    exact h d (List.mem_range.mpr hlt) (by simp [Option.mem_def.mp hd, hport])
  · intro h d _ hany
    obtain ⟨device, hd, hport⟩ := (Option.any_eq_true ..).mp hany
    exact h d device hd (of_decide_eq_true hport)

/-- A published port is on offer, so it must not be attached. -/
theorem publish_handedOnce_iff {name : String} {port : PortId}
    (hbuilt : Built s) (hs : HandedOnce s) :
    HandedOnce (s.publish name port) ↔ (name ≠ "" → s.attachedTo port = []) := by
  have hsettles := settles_publish name port s
  rw [attachedTo_eq_nil hbuilt]
  by_cases hname : name = ""
  · rw [Process.publish, if_pos hname]
    exact iff_of_true hs fun hne => absurd hname hne
  · constructor
    · intro h _ d device hd hport
      rw [← devices_publish name port s] at hd
      have hnot := List.count_eq_zero.mpr ((handedOnce_iff.mp h).2 d device hd)
      rw [hport, count_publish hname, List.count_singleton_self] at hnot
      omega
    · intro h
      refine hsettles.toDrops.handedOnce hs fun d device hd => ?_
      have hnot := List.count_eq_zero.mpr ((handedOnce_iff.mp hs).2 d device hd)
      have hle := count_publish_le name port device.port s
      have hne : [port].count device.port = 0 :=
        List.count_eq_zero.mpr (by simpa using h hname d device hd)
      exact List.count_eq_zero.mp (by omega)

/-- A port that gets a device must not be on offer any more. -/
theorem attach_handedOnce_iff {user : User} {port : PortId} (hs : HandedOnce s) (hd : Drops s s')
    (hcount : ∀ p, s.offered.count p = s'.offered.count p + [port].count p)
    (clients : ℕ → Client) :
    HandedOnce ({ s' with clients }.attach user port).1 ↔ s.offered.count port = 1 := by
  have hport : s.offered.count port = s'.offered.count port + 1 := by
    rw [hcount, List.count_singleton_self]
  have hothers : ∀ d ≠ s'.created,
      ({ s' with clients }.attach user port).1.devices d = s'.devices d := fun d hne =>
    Function.update_of_ne hne ..
  have hself : ({ s' with clients }.attach user port).1.devices s'.created =
      some { port, user } := Function.update_self ..
  constructor
  · intro h
    have hnot := (handedOnce_iff.mp h).2 s'.created _ hself
    have : s'.offered.count port = 0 := List.count_eq_zero.mpr hnot
    omega
  · intro hone
    have hgone : ∀ d, ∀ device ∈ s'.devices d, device.port ∉ s'.offered ∧ device.port ≠ port := by
      intro d device hdevice
      obtain ⟨before, hbefore, hp, -⟩ := hd.devices d device hdevice
      have hnot := List.count_eq_zero.mpr ((handedOnce_iff.mp hs).2 d before hbefore)
      rw [← hp] at hnot
      have := hcount device.port
      refine ⟨List.count_eq_zero.mp (by omega), fun he => ?_⟩
      rw [he] at hnot
      omega
    refine handedOnce_iff.mpr ⟨fun d d' device hd' device' hd'' hp => ?_, fun d device hd' => ?_⟩
    · by_cases hnew : d = s'.created
      · subst hnew
        obtain rfl := Option.some.inj (hself.symm.trans hd')
        by_contra hne
        rw [hothers d' hne] at hd''
        exact (hgone d' device' hd'').2 hp
      · rw [hothers d hnew] at hd'
        by_cases hnew' : d' = s'.created
        · subst hnew'
          obtain rfl := Option.some.inj (hself.symm.trans hd'')
          exact absurd hp.symm (hgone d device hd').2
        · rw [hothers d' hnew'] at hd''
          obtain ⟨before, hbefore, hport', -⟩ := hd.devices d device hd'
          obtain ⟨before', hbefore', hport'', -⟩ := hd.devices d' device' hd''
          exact hs.device d d' before hbefore before' hbefore' (by rw [← hport', ← hport'', hp])
    · by_cases hnew : d = s'.created
      · subst hnew
        obtain rfl := Option.some.inj (hself.symm.trans hd')
        exact List.count_eq_zero.mp (show s'.offered.count port = 0 by omega)
      · rw [hothers d hnew] at hd'
        exact (hgone d device hd').1

/-! ### Every step -/

theorem loses_withdraw (name : String) (s : Process) : Loses s (s.withdraw name) := by
  exact ⟨(settles_withdraw name s).toDrops, fun p => count_withdraw_le name p s⟩

theorem loses_closeServer {i : ℕ} {server : Server} (hi : s.servers[i]? = some server) :
    Loses s (s.closeServer i server) := by
  refine ⟨(settles_closeServer i server s).toDrops, fun p => ?_⟩
  have := count_setServer hi { server with listening := false, pending := [] } p
  rw [List.count_nil] at this
  show (s.setServer i _).offered.count p ≤ _
  omega

theorem loses_turn (s : Process) : Loses s s.turn.1 := by
  refine ⟨drops_turn s, fun p => ?_⟩
  unfold Process.turn
  cases s.queue with
  | nil => exact Nat.le_refl _
  | cons event queue =>
      cases event with
      | closePeer port =>
          have := (spares_closePort port.peer { s with queue }).offered
          exact Nat.le_of_eq (congrArg (List.count p) this)
      | newConnection i => exact Nat.le_refl _
      | deleteDevice d => exact Nat.le_refl _

/-- A step publishes a port, takes one for a device or does neither. -/
inductive Does (tr : List Obs) (s : Process) (a : Action) : Process → Prop
  | publish (name : String) (port : PortId) : a = .publish name port →
      Does tr s a (s.publish name port)
  | lose {s' : Process} : Loses s s' → (∀ name port, a ≠ .publish name port) → TakesSole tr s a →
      Does tr s a s'
  | take {s₁ : Process} (clients : ℕ → Client) (user : User) (port : PortId) : Drops s s₁ →
      (∀ p, s.offered.count p = s₁.offered.count p + [port].count p) →
      (TakesSole tr s a ↔ s.offered.count port = 1) →
      Does tr s a ({ s₁ with clients }.attach user port).1

theorem connectToServer_does (tr : List Obs) (c : ℕ) (s : Process) :
    Does tr s (.connectToServer c) (s.connectToServer c).1 := by
  have htakes : TakesSole tr s (.connectToServer c) ↔ (s.deviceIsOpen c = false →
    ∀ port ∈ s.registry.lookup (portNameOf (s.clients c).url), s.offered.count port = 1) := .rfl
  obtain ⟨hopen, he⟩ | ⟨hopen, hlookup, s', ⟨hsettles, hspares⟩, he⟩ |
    ⟨hopen, port, s', ⟨hsettles, hspares⟩, hlookup, he⟩ := connectToServer_cases c s
  · rw [he]
    refine .lose (.of_spares (.refl s) (.refl s)) (by simp) (htakes.mpr fun hclosed => ?_)
    rw [hopen] at hclosed
    cases hclosed
  · rw [he]
    refine .lose (.of_spares hsettles.toDrops hspares) (by simp) (htakes.mpr ?_)
    simp [hlookup]
  · rw [he]
    refine .take _ _ _ hsettles.toDrops (fun p => ?_) (htakes.trans ?_)
    · rw [hspares.offered]
      exact count_withdraw hlookup p
    · simp [hopen, hlookup]

theorem configureNewConnection_does (tr : List Obs) {i : ℕ} {server : Server}
    (hi : s.servers[i]? = some server) :
    Does tr s (.configureNewConnection i) (s.configureNewConnection i server).1 := by
  have htakes : TakesSole tr s (.configureNewConnection i) ↔
    ∀ server ∈ s.servers[i]?, ∀ port ∈ server.pending.head?, s.offered.count port = 1 := .rfl
  simp only [hi, Option.mem_def, Option.some.injEq, forall_eq'] at htakes
  unfold Process.configureNewConnection
  cases hpending : server.pending with
  | nil =>
      refine .lose (.of_spares (.refl s) (.refl s)) (by simp) (htakes.mpr ?_)
      simp [hpending]
  | cons port pending =>
      have hsettles : Settles s (s.setServer i { server with pending }) :=
        .of_eq rfl rfl rfl rfl List.prefix_rfl
      refine .take _ _ _ hsettles.toDrops (fun p => ?_) (htakes.trans ?_)
      · have := count_setServer hi { server with pending } p
        rw [hpending, ← List.singleton_append, List.count_append] at this
        dsimp only at this
        omega
      · simp [hpending]

theorem step_does {a : Action} {os : List Obs} (tr : List Obs) (hs : step s a = some (s', os)) :
    Does tr s a s' := by
  cases step_cases hs with
  | publish name port => exact .publish name port rfl
  | withdraw name => exact .lose (loses_withdraw name s) (by simp) trivial
  | closePort port =>
      exact .lose (.of_spares (drops_closePort port s) (spares_closePort port s)) (by simp) trivial
  | turn => exact .lose (loses_turn s) (by simp) trivial
  | connectToServer c => exact connectToServer_does tr c s
  | disconnectFromServer c =>
      exact .lose (.of_spares (settles_disconnectFromServer c s).toDrops
        (spares_disconnectFromServer c s)) (by simp) trivial
  | createServer =>
      refine .lose ⟨(settles_createServer s).toDrops, fun p => ?_⟩ (by simp) trivial
      simp [count_offered]
  | listen i address server hi =>
      have hdrops := (settles_listen i address server s).toDrops
      exact .lose ⟨hdrops, fun p => Nat.le_of_eq (count_listen hi address p)⟩ (by simp) trivial
  | closeServer i server hi => exact .lose (loses_closeServer hi) (by simp) trivial
  | configureNewConnection i server hi => exact configureNewConnection_does tr hi
  | closeIo d =>
      exact .lose (.of_spares (settles_closeIo d s).toDrops (spares_closeIo d s)) (by simp) trivial

/-- A step hands no port out a second time exactly when it publishes no attached port and takes no
port that is on offer twice. -/
theorem Does.exact {tr : List Obs} {a : Action} (h : Does tr s a s') (hbuilt : Built s)
    (hs : HandedOnce s) : Built s' ∧ (HandedOnce s' ↔ TakesSole tr s a) := by
  cases h with
  | publish name port ha =>
      subst ha
      exact ⟨(settles_publish name port s).toDrops.built hbuilt, publish_handedOnce_iff hbuilt hs⟩
  | lose hloses _ hsole =>
      exact ⟨hloses.toDrops.built hbuilt, iff_of_true (hloses.handedOnce hs) hsole⟩
  | take clients user port hdrops hcount hsole =>
      have hbuilt' := hdrops.built hbuilt
      exact ⟨attach_built hbuilt', (attach_handedOnce_iff hs hdrops hcount clients).trans hsole.symm⟩

/-- Only publishing brings a port on offer. -/
theorem Does.offered {tr : List Obs} {a : Action} (h : Does tr s a s')
    (hfresh : PublishesFresh tr s a) (hs : ∀ p, s.offered.count p ≤ 1) :
    ∀ p, s'.offered.count p ≤ 1 := by
  intro p
  have hp := hs p
  cases h with
  | publish name port ha =>
      subst ha
      have hle := count_publish_le name port p s
      by_cases he : p = port
      · have hnot := List.count_eq_zero.mpr hfresh.2
        rw [he, List.count_singleton_self] at hle
        rw [he]
        omega
      · have hne : [port].count p = 0 := List.count_eq_zero.mpr (by simpa using he)
        omega
  | lose hloses _ _ =>
      have := hloses.offered p
      omega
  | @take s₁ clients user port _ hcount _ =>
      have := hcount p
      show s₁.offered.count p ≤ 1
      omega

/-! ### Runs -/

section run

variable {url : ℕ → String} {tr : List Obs}

theorem initial_handedOnce (url : ℕ → String) : HandedOnce (machine url).init :=
  ⟨nofun, nofun, nofun⟩

theorem run_handedOnce (h : (machine url).Run TakesSole tr s) : Built s ∧ HandedOnce s := by
  refine h.invariant (I := fun _ s => Built s ∧ HandedOnce s)
    ⟨fun _ _ => rfl, initial_handedOnce url⟩ fun {tr _ _ _ _} hi hg hs => ?_
  obtain ⟨hbuilt, hexact⟩ := (step_does tr hs).exact hi.1 hi.2
  exact ⟨hbuilt, hexact.mpr hg⟩

/-- A port that is on offer once at most is on offer once when it is taken. -/
theorem PublishesFresh.takesSole {a : Action} (h : PublishesFresh tr s a)
    (hs : ∀ p, s.offered.count p ≤ 1) : TakesSole tr s a := by
  have hone : ∀ port ∈ s.offered, s.offered.count port = 1 := by
    intro port hport
    have := hs port
    have := List.count_pos_iff.mpr hport
    omega
  cases a with
  | publish name port => exact fun _ => h.1
  | connectToServer c =>
      intro _ port hport
      exact hone port (mem_offered.mpr (.inl ⟨_, hport⟩))
  | configureNewConnection i =>
      intro server hserver port hport
      refine hone port (mem_offered.mpr (.inr ⟨server, List.mem_of_getElem? hserver, ?_⟩))
      exact List.mem_of_head? hport
  | _ => trivial

theorem run_fresh (h : (machine url).Run PublishesFresh tr s) :
    (machine url).Run TakesSole tr s ∧ ∀ p, s.offered.count p ≤ 1 := by
  induction h with
  | start => exact ⟨.start, fun _ => Nat.zero_le _⟩
  | step _ hg hs ih =>
      obtain ⟨hrun, hoffered⟩ := ih
      exact ⟨hrun.step (hg.takesSole hoffered) hs, (step_does _ hs).offered hg hoffered⟩

/-- **A port is handed to one connection** at most, and is not on offer then, at every moment of
exactly the runs that publish no attached port and take no port that is on offer twice; among them
are the runs in which a port is published only while it is neither attached nor on offer. -/
theorem handed_once_iff (url : ℕ → String) :
    (∀ tr s, (machine url).Run TakesSole tr s → HandedOnce s) ∧
    (∀ tr s, (machine url).Run ((machine url).keeps fun _ => HandedOnce) tr s →
      (machine url).Run TakesSole tr s) ∧
    ∀ tr s, (machine url).Run PublishesFresh tr s → (machine url).Run TakesSole tr s := by
  have hexact := Machine.Run.exact_always (M := machine url) (C := TakesSole)
    (P := fun _ => HandedOnce) (initial_handedOnce url) fun {tr _ _ _ _} hrun hP hs =>
      ((step_does tr hs).exact (run_handedOnce hrun).1 hP).2
  exact ⟨hexact.1, hexact.2, fun tr s h => (run_fresh h).1⟩

end run

/-- A port under two names, one of which is withdrawn before a client takes it; two servers on one
name; and a port that is published again after its device is deleted. -/
theorem published_and_taken : ∃ tr s, (machine fun _ => "runtime").Run TakesSole tr s ∧
    HandedOnce s ∧ tr.filter (fun | .attached .. => true | _ => false) =
      [.attached 0 (.client 0) (0, .b), .attached 1 (.server 0) (1, .b),
        .attached 2 (.client 1) (0, .b)] := by
  have h := Machine.exec_run (M := machine fun _ => "runtime") (G := TakesSole)
    [.publish "runtime" (0, .b), .publish "backend" (0, .b), .withdraw "backend",
      .connectToServer 0, .createServer, .createServer, .listen 0 "backend", .listen 1 "backend",
      .publish "backend" (1, .b), .turn, .configureNewConnection 0, .disconnectFromServer 0,
      .connectToServer 0, .turn, .publish "runtime" (0, .b), .connectToServer 1] rfl
  exact ⟨_, _, h, (handed_once_iff _).1 _ _ h, rfl⟩

/-- A port under two names is handed to two clients. -/
theorem published_twice : ∃ tr s,
    (machine fun c => if c = 0 then "runtime" else "backend").Run Machine.always tr s ∧
    ¬ HandedOnce s ∧ s.attachedTo (0, .b) = [0, 1] := by
  have h := Machine.exec_run (M := machine fun c => if c = 0 then "runtime" else "backend")
    (G := Machine.always) [.publish "runtime" (0, .b), .publish "backend" (0, .b),
      .connectToServer 0, .connectToServer 1] rfl
  refine ⟨_, _, h, fun honce => ?_, rfl⟩
  cases honce.device 0 1 ⟨(0, .b), .client 0, true⟩ rfl ⟨(0, .b), .client 1, true⟩ rfl rfl

end LogosViewRuntime.PortTransport
