import LogosViewRuntime.PortTransport

/-! # A retry can always get out

A device learns that its port is gone from the port's `closed` signal and from nothing else.  A
port closes at most once, so a device built over a port that has closed already stays open for
ever, and its user never asks for another port (`dead_port_is_kept`).  `Told` is what holds in
every run: a port that is closed and whose peer is not has the peer's close in the event queue.
With it, exactly the runs that take no port after its `closed` keep every open device over a port
that is open or about to report (`no_dead_device_iff_takes_live`), and then a retry does get
out. -/

namespace LogosViewRuntime.PortTransport

open Reactive

/-! ### The property and its condition -/

/-- The port's `closed` is still to come: the peer has closed and the port has not heard. -/
def Reporting (port : PortId) (s : Process) : Prop :=
  s.opened port = true ∧ .closePeer port.peer ∈ s.queue

/-- No device is open over a port that is closed and has nothing to report any more. -/
def NoDeadDevice (_ : List Obs) (s : Process) : Prop :=
  ∀ d, ∀ device ∈ s.devices d, device.opened = true →
    s.isOpen device.port = true ∨ Reporting device.port s

/-- The client holds an open device over a port that is open or about to report. -/
def HoldsLive (c : ℕ) (s : Process) : Prop :=
  ∃ d, ∃ device ∈ s.devices d, (s.clients c).device = some d ∧ device.opened = true ∧
    (s.isOpen device.port = true ∨ Reporting device.port s)

/-- The event loop runs `n` events. -/
def turns : ℕ → Process → Process
  | 0, s => s
  | n + 1, s => turns n s.turn.1

/-- The event loop alone gets a client whose port is gone to the point where its next retry takes
the port published under its name. -/
def Recovers (s : Process) : Prop :=
  ∀ c fresh, (∀ d ∈ (s.clients c).device, ∀ device ∈ s.devices d, s.isOpen device.port = false) →
    s.registry.lookup (portNameOf (s.clients c).url) = some fresh →
    ∃ n d, ((turns n s).connectToServer c).2 = [.attached d (.client c) fresh]

/-- A port that is taken for a device has not emitted `closed` yet. -/
def TakesLive (_ : List Obs) (s : Process) : Action → Prop
  | .connectToServer c => s.deviceIsOpen c = false →
      ∀ port ∈ s.registry.lookup (portNameOf (s.clients c).url), s.opened port = true
  | .configureNewConnection i =>
      ∀ server ∈ s.servers[i]?, ∀ port ∈ server.pending.head?, s.opened port = true
  | _ => True

instance (tr : List Obs) (s : Process) : (a : Action) → Decidable (TakesLive tr s a)
  | .connectToServer c => inferInstanceAs (Decidable (s.deviceIsOpen c = false →
      ∀ port ∈ s.registry.lookup (portNameOf (s.clients c).url), s.opened port = true))
  | .configureNewConnection i => inferInstanceAs (Decidable
      (∀ server ∈ s.servers[i]?, ∀ port ∈ server.pending.head?, s.opened port = true))
  | .publish .. | .withdraw _ | .closePort _ | .turn | .disconnectFromServer _ | .createServer |
    .listen .. | .closeServer _ | .closeIo _ => inferInstanceAs (Decidable True)

@[simp] theorem PortId.peer_peer (port : PortId) : PortId.peer port.peer = port := by
  simp [PortId.peer]

theorem PortId.peer_ne (port : PortId) : port.peer ≠ port := by
  obtain ⟨n, e⟩ := port
  cases e <;> simp [PortId.peer, Loopback.End.peer]

/-! ### Steps that build no device -/

variable {s s' s'' : Process}

/-- Devices and clients only lose. -/
structure Drops (s s' : Process) : Prop where
  created : s'.created = s.created
  devices : ∀ d, ∀ device' ∈ s'.devices d, ∃ device ∈ s.devices d,
    device'.port = device.port ∧ (device'.opened = true → device.opened = true)
  clients : ∀ c, (s'.clients c).url = (s.clients c).url ∧
    ∀ d ∈ (s'.clients c).device, d ∈ (s.clients c).device

/-- The same, without closing a port. -/
structure Settles (s s' : Process) : Prop extends Drops s s' where
  opened : s'.opened = s.opened
  queue : s.queue <+: s'.queue

theorem Drops.refl (s : Process) : Drops s s :=
  ⟨rfl, fun _ device hd => ⟨device, hd, rfl, id⟩, fun _ => ⟨rfl, fun _ => id⟩⟩

theorem Drops.trans (h : Drops s s') (h' : Drops s' s'') : Drops s s'' where
  created := h'.created.trans h.created
  devices d device'' hd := by
    obtain ⟨device', hd', hp', ho'⟩ := h'.devices d device'' hd
    obtain ⟨device, hd, hp, ho⟩ := h.devices d device' hd'
    exact ⟨device, hd, hp'.trans hp, ho ∘ ho'⟩
  clients c := ⟨(h'.clients c).1.trans (h.clients c).1,
    fun d hd => (h.clients c).2 d ((h'.clients c).2 d hd)⟩

theorem Settles.refl (s : Process) : Settles s s := ⟨.refl s, rfl, List.prefix_rfl⟩

theorem Settles.trans (h : Settles s s') (h' : Settles s' s'') : Settles s s'' :=
  ⟨h.toDrops.trans h'.toDrops, h'.opened.trans h.opened, h.queue.trans h'.queue⟩

/-- Devices are numbered as they are built. -/
abbrev Built (s : Process) : Prop := ∀ d, s.created ≤ d → s.devices d = none

theorem Drops.built (h : Drops s s') (hbuilt : Built s) : Built s' := by
  intro d hd
  cases hdevice : s'.devices d with
  | none => rfl
  | some device' =>
      obtain ⟨device, hbefore, -⟩ := h.devices d device' hdevice
      rw [hbuilt d (by rw [← h.created]; exact hd)] at hbefore
      cases hbefore

/-- Only the registry, the servers and the queue are touched. -/
theorem Settles.of_eq (hcreated : s'.created = s.created) (hdevices : s'.devices = s.devices)
    (hclients : s'.clients = s.clients) (hopened : s'.opened = s.opened)
    (hqueue : s.queue <+: s'.queue) : Settles s s' := by
  refine ⟨⟨hcreated, ?_, ?_⟩, hopened, hqueue⟩
  · rw [hdevices]
    exact (Drops.refl s).devices
  · rw [hclients]
    exact (Drops.refl s).clients

theorem settles_discardDevice (c : ℕ) (s : Process) : Settles s (s.discardDevice c) := by
  unfold Process.discardDevice
  split
  · exact .refl s
  · refine ⟨⟨rfl, (Drops.refl s).devices, fun c' => ?_⟩, rfl, List.prefix_append _ _⟩
    by_cases hc : c' = c
    · subst hc
      simp
    · simp [Function.update_of_ne hc]

theorem settles_closeDevice (d : ℕ) (s : Process) : Settles s (s.closeDevice d) := by
  refine ⟨⟨rfl, fun d' device' hd => ?_, (Drops.refl s).clients⟩, rfl, List.prefix_rfl⟩
  simp only [Process.closeDevice] at hd
  by_cases he : d' = d
  · subst he
    rw [Function.update_self, Option.mem_def, Option.map_eq_some_iff] at hd
    obtain ⟨device, hdevice, rfl⟩ := hd
    exact ⟨device, hdevice, rfl, nofun⟩
  · rw [Function.update_of_ne he] at hd
    exact ⟨device', hd, rfl, id⟩

theorem closeDevice_closed (d : ℕ) (s : Process) :
    ∀ device ∈ (s.closeDevice d).devices d, device.opened = false := by
  intro device hd
  simp only [Process.closeDevice] at hd
  rw [Function.update_self, Option.mem_def, Option.map_eq_some_iff] at hd
  obtain ⟨before, -, rfl⟩ := hd
  rfl

theorem settles_disconnected (d : ℕ) (user : User) (s : Process) :
    Settles s (s.disconnected d user).1 := by
  unfold Process.disconnected
  cases user with
  | client c =>
      dsimp only
      split_ifs
      · exact settles_discardDevice c s
      · exact .refl s
  | server i => exact .refl s

theorem settles_onPortClosed (d : ℕ) (s : Process) : Settles s (s.onPortClosed d).1 := by
  unfold Process.onPortClosed
  split
  · exact .refl s
  · exact (settles_disconnected d _ s).trans (settles_closeDevice d _)

theorem onPortClosed_closed (d : ℕ) (s : Process) :
    ∀ device ∈ (s.onPortClosed d).1.devices d, device.opened = false := by
  intro device hd
  unfold Process.onPortClosed at hd
  split at hd
  · rename_i hnone
    simp [hnone] at hd
  · exact closeDevice_closed d _ device hd

theorem settles_emitClosed (ds : List ℕ) (s : Process) : Settles s (s.emitClosed ds).1 := by
  induction ds generalizing s with
  | nil => exact .refl s
  | cons d ds ih => exact (settles_onPortClosed d s).trans (ih _)

/-- Every device that hears `closed` is closed afterwards. -/
theorem emitClosed_closed {ds : List ℕ} {d : ℕ} (hd : d ∈ ds) (s : Process) :
    ∀ device ∈ (s.emitClosed ds).1.devices d, device.opened = false := by
  induction ds generalizing s with
  | nil => cases hd
  | cons d' ds ih =>
      obtain rfl | hd := List.mem_cons.mp hd
      · intro device' hm
        obtain ⟨device, hdevice, -, ho⟩ := (settles_emitClosed ds _).devices d device' hm
        have := onPortClosed_closed d s device hdevice
        cases hopened : device'.opened with
        | false => rfl
        | true => rw [ho hopened] at this; cases this
      · exact ih hd _

theorem settles_take (name : String) (s : Process) : Settles s (s.take name).1 := by
  unfold Process.take
  split
  · exact .refl s
  · exact .of_eq rfl rfl rfl rfl List.prefix_rfl

theorem settles_onPublished (name : String) (i : ℕ) (server : Server) (s : Process) :
    Settles s (s.onPublished name i server) := by
  have htake := settles_take name s
  unfold Process.onPublished
  split_ifs
  · exact .refl s
  · split
    · rename_i r hr
      rwa [hr] at htake
    · rename_i r port hr
      rw [hr] at htake
      exact htake.trans (.of_eq rfl rfl rfl rfl (List.prefix_append _ _))

/-- A server that hears of a port changes no other server. -/
theorem getElem?_onPublished {name : String} {i k : ℕ} {server : Server} (hk : i ≠ k) :
    (s.onPublished name i server).servers[k]? = s.servers[k]? := by
  unfold Process.onPublished Process.take
  split_ifs
  · rfl
  · cases s.registry.lookup name with
    | none => rfl
    | some port => exact List.getElem?_set_ne hk

theorem settles_emitPublished (name : String) (i : ℕ) (servers : List Server) (s : Process) :
    Settles s (s.emitPublished name i servers) := by
  induction servers generalizing i s with
  | nil => exact .refl s
  | cons server servers ih => exact (settles_onPublished name i server s).trans (ih _ _)

theorem settles_publish (name : String) (port : PortId) (s : Process) :
    Settles s (s.publish name port) := by
  unfold Process.publish
  split_ifs
  · exact .refl s
  · have hinsert : Settles s { s with registry := s.registry.insert name port } :=
      .of_eq rfl rfl rfl rfl List.prefix_rfl
    exact hinsert.trans (settles_emitPublished _ _ _ _)

theorem settles_listen (i : ℕ) (address : String) (server : Server) (s : Process) :
    Settles s (s.listen i address server) := by
  have hset : ∀ server, Settles s (s.setServer i server) := fun _ =>
    .of_eq rfl rfl rfl rfl List.prefix_rfl
  simp only [Process.listen]
  split_ifs
  · apply hset
  · exact (hset _).trans (settles_onPublished _ i _ _)

theorem settles_withdraw (name : String) (s : Process) : Settles s (s.withdraw name) :=
  .of_eq rfl rfl rfl rfl List.prefix_rfl

theorem settles_disconnectFromServer (c : ℕ) (s : Process) :
    Settles s (s.disconnectFromServer c) := by
  unfold Process.disconnectFromServer
  split
  · exact .refl s
  · exact settles_closeDevice _ s

theorem settles_createServer (s : Process) : Settles s { s with servers := s.servers ++ [{}] } :=
  .of_eq rfl rfl rfl rfl List.prefix_rfl

theorem settles_closeServer (i : ℕ) (server : Server) (s : Process) :
    Settles s (s.closeServer i server) :=
  .of_eq rfl rfl rfl rfl List.prefix_rfl

theorem settles_closeIo (d : ℕ) (s : Process) : Settles s (s.closeIo d) := by
  have hclosed := settles_closeDevice d s
  exact ⟨⟨hclosed.created, hclosed.devices, hclosed.clients⟩, hclosed.opened,
    List.prefix_append _ _⟩

/-! ### What is on offer -/

/-- What is on offer stays as it is, and so do its announcements. -/
structure Spares (s s' : Process) : Prop where
  registry : s'.registry = s.registry
  servers : s'.servers = s.servers
  announced : ∀ i, s'.queue.count (.newConnection i) = s.queue.count (.newConnection i)

theorem Spares.refl (s : Process) : Spares s s := ⟨rfl, rfl, fun _ => rfl⟩

theorem Spares.trans (h : Spares s s') (h' : Spares s' s'') : Spares s s'' where
  registry := h'.registry.trans h.registry
  servers := h'.servers.trans h.servers
  announced i := (h'.announced i).trans (h.announced i)

theorem spares_discardDevice (c : ℕ) (s : Process) : Spares s (s.discardDevice c) := by
  unfold Process.discardDevice
  split
  · exact .refl s
  · exact ⟨rfl, rfl, fun i => by simp⟩

theorem spares_closeDevice (d : ℕ) (s : Process) : Spares s (s.closeDevice d) :=
  ⟨rfl, rfl, fun _ => rfl⟩

theorem spares_disconnectFromServer (c : ℕ) (s : Process) :
    Spares s (s.disconnectFromServer c) := by
  unfold Process.disconnectFromServer
  split
  · exact .refl s
  · exact spares_closeDevice _ s

theorem spares_closeIo (d : ℕ) (s : Process) : Spares s (s.closeIo d) := by
  refine ⟨rfl, rfl, fun i => ?_⟩
  show (s.queue ++ [Event.deleteDevice d]).count (.newConnection i) = _
  rw [List.count_append]
  rfl

theorem spares_onPortClosed (d : ℕ) (s : Process) : Spares s (s.onPortClosed d).1 := by
  unfold Process.onPortClosed
  split
  · exact .refl s
  · rename_i device _
    refine Spares.trans ?_ (spares_closeDevice d _)
    unfold Process.disconnected
    split
    · split_ifs
      · exact spares_discardDevice _ s
      · exact .refl s
    · exact .refl s

theorem spares_emitClosed (ds : List ℕ) (s : Process) : Spares s (s.emitClosed ds).1 := by
  induction ds generalizing s with
  | nil => exact .refl s
  | cons d ds ih => exact (spares_onPortClosed d s).trans (ih _)

theorem spares_closePort (port : PortId) (s : Process) : Spares s (s.closePort port).1 := by
  unfold Process.closePort
  split_ifs
  · exact .refl s
  · have := spares_emitClosed ((s.setClosed port).attachedTo port) (s.setClosed port)
    refine ⟨this.registry, this.servers, fun i => Eq.trans ?_ (this.announced i)⟩
    simp

theorem runEvent_registry (event : Event) (s : Process) :
    (s.runEvent event).1.registry = s.registry := by
  cases event with
  | closePeer port => exact (spares_closePort port.peer s).registry
  | newConnection i => rfl
  | deleteDevice d => rfl

/-! ### What is told -/

/-- A port whose close its peer has not followed has told the peer, except for `q`. -/
structure ToldBut (q : Option PortId) (s : Process) : Prop where
  reports : ∀ port, some port ≠ q → s.opened port = false → s.opened port.peer = true →
    .closePeer port ∈ s.queue
  built : Built s

abbrev Told (s : Process) : Prop := ToldBut none s

/-- Open devices are over ports that have not emitted `closed`. -/
def Sound (s : Process) : Prop :=
  ∀ d, ∀ device ∈ s.devices d, device.opened = true → s.opened device.port = true

theorem Told.live_iff (h : Told s) (port : PortId) :
    s.isOpen port = true ∨ Reporting port s ↔ s.opened port = true := by
  constructor
  · rintro (hopen | ⟨hopened, -⟩)
    · exact (Bool.and_eq_true_iff.mp hopen).1
    · exact hopened
  · intro hopened
    cases hpeer : s.opened port.peer with
    | true => exact .inl (Bool.and_eq_true_iff.mpr ⟨hopened, hpeer⟩)
    | false => exact .inr ⟨hopened, h.reports port.peer nofun hpeer (by rwa [PortId.peer_peer])⟩

theorem Told.noDeadDevice_iff (h : Told s) (tr : List Obs) : NoDeadDevice tr s ↔ Sound s := by
  unfold NoDeadDevice Sound
  simp only [h.live_iff]

theorem Settles.told {q : Option PortId} (h : Settles s s') (ht : ToldBut q s) : ToldBut q s' where
  reports port hq hclosed hpeer := by
    rw [h.opened] at hclosed hpeer
    exact h.queue.subset (ht.reports port hq hclosed hpeer)
  built := h.toDrops.built ht.built

theorem Settles.sound (h : Settles s s') (hs : Sound s) : Sound s' := by
  intro d device' hd hopened
  obtain ⟨device, hbefore, hport, ho⟩ := h.devices d device' hd
  rw [hport, h.opened]
  exact hs d device hbefore (ho hopened)

/-! ### A port closes -/

theorem drops_closePort (port : PortId) (s : Process) : Drops s (s.closePort port).1 := by
  unfold Process.closePort
  split_ifs
  · exact .refl s
  · have := (settles_emitClosed ((s.setClosed port).attachedTo port) (s.setClosed port)).toDrops
    exact ⟨this.created, this.devices, this.clients⟩

theorem closePort_opened (port : PortId) (s : Process) :
    (s.closePort port).1.opened = Function.update s.opened port false := by
  unfold Process.closePort
  split_ifs with hopened
  · have : s.opened port = false := by simpa using hopened
    rw [← this, Function.update_eq_self]
  · exact (settles_emitClosed _ _).opened

theorem closePort_queue (port : PortId) (s : Process) :
    s.queue <+: (s.closePort port).1.queue ∧
      (s.opened port = true → .closePeer port ∈ (s.closePort port).1.queue) := by
  unfold Process.closePort
  split_ifs with hopened
  · exact ⟨List.prefix_rfl, fun h => by simp [h] at hopened⟩
  · have := (settles_emitClosed ((s.setClosed port).attachedTo port) (s.setClosed port)).queue
    exact ⟨this.trans (List.prefix_append _ _), fun _ => by simp⟩

theorem closePort_told {port : PortId} (h : ToldBut (some port.peer) s) :
    Told (s.closePort port).1 where
  reports p _ hclosed hpeer := by
    rw [closePort_opened] at hclosed hpeer
    obtain ⟨hqueue, hreport⟩ := closePort_queue port s
    by_cases hp : p = port
    · subst hp
      rw [Function.update_of_ne (PortId.peer_ne p)] at hpeer
      cases hopened : s.opened p with
      | true => exact hreport hopened
      | false =>
          exact hqueue.subset (h.reports p (fun he => PortId.peer_ne p (Option.some.inj he).symm)
            hopened hpeer)
    · have hne : p ≠ port.peer := by
        rintro rfl
        simp at hpeer
      have hpp : p.peer ≠ port := by
        rintro rfl
        exact hne (PortId.peer_peer p).symm
      rw [Function.update_of_ne hp] at hclosed
      rw [Function.update_of_ne hpp] at hpeer
      exact hqueue.subset (h.reports p (fun he => hne (Option.some.inj he)) hclosed hpeer)
  built := (drops_closePort port s).built h.built

/-- The devices attached to the port hear it and close. -/
theorem closePort_sound {port : PortId} (hbuilt : Built s) (hs : Sound s) :
    Sound (s.closePort port).1 := by
  intro d device' hd hopened
  obtain ⟨device, hbefore, hport, ho⟩ := (drops_closePort port s).devices d device' hd
  have hlive := hs d device hbefore (ho hopened)
  rw [hport, closePort_opened]
  by_cases hp : device.port = port
  · -- the device was attached, so it is closed
    subst hp
    have hlt : d < s.created := by
      by_contra hge
      rw [hbuilt d (by omega)] at hbefore
      cases hbefore
    have hattached : d ∈ (s.setClosed device.port).attachedTo device.port := by
      simp [Process.attachedTo, Process.setClosed, hlt, Option.mem_def.mp hbefore]
    unfold Process.closePort at hd
    rw [hlive] at hd
    have := emitClosed_closed hattached _ device' hd
    rw [this] at hopened
    cases hopened
  · rwa [Function.update_of_ne hp]

/-! ### A device is built -/

theorem attach_built {user : User} {port : PortId} (h : Built s) :
    Built (s.attach user port).1 := by
  intro d hd
  simp only [Process.attach] at hd ⊢
  rw [Function.update_of_ne (by omega)]
  exact h d (by omega)

theorem attach_told {user : User} {port : PortId} (h : Told s) : Told (s.attach user port).1 where
  reports := h.reports
  built := attach_built h.built

theorem attach_sound_iff {user : User} {port : PortId} (hs : Sound s) :
    Sound (s.attach user port).1 ↔ s.opened port = true := by
  constructor
  · intro h
    exact h s.created { port, user } (Function.update_self ..) rfl
  · intro hopened d device hd ho
    simp only [Process.attach] at hd
    by_cases he : d = s.created
    · subst he
      rw [Function.update_self] at hd
      obtain rfl := Option.some.inj hd
      exact hopened
    · rw [Function.update_of_ne he] at hd
      exact hs d device hd ho

/-- `connectToServer` keeps an open device, finds no port or builds a device over the port it
takes. -/
theorem connectToServer_cases (c : ℕ) (s : Process) :
    s.deviceIsOpen c = true ∧ s.connectToServer c = (s, []) ∨
    (s.deviceIsOpen c = false ∧ s.registry.lookup (portNameOf (s.clients c).url) = none ∧
      ∃ s', (Settles s s' ∧ Spares s s') ∧ s.connectToServer c = (s', [.shouldReconnect c])) ∨
    s.deviceIsOpen c = false ∧ ∃ port s',
      (Settles s s' ∧ Spares (s.withdraw (portNameOf (s.clients c).url)) s') ∧
      s.registry.lookup (portNameOf (s.clients c).url) = some port ∧
      s.connectToServer c = { s' with
        clients := Function.update s'.clients c { s'.clients c with device := some s'.created } }.attach
          (.client c) port := by
  unfold Process.connectToServer
  cases hopen : s.deviceIsOpen c with
  | true => exact .inl ⟨rfl, rfl⟩
  | false =>
      have hdiscard := settles_discardDevice c s
      have htake := settles_take (portNameOf ((s.discardDevice c).clients c).url) (s.discardDevice c)
      simp only [Bool.false_eq_true, if_false]
      unfold Process.take at htake ⊢
      have hspares := spares_discardDevice c s
      rw [(hdiscard.clients c).1, hspares.registry] at htake ⊢
      cases hlookup : s.registry.lookup (portNameOf (s.clients c).url) with
      | none => exact .inr (.inl ⟨trivial, rfl, _, ⟨hdiscard, hspares⟩, rfl⟩)
      | some port =>
          rw [hlookup] at htake
          have hrest : Spares (s.withdraw (portNameOf (s.clients c).url)) { s.discardDevice c with
              registry := s.registry.erase (portNameOf (s.clients c).url) } :=
            ⟨rfl, hspares.servers, hspares.announced⟩
          exact .inr (.inr ⟨trivial, port, _, ⟨hdiscard.trans htake, hrest⟩, rfl, rfl⟩)

/-! ### Every step -/

theorem turn_told (h : Told s) : Told s.turn.1 := by
  unfold Process.turn
  cases hqueue : s.queue with
  | nil => exact h
  | cons event queue =>
      have hrest : ∀ port, .closePeer port ≠ event → s.opened port = false →
          s.opened port.peer = true → .closePeer port ∈ queue := by
        intro port hne hclosed hpeer
        have := h.reports port nofun hclosed hpeer
        rw [hqueue] at this
        exact (List.mem_cons.mp this).resolve_left hne
      cases event with
      | closePeer port =>
          refine closePort_told ⟨fun p hp => ?_, h.built⟩
          rw [PortId.peer_peer] at hp
          exact hrest p fun he => hp (congrArg some (Event.closePeer.inj he))
      | newConnection i => exact ⟨fun p _ => hrest p nofun, h.built⟩
      | deleteDevice d =>
          refine ⟨fun p _ => hrest p nofun, fun d' hd => ?_⟩
          by_cases he : d' = d
          · subst he
            exact Function.update_self ..
          · exact (Function.update_of_ne he ..).trans (h.built d' hd)

theorem drops_turn (s : Process) : Drops s s.turn.1 := by
  unfold Process.turn
  cases hqueue : s.queue with
  | nil => exact .refl s
  | cons event queue =>
      cases event with
      | closePeer port =>
          have := drops_closePort port.peer { s with queue }
          exact ⟨this.created, this.devices, this.clients⟩
      | newConnection i =>
          have := Drops.refl s
          exact ⟨this.created, this.devices, this.clients⟩
      | deleteDevice d =>
          refine ⟨rfl, fun d' device hd => ?_, (Drops.refl s).clients⟩
          by_cases he : d' = d
          · subst he
            simp [Process.runEvent] at hd
          · simp only [Process.runEvent, Function.update_of_ne he] at hd
            exact ⟨device, hd, rfl, id⟩

theorem turn_sound (h : Told s) (hs : Sound s) : Sound s.turn.1 := by
  unfold Process.turn
  cases hqueue : s.queue with
  | nil => exact hs
  | cons event queue =>
      cases event with
      | closePeer port => exact closePort_sound h.built hs
      | newConnection i => exact hs
      | deleteDevice d =>
          intro d' device hd
          by_cases he : d' = d
          · subst he
            simp [Process.runEvent] at hd
          · simp only [Process.runEvent, Function.update_of_ne he] at hd
            exact hs d' device hd

theorem connectToServer_exact (h : Told s) (hs : Sound s) (tr : List Obs) (c : ℕ) :
    Told (s.connectToServer c).1 ∧
      (Sound (s.connectToServer c).1 ↔ TakesLive tr s (.connectToServer c)) := by
  have htakes : TakesLive tr s (.connectToServer c) ↔ (s.deviceIsOpen c = false →
    ∀ port ∈ s.registry.lookup (portNameOf (s.clients c).url), s.opened port = true) := .rfl
  rw [htakes]
  obtain ⟨hopen, he⟩ | ⟨hopen, hlookup, s', ⟨hsettles, -⟩, he⟩ |
    ⟨hopen, port, s', ⟨hsettles, -⟩, hlookup, he⟩ := connectToServer_cases c s
  · rw [he]
    exact ⟨h, iff_of_true hs fun hclosed => by rw [hopen] at hclosed; cases hclosed⟩
  · rw [he, hlookup]
    exact ⟨hsettles.told h, iff_of_true (hsettles.sound hs) (by simp)⟩
  · rw [he, hlookup]
    have htold := hsettles.told h
    refine ⟨attach_told ⟨htold.reports, htold.built⟩, (attach_sound_iff (hsettles.sound hs)).trans ?_⟩
    simp [hsettles.opened, hopen]

theorem configureNewConnection_exact (h : Told s) (hs : Sound s) (tr : List Obs) {i : ℕ}
    {server : Server} (hi : s.servers[i]? = some server) :
    Told (s.configureNewConnection i server).1 ∧
      (Sound (s.configureNewConnection i server).1 ↔
        TakesLive tr s (.configureNewConnection i)) := by
  unfold TakesLive Process.configureNewConnection
  simp only [hi, Option.mem_def, Option.some.injEq, forall_eq']
  cases server.pending with
  | nil => exact ⟨h, iff_of_true hs (by simp)⟩
  | cons port pending =>
      refine ⟨attach_told ⟨h.reports, h.built⟩, (attach_sound_iff hs).trans ?_⟩
      simp

/-- A step that builds no device keeps both. -/
theorem Settles.exact (h : Settles s s') (ht : Told s) (hs : Sound s) {P : Prop} (hP : P) :
    Told s' ∧ (Sound s' ↔ P) := ⟨h.told ht, iff_of_true (h.sound hs) hP⟩

/-- **Every step** keeps what is told, and keeps open devices over unreported ports exactly when
it takes no port that has reported. -/
theorem step_exact {a : Action} {os : List Obs} (h : Told s) (hs : Sound s) (tr : List Obs)
    (hstep : step s a = some (s', os)) : Told s' ∧ (Sound s' ↔ TakesLive tr s a) := by
  cases step_cases hstep with
  | publish name port => exact (settles_publish name port s).exact h hs trivial
  | withdraw name => exact (settles_withdraw name s).exact h hs trivial
  | closePort port =>
      exact ⟨closePort_told ⟨fun p _ => h.reports p nofun, h.built⟩,
        iff_of_true (closePort_sound h.built hs) trivial⟩
  | turn => exact ⟨turn_told h, iff_of_true (turn_sound h hs) trivial⟩
  | connectToServer c => exact connectToServer_exact h hs tr c
  | disconnectFromServer c => exact (settles_disconnectFromServer c s).exact h hs trivial
  | createServer => exact (settles_createServer s).exact h hs trivial
  | listen i address server => exact (settles_listen i address server s).exact h hs trivial
  | closeServer i server => exact (settles_closeServer i server s).exact h hs trivial
  | configureNewConnection i server hi => exact configureNewConnection_exact h hs tr hi
  | closeIo d => exact (settles_closeIo d s).exact h hs trivial

theorem deviceIsOpen_iff {c : ℕ} : s.deviceIsOpen c = true ↔
    ∃ d, (s.clients c).device = some d ∧ ∃ device ∈ s.devices d, device.opened = true := by
  simp only [Process.deviceIsOpen, Option.any_eq_true, Option.mem_def]

/-! ### Runs -/

variable {url : ℕ → String} {tr : List Obs}

theorem initial_told (url : ℕ → String) : Told (machine url).init :=
  ⟨fun _ _ hclosed => (nomatch hclosed), fun _ _ => rfl⟩

theorem run_sound (h : (machine url).Run TakesLive tr s) : Told s ∧ Sound s := by
  refine h.invariant (I := fun _ s => Told s ∧ Sound s) ⟨initial_told url, nofun⟩ ?_
  intro tr s a s' os hi hg hstep
  obtain ⟨htold, hsound⟩ := step_exact hi.1 hi.2 tr hstep
  exact ⟨htold, hsound.mpr hg⟩

/-! ### Recovery -/

theorem turn_registry (s : Process) : s.turn.1.registry = s.registry := by
  unfold Process.turn
  cases s.queue with
  | nil => rfl
  | cons event queue => exact runEvent_registry event { s with queue }

/-- Events run in the order in which they were queued. -/
theorem turn_queue {event : Event} {queue : List Event} (hqueue : s.queue = event :: queue) :
    queue <+: s.turn.1.queue := by
  unfold Process.turn
  rw [hqueue]
  cases event with
  | closePeer port => exact (closePort_queue port.peer { s with queue }).1
  | newConnection i => exact List.prefix_rfl
  | deleteDevice d => exact List.prefix_rfl

theorem turns_drops (n : ℕ) (s : Process) :
    Drops s (turns n s) ∧ (turns n s).registry = s.registry := by
  induction n generalizing s with
  | zero => exact ⟨.refl s, rfl⟩
  | succ n ih =>
      obtain ⟨hdrops, hregistry⟩ := ih s.turn.1
      exact ⟨(drops_turn s).trans hdrops, hregistry.trans (turn_registry s)⟩

theorem turns_sound (n : ℕ) (h : Told s) (hs : Sound s) : Sound (turns n s) := by
  induction n generalizing s with
  | zero => exact hs
  | succ n ih => exact ih (turn_told h) (turn_sound h hs)

/-- A queued report closes its port when its turn comes. -/
theorem turns_closed {port : PortId} {before after : List Event}
    (hqueue : s.queue = before ++ .closePeer port.peer :: after) :
    (turns (before.length + 1) s).opened port = false := by
  induction before generalizing s after with
  | nil =>
      change s.turn.1.opened port = false
      unfold Process.turn
      rw [hqueue]
      simp [Process.runEvent, closePort_opened]
  | cons event before ih =>
      obtain ⟨new, hnew⟩ := turn_queue hqueue
      have hrest : s.turn.1.queue = before ++ .closePeer port.peer :: (after ++ new) := by
        rw [← hnew]
        simp
      exact ih hrest

theorem recovers (h : Told s) (hs : Sound s) : Recovers s := by
  intro c fresh hdead hfresh
  -- it is enough to get to a point where the client holds no open device
  suffices hn : ∃ n, (turns n s).deviceIsOpen c = false by
    obtain ⟨n, hn⟩ := hn
    obtain ⟨hdrops, hregistry⟩ := turns_drops n s
    have hlookup : (turns n s).registry.lookup (portNameOf ((turns n s).clients c).url) =
        some fresh := by rw [(hdrops.clients c).1, hregistry, hfresh]
    obtain ⟨hopen, -⟩ | ⟨-, hnone, -⟩ | ⟨-, port, s', -, hport, he⟩ :=
      connectToServer_cases c (turns n s)
    · rw [hn] at hopen
      cases hopen
    · rw [hlookup] at hnone
      cases hnone
    · rw [hlookup] at hport
      obtain rfl := Option.some.inj hport
      exact ⟨n, s'.created, by rw [he]; rfl⟩
  cases hopen : s.deviceIsOpen c with
  | false => exact ⟨0, hopen⟩
  | true =>
      obtain ⟨d, hd, device, hdevice, ho⟩ := deviceIsOpen_iff.mp hopen
      have hlive := (h.live_iff device.port).mpr (hs d device hdevice ho)
      have hclosed := hdead d hd device hdevice
      -- its port is closed, so the report is queued
      obtain ⟨before, after, hqueue⟩ :=
        List.append_of_mem (hlive.resolve_left (by simp [hclosed])).2
      refine ⟨before.length + 1, Bool.eq_false_iff.mpr fun hstill => ?_⟩
      obtain ⟨d', hd', device', hdevice', ho'⟩ := deviceIsOpen_iff.mp hstill
      obtain ⟨hdrops, -⟩ := turns_drops (before.length + 1) s
      obtain rfl : d = d' := Option.some.inj (hd.symm.trans ((hdrops.clients c).2 d' hd'))
      obtain ⟨device'', hbefore, hport, -⟩ := hdrops.devices d device' hdevice'
      obtain rfl : device = device'' := Option.some.inj (hdevice.symm.trans hbefore)
      have := turns_sound (before.length + 1) h hs d device' hdevice' ho'
      rw [hport, turns_closed hqueue] at this
      cases this

/-- A client that is not told to reconnect holds an open device. -/
theorem deviceIsOpen_connectToServer {c : ℕ} (hkept : .shouldReconnect c ∉ (s.connectToServer c).2) :
    (s.connectToServer c).1.deviceIsOpen c = true := by
  obtain ⟨hopen, he⟩ | ⟨-, -, s', -, he⟩ | ⟨-, port, s', -, -, he⟩ := connectToServer_cases c s
  · rw [he]
    exact hopen
  · rw [he] at hkept
    simp at hkept
  · rw [he]
    simp [Process.attach, Process.deviceIsOpen]

theorem holdsLive {c : ℕ} (h : Told s) (hs : Sound s) (hopen : s.deviceIsOpen c = true) :
    HoldsLive c s := by
  obtain ⟨d, hd, device, hdevice, ho⟩ := deviceIsOpen_iff.mp hopen
  exact ⟨d, device, hdevice, hd, ho, (h.live_iff _).mpr (hs d device hdevice ho)⟩

/-- **A retry can get out** in exactly the runs that take no port after its `closed`: no device is
ever open over a port that has nothing to report any more, a `connectToServer` that does not ask
to be called again leaves its client with an open device over a live port, and a client whose port
is gone takes the next one. -/
theorem no_dead_device_iff_takes_live (url : ℕ → String) :
    (∀ tr s, (machine url).Run TakesLive tr s → NoDeadDevice tr s ∧ Recovers s ∧
      ∀ c, TakesLive tr s (.connectToServer c) →
        .shouldReconnect c ∉ (s.connectToServer c).2 → HoldsLive c (s.connectToServer c).1) ∧
    ∀ tr s, (machine url).Run ((machine url).keeps NoDeadDevice) tr s →
      (machine url).Run TakesLive tr s := by
  have hexact := Machine.Run.exact_always (M := machine url) (C := TakesLive) (P := NoDeadDevice)
    nofun fun {tr s a s' os} hrun _ hstep => by
      obtain ⟨htold, hsound⟩ := run_sound hrun
      obtain ⟨htold', hsound'⟩ := step_exact htold hsound tr hstep
      exact (htold'.noDeadDevice_iff _).trans hsound'
  refine ⟨fun tr s h => ⟨hexact.1 tr s h, ?_⟩, hexact.2⟩
  obtain ⟨htold, hsound⟩ := run_sound h
  refine ⟨recovers htold hsound, fun c htakes hkept => ?_⟩
  obtain ⟨htold', hsound'⟩ := connectToServer_exact htold hsound tr c
  exact holdsLive htold' (hsound'.mpr htakes) (deviceIsOpen_connectToServer hkept)

/-- The port a client holds dies, a fresh one is published under its name, and the retry takes
it. -/
theorem retry_takes_fresh_port :
    ∃ tr s, (machine fun _ => "runtime").Run TakesLive tr s ∧ s.deviceIsOpen 0 = true ∧
      s.isOpen (0, .b) = false ∧
      ∃ n d, ((turns n s).connectToServer 0).2 = [.attached d (.client 0) (1, .b)] := by
  have h := Machine.exec_run (M := machine fun _ => "runtime") (G := TakesLive)
    [.publish "runtime" (0, .b), .connectToServer 0, .closePort (0, .a),
      .publish "runtime" (1, .b)] rfl
  refine ⟨_, _, h, rfl, rfl, ((no_dead_device_iff_takes_live _).1 _ _ h).2.1 0 (1, .b) ?_ rfl⟩
  intro d hd device hdevice
  obtain rfl := Option.some.inj hd
  obtain rfl := Option.some.inj hdevice
  rfl

/-- A port that died while it was published is taken all the same: its device stays open, and the
retry never gets to the fresh port. -/
theorem dead_port_is_kept :
    ∃ tr s, (machine fun _ => "runtime").Run Machine.always tr s ∧ ¬ NoDeadDevice tr s ∧
      s.registry.lookup "runtime" = some (1, .b) ∧ s.isOpen (1, .b) = true ∧
      s.connectToServer 0 = (s, []) := by
  have h := Machine.exec_run (M := machine fun _ => "runtime") (G := Machine.always)
    [.publish "runtime" (0, .b), .closePort (0, .a), .turn, .connectToServer 0,
      .publish "runtime" (1, .b)] rfl
  refine ⟨_, _, h, fun hnone => ?_, rfl, rfl, rfl⟩
  obtain hopen | ⟨hopened, -⟩ := hnone 0 ⟨(0, .b), .client 0, true⟩ rfl rfl
  · cases hopen
  · cases hopened

end LogosViewRuntime.PortTransport
