import LogosViewRuntime.LoopbackPort
import LogosViewRuntime.Variant

/-! # `LogosMessagePortTransport`

The registry of published ports, the clients and servers that take ports out of it and the devices
they build over them, in one process with one event loop.

* **Ports** are the ends of loopback pairs and outlive everything else.  Of a port only `m_open`
  matters here, and the close it queues for its peer.  Emitting `closed` runs `onPortClosed` of
  the devices attached to the port, in the order in which they were built.
* **Clients** are there from the start, each with the URL path it was made for; a client that has
  not called `connectToServer` yet does nothing.  **Servers** are built one after another, which is
  the order in which `published` reaches them.
* **Devices** are numbered as they are built and stay attached to their port until they are
  deleted.  What QtRO does when it is told `shouldReconnect`, `disconnected` or `newConnection` is
  a later step of its own. -/

namespace LogosViewRuntime.PortTransport

/-- An end of the pair with that number. -/
abbrev PortId := ℕ × Loopback.End

def PortId.peer (port : PortId) : PortId := (port.1, port.2.peer)

/-- `MessagePortClientIo` or a `MessagePortServerIo` of a server. -/
inductive User where
  | client (c : ℕ)
  | server (i : ℕ)
deriving DecidableEq, Repr

structure Device where
  port : PortId
  user : User
  opened : Bool := true
deriving DecidableEq, Repr

structure Client where
  url : String
  device : Option ℕ := none

structure Server where
  name : String := ""
  listening : Bool := false
  pending : List PortId := []
deriving DecidableEq, Repr

/-- What is queued in the event loop. -/
inductive Event where
  | closePeer (port : PortId)
  | newConnection (i : ℕ)
  | deleteDevice (d : ℕ)
deriving DecidableEq, Repr

structure Process where
  opened : PortId → Bool := fun _ => true
  registry : QHash String PortId := ∅
  clients : ℕ → Client
  servers : List Server := []
  devices : ℕ → Option Device := fun _ => none
  created : ℕ := 0
  queue : List Event := []

inductive Obs where
  | attached (d : ℕ) (user : User) (port : PortId)
  | shouldReconnect (c : ℕ)
  | disconnected (i d : ℕ)
  | closed (port : PortId)
  | newConnection (i : ℕ)
  | noConnection (i : ℕ)
deriving DecidableEq, Repr

/-- The path of a `messageport:` URL without its leading slashes. -/
def portNameOf (path : String) : String := String.ofList (path.toList.dropWhile (· = '/'))

namespace Process

/-- `LogosMessagePort::isOpen`. -/
def isOpen (port : PortId) (s : Process) : Bool := s.opened port && s.opened port.peer

/-! ### The registry -/

def withdraw (name : String) (s : Process) : Process :=
  { s with registry := s.registry.erase name }

def take (name : String) (s : Process) : Process × Option PortId :=
  match s.registry.lookup name with
  | none => (s, none)
  | some port => ({ s with registry := s.registry.erase name }, some port)

/-! ### Devices -/

/-- A device over `port`, open from birth. -/
def attach (user : User) (port : PortId) (s : Process) : Process × List Obs :=
  ({ s with
      devices := Function.update s.devices s.created (some { port, user })
      created := s.created + 1 }, [.attached s.created user port])

def closeDevice (d : ℕ) (s : Process) : Process :=
  { s with
    devices := Function.update s.devices d
      ((s.devices d).map fun device => { device with opened := false }) }

def discardDevice (c : ℕ) (s : Process) : Process :=
  match (s.clients c).device with
  | none => s
  | some d =>
      { s with
        clients := Function.update s.clients c { s.clients c with device := none }
        queue := s.queue ++ [.deleteDevice d] }

/-- Who hears `disconnected` of the device `d`: a client that has discarded it does not. -/
def disconnected (d : ℕ) (user : User) (s : Process) : Process × List Obs :=
  match user with
  | .client c =>
      if (s.clients c).device = some d then (s.discardDevice c, [.shouldReconnect c]) else (s, [])
  | .server i => (s, [.disconnected i d])

def onPortClosed (d : ℕ) (s : Process) : Process × List Obs :=
  match s.devices d with
  | none => (s, [])
  | some device =>
      let done := s.disconnected d device.user
      (done.1.closeDevice d, done.2)

/-! ### Closing a port -/

def attachedTo (port : PortId) (s : Process) : List ℕ :=
  (List.range s.created).filter fun d => (s.devices d).any (·.port = port)

/-- `closed` reaches the devices one by one. -/
def emitClosed : List ℕ → Process → Process × List Obs
  | [], s => (s, [])
  | d :: ds, s =>
      let done := s.onPortClosed d
      let rest := emitClosed ds done.1
      (rest.1, done.2 ++ rest.2)

def setClosed (port : PortId) (s : Process) : Process :=
  { s with opened := Function.update s.opened port false }

/-- `LogosLoopbackMessagePort::close`. -/
def closePort (port : PortId) (s : Process) : Process × List Obs :=
  if !s.opened port then (s, [])
  else
    let s := s.setClosed port
    let done := s.emitClosed (s.attachedTo port)
    ({ done.1 with queue := done.1.queue ++ [.closePeer port] }, .closed port :: done.2)

/-! ### The client end -/

/-- `m_device && m_device->isOpen()`. -/
def deviceIsOpen (c : ℕ) (s : Process) : Bool :=
  (s.clients c).device.any fun d => (s.devices d).any (·.opened)

def connectToServer (c : ℕ) (s : Process) : Process × List Obs :=
  if s.deviceIsOpen c then (s, [])
  else
    let s := s.discardDevice c
    match s.take (portNameOf (s.clients c).url) with
    | (s, none) => (s, [.shouldReconnect c])
    | (s, some port) =>
        ({ s with
          clients := Function.update s.clients c { s.clients c with device := some s.created } }.attach
            (.client c) port)

def disconnectFromServer (c : ℕ) (s : Process) : Process :=
  match (s.clients c).device with
  | none => s
  | some d => s.closeDevice d

/-! ### The host end -/

def setServer (i : ℕ) (server : Server) (s : Process) : Process :=
  { s with servers := s.servers.set i server }

/-- `onPublished` of the server `i`. -/
def onPublished (name : String) (i : ℕ) (server : Server) (s : Process) : Process :=
  if !server.listening || name ≠ server.name then s
  else
    match s.take name with
    | (s, none) => s
    | (s, some port) =>
        { s.setServer i { server with pending := server.pending ++ [port] } with
          queue := s.queue ++ [.newConnection i] }

/-- `published` reaches the servers from the `i`-th on. -/
def emitPublished (name : String) : ℕ → List Server → Process → Process
  | _, [], s => s
  | i, server :: servers, s => emitPublished name (i + 1) servers (s.onPublished name i server)

def publish (name : String) (port : PortId) (s : Process) : Process :=
  if name = "" then s
  else { s with registry := s.registry.insert name port }.emitPublished name 0 s.servers

def listen (i : ℕ) (address : String) (server : Server) (s : Process) : Process :=
  let name := portNameOf address
  if name = "" then s.setServer i { server with name }
  else
    let server := { server with name, listening := true }
    (s.setServer i server).onPublished name i server

def closeServer (i : ℕ) (server : Server) (s : Process) : Process :=
  s.setServer i { server with listening := false, pending := [] }

def configureNewConnection (i : ℕ) (server : Server) (s : Process) : Process × List Obs :=
  match server.pending with
  | [] => (s, [.noConnection i])
  | port :: pending => (s.setServer i { server with pending }).attach (.server i) port

/-- QtRO closes a connection of a server and deletes it later. -/
def closeIo (d : ℕ) (s : Process) : Process :=
  { s.closeDevice d with queue := s.queue ++ [.deleteDevice d] }

/-! ### The event loop -/

def runEvent (s : Process) : Event → Process × List Obs
  | .closePeer port => s.closePort port.peer
  | .newConnection i => (s, [.newConnection i])
  | .deleteDevice d => ({ s with devices := Function.update s.devices d none }, [])

/-- The oldest event runs, if there is one. -/
def turn (s : Process) : Process × List Obs :=
  match s.queue with
  | [] => (s, [])
  | event :: queue => { s with queue }.runEvent event

end Process

inductive Action where
  | publish (name : String) (port : PortId)
  | withdraw (name : String)
  | closePort (port : PortId)
  | turn
  | connectToServer (c : ℕ)
  | disconnectFromServer (c : ℕ)
  | createServer
  | listen (i : ℕ) (address : String)
  | closeServer (i : ℕ)
  | configureNewConnection (i : ℕ)
  | closeIo (d : ℕ)

def step (s : Process) : Action → Option (Process × List Obs)
  | .publish name port => some (s.publish name port, [])
  | .withdraw name => some (s.withdraw name, [])
  | .closePort port => some (s.closePort port)
  | .turn => some s.turn
  | .connectToServer c => some (s.connectToServer c)
  | .disconnectFromServer c => some (s.disconnectFromServer c, [])
  | .createServer => some ({ s with servers := s.servers ++ [{}] }, [])
  | .listen i address => (s.servers[i]?).map fun server => (s.listen i address server, [])
  | .closeServer i => (s.servers[i]?).map fun server => (s.closeServer i server, [])
  | .configureNewConnection i => (s.servers[i]?).map fun server => s.configureNewConnection i server
  | .closeIo d =>
      match s.devices d with
      | some ⟨_, .server _, _⟩ => some (s.closeIo d, [])
      | _ => none

/-- What each of the steps comes to. -/
inductive Steps (s : Process) : Action → Process → List Obs → Prop
  | publish (name : String) (port : PortId) : Steps s (.publish name port) (s.publish name port) []
  | withdraw (name : String) : Steps s (.withdraw name) (s.withdraw name) []
  | closePort (port : PortId) : Steps s (.closePort port) (s.closePort port).1 (s.closePort port).2
  | turn : Steps s .turn s.turn.1 s.turn.2
  | connectToServer (c : ℕ) :
      Steps s (.connectToServer c) (s.connectToServer c).1 (s.connectToServer c).2
  | disconnectFromServer (c : ℕ) : Steps s (.disconnectFromServer c) (s.disconnectFromServer c) []
  | createServer : Steps s .createServer { s with servers := s.servers ++ [{}] } []
  | listen (i : ℕ) (address : String) (server : Server) : s.servers[i]? = some server →
      Steps s (.listen i address) (s.listen i address server) []
  | closeServer (i : ℕ) (server : Server) : s.servers[i]? = some server →
      Steps s (.closeServer i) (s.closeServer i server) []
  | configureNewConnection (i : ℕ) (server : Server) : s.servers[i]? = some server →
      Steps s (.configureNewConnection i) (s.configureNewConnection i server).1
        (s.configureNewConnection i server).2
  | closeIo (d : ℕ) {port : PortId} {i : ℕ} {opened : Bool} :
      s.devices d = some ⟨port, .server i, opened⟩ → Steps s (.closeIo d) (s.closeIo d) []

theorem step_cases {s s' : Process} {a : Action} {os : List Obs}
    (hs : step s a = some (s', os)) : Steps s a s' os := by
  cases a with
  | publish name port =>
      obtain ⟨rfl, rfl⟩ := Prod.mk.inj (Option.some.inj hs)
      exact .publish name port
  | withdraw name =>
      obtain ⟨rfl, rfl⟩ := Prod.mk.inj (Option.some.inj hs)
      exact .withdraw name
  | closePort port =>
      obtain ⟨rfl, rfl⟩ := Prod.mk.inj (Option.some.inj hs)
      exact .closePort port
  | turn =>
      obtain ⟨rfl, rfl⟩ := Prod.mk.inj (Option.some.inj hs)
      exact .turn
  | connectToServer c =>
      obtain ⟨rfl, rfl⟩ := Prod.mk.inj (Option.some.inj hs)
      exact .connectToServer c
  | disconnectFromServer c =>
      obtain ⟨rfl, rfl⟩ := Prod.mk.inj (Option.some.inj hs)
      exact .disconnectFromServer c
  | createServer =>
      obtain ⟨rfl, rfl⟩ := Prod.mk.inj (Option.some.inj hs)
      exact .createServer
  | listen i address =>
      obtain ⟨server, hi, he⟩ := Option.map_eq_some_iff.mp hs
      obtain ⟨rfl, rfl⟩ := Prod.mk.inj he
      exact .listen i address server hi
  | closeServer i =>
      obtain ⟨server, hi, he⟩ := Option.map_eq_some_iff.mp hs
      obtain ⟨rfl, rfl⟩ := Prod.mk.inj he
      exact .closeServer i server hi
  | configureNewConnection i =>
      obtain ⟨server, hi, he⟩ := Option.map_eq_some_iff.mp hs
      obtain ⟨rfl, rfl⟩ := Prod.mk.inj he
      exact .configureNewConnection i server hi
  | closeIo d =>
      simp only [step] at hs
      split at hs
      · rename_i hd
        obtain ⟨rfl, rfl⟩ := Prod.mk.inj (Option.some.inj hs)
        exact .closeIo d hd
      · cases hs

/-- A process with a client for each of the URL paths `url c`. -/
def machine (url : ℕ → String) : Reactive.Machine Process Action Obs where
  init := { clients := fun c => { url := url c } }
  step := step

end LogosViewRuntime.PortTransport
