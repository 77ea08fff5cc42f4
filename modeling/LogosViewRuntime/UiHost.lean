import LogosViewRuntime.ViewModuleHost

/-! # `ui-host` and the host that spawns it

The program of a child process, and its host with all children it ever started.

* **Program.**  A child is at one of the places at which `main` waits or calls foreign code; a
  `Move` says what it found there.  It can die at any of them.  Its plugin may print whatever it
  likes from the moment it is being loaded.
* **Sockets.**  A name leads to the server that was bound to it last.  Who is connected to a server
  and was not served yet is in `waiting`, in order; `none` is another process.
* **Output.**  What a child printed and its host did not read is in `stdout`; `readyRead` reads
  some of it.  The host hears of an exit after the child is gone. -/

namespace LogosViewRuntime.UiHost

open ViewModuleHost (Host Outcome QByteArray bytes)

/-! ### The child -/

structure Options where
  name : String := ""
  path : String := ""
  socket : String := ""
deriving DecidableEq, Repr

/-- Each option takes the next argument, whatever it looks like. -/
def values : List String → List (String × String)
  | option :: value :: rest =>
      if option ∈ ["--name", "--path", "--socket"] then (option, value) :: values rest
      else values (value :: rest)
  | _ => []

/-- The value given last. -/
def value (option : String) (args : List String) : Option String :=
  (values args).reverse.lookup option

def parseOptions (args : List String) : Option Options :=
  match value "--name" args, value "--path" args, value "--socket" args with
  | some name, some path, some socket => some { name, path, socket }
  | _, _, _ => none

/-- Where `main` is. -/
inductive Phase where
  | parsing
  | connecting
  | awaiting
  | loading
  | loaded
  | starting
  | listing
  | executing
  | unloading
  | exited (code : ℤ)
deriving DecidableEq, Repr

structure Child where
  args : List String
  options : Options := {}
  phase : Phase := .parsing
  /-- What its host wrote to the token socket. -/
  mail : Option String := none
  authToken : String := ""
  stdout : QByteArray := []
deriving DecidableEq, Repr

/-- How the plugin can be remoted. -/
structure Remoting where
  viewPlugin : Bool
  viewObject : Bool
  typed : Bool
  dynamic : Bool

/-- What `enableRemoting` gets of the plugin. -/
inductive Target where
  | plugin
  | viewObject
deriving DecidableEq, Repr

/-- A property of the remote target, and whether it could be remoted. -/
structure Property where
  name : String
  readable : Bool
  model : Bool
  enabled : Bool

inductive ChildObs where
  | loaded (path : String)
  /-- the plugin has the method `initLogos`, or not -/
  | instantiated (initLogos : Bool)
  | adopted (authToken : String)
  | initLogos
  | hosting (url : String)
  | remotedTyped
  | remoted (target : Target) (name : String)
  | remotedModel (childName : String)
  | ready
  | aboutToUnload
  | deleted
  | exited (code : ℤ)
deriving DecidableEq, Repr

inductive Move where
  | parse
  | refused
  | timedOut
  | readToken
  | load (ok : Bool)
  | instantiate (ok : Bool) (initLogos : Bool)
  | remote (remoting : Remoting)
  | remoteModels (properties : List Property)
  | print (data : QByteArray)
  | quit
  | unload (rc : ℤ)
  | die (code : ℤ)

namespace Child

def exit (code : ℤ) (c : Child) : Child × List ChildObs :=
  ({ c with phase := .exited code }, [.exited code])

/-- The plugin's code may run. -/
def plugged (c : Child) : Bool :=
  match c.phase with
  | .loading | .loaded | .starting | .listing | .executing | .unloading => true
  | .parsing | .connecting | .awaiting | .exited _ => false

def remote (remoting : Remoting) (c : Child) : Child × List ChildObs :=
  let url := "local:" ++ c.options.socket
  let remoteTarget : Target :=
    if remoting.viewPlugin && remoting.viewObject then .viewObject else .plugin
  if remoting.viewPlugin && remoting.typed then
    ({ c with phase := .listing }, [.hosting url, .remotedTyped])
  else if !remoting.dynamic then
    let done := c.exit 1
    (done.1, .hosting url :: done.2)
  else ({ c with phase := .listing }, [.hosting url, .remoted remoteTarget c.options.name])

def childNames (properties : List Property) (c : Child) : List String :=
  (properties.filter fun prop => prop.readable && prop.model && prop.enabled).map fun prop =>
    c.options.name ++ "/" ++ prop.name

/-- `main` goes on. -/
def move (c : Child) : Move → Option (Child × List ChildObs)
  | .parse =>
      if c.phase = .parsing then
        match parseOptions c.args with
        | some options => some ({ c with options, phase := .connecting }, [])
        | none => some (c.exit 1)
      else none
  | .refused => if c.phase = .connecting then some (c.exit 1) else none
  | .timedOut => if c.phase = .awaiting then some (c.exit 1) else none
  | .readToken =>
      match c.phase, c.mail with
      | .awaiting, some authToken =>
          if authToken = "" then some (c.exit 1)
          else some ({ c with authToken, phase := .loading }, [])
      | _, _ => none
  | .load ok =>
      if c.phase = .loading then
        if ok then some ({ c with phase := .loaded }, [.loaded c.options.path])
        else some (c.exit 1)
      else none
  | .instantiate ok initLogos =>
      if c.phase = .loaded then
        if ok then
          some ({ c with phase := .starting },
            .instantiated initLogos :: .adopted c.authToken :: if initLogos then [.initLogos] else [])
        else some (c.exit 1)
      else none
  | .remote remoting => if c.phase = .starting then some (c.remote remoting) else none
  | .remoteModels properties =>
      if c.phase = .listing then
        some ({ c with phase := .executing, stdout := c.stdout ++ bytes "READY\n" },
          (c.childNames properties).map .remotedModel ++ [.ready])
      else none
  | .print data => if c.plugged then some ({ c with stdout := c.stdout ++ data }, []) else none
  | .quit => if c.phase = .executing then some ({ c with phase := .unloading }, [.aboutToUnload])
      else none
  | .unload rc =>
      if c.phase = .unloading then
        let done := c.exit rc
        some (done.1, .deleted :: done.2)
      else none
  | .die code =>
      match c.phase with
      | .exited _ => none
      | _ => some (c.exit code)

end Child

/-! ### The system -/

structure System where
  host : Host := {}
  child : ℕ → Option Child := fun _ => none
  waiting : ℕ → List (Option ℕ) := fun _ => []

inductive Obs where
  | host (o : ViewModuleHost.Obs)
  | child (n : ℕ) (o : ChildObs)
  /-- the token of server `m` went to this process -/
  | served (m : ℕ) (client : Option ℕ)
deriving DecidableEq

namespace System

def setChild (n : ℕ) (c : Child) (s : System) : System :=
  { s with child := Function.update s.child n (some c) }

@[simp] theorem setChild_host (n : ℕ) (c : Child) (s : System) : (s.setChild n c).host = s.host := rfl

@[simp] theorem setChild_waiting (n : ℕ) (c : Child) (s : System) :
    (s.setChild n c).waiting = s.waiting := rfl

@[simp] theorem setChild_child (n : ℕ) (c : Child) (s : System) :
    (s.setChild n c).child = Function.update s.child n (some c) := rfl

/-- The process that was started, with its arguments. -/
def started (os : List ViewModuleHost.Obs) : Option (ℕ × List String) :=
  os.findSome? fun | .started n args => some (n, args) | _ => none

def spawn (moduleName pluginPath authToken : String) (outcome : Outcome) (s : System) :
    System × List Obs :=
  let done := s.host.spawn moduleName pluginPath authToken outcome
  let s := { s with host := done.1 }
  match started done.2 with
  | some (n, args) => (s.setChild n { args }, done.2.map .host)
  | none => (s, done.2.map .host)

/-- The server a name leads to. -/
def resolve (name : String) (s : System) : Option ℕ :=
  (List.range s.host.created).reverse.find? fun m => (s.host.server m).name = name

/-- A process connects to server `m`, if it listens. -/
def enter (m : ℕ) (client : Option ℕ) (s : System) : Option System :=
  (ViewModuleHost.step s.host (.connect m)).map fun done =>
    { s with
      host := done.1
      waiting := Function.update s.waiting m (s.waiting m ++ [client]) }

/-- The child's own connection. -/
def connect (n : ℕ) (s : System) : Option System :=
  match s.child n with
  | some c =>
      if c.phase = .connecting then
        match s.resolve (c.options.socket ++ "_token") with
        | some m => (s.enter m (some n)).map (·.setChild n { c with phase := .awaiting })
        | none => none
      else none
  | none => none

/-- The oldest connection is served and the others are dropped with the server. -/
def newConnection (m : ℕ) (s : System) : Option (System × List Obs) :=
  (ViewModuleHost.step s.host (.newConnection m)).map fun done =>
    match s.waiting m with
    | [] => ({ s with host := done.1 }, done.2.map .host)
    | client :: _ =>
        let s := { s with host := done.1, waiting := Function.update s.waiting m [] }
        let os := done.2.map Obs.host ++ [.served m client]
        match client with
        | some n =>
            match s.child n with
            | some c => (s.setChild n { c with mail := some (s.host.server m).token }, os)
            | none => (s, os)
        | none => (s, os)

/-- The host reads `k` bytes of the output of its child. -/
def readyRead (k : ℕ) (s : System) : Option (System × List Obs) :=
  match s.host.process with
  | some n =>
      match s.child n with
      | some c =>
          (ViewModuleHost.step s.host (.readyRead (c.stdout.take k))).map fun done =>
            ({ s with host := done.1 }.setChild n { c with stdout := c.stdout.drop k },
              done.2.map .host)
      | none => none
  | none => none

/-- The host hears that its child is gone. -/
def finished (s : System) : Option (System × List Obs) :=
  match s.host.process with
  | some n =>
      match s.child n with
      | some { phase := .exited code, .. } =>
          (ViewModuleHost.step s.host (.finished code)).map fun done =>
            ({ s with host := done.1 }, done.2.map .host)
      | _ => none
  | none => none

/-- A step of the host that concerns no child. -/
def alone (a : ViewModuleHost.Action) (s : System) : Option (System × List Obs) :=
  (ViewModuleHost.step s.host a).map fun done => ({ s with host := done.1 }, done.2.map .host)

end System

inductive Action where
  | spawn (moduleName pluginPath authToken : String) (outcome : Outcome)
  | stop
  | ret
  | stranger (m : ℕ)
  | connect (n : ℕ)
  | newConnection (m : ℕ)
  | readyRead (k : ℕ)
  | finished
  | move (n : ℕ) (move : Move)

def step (s : System) : Action → Option (System × List Obs)
  | .spawn moduleName pluginPath authToken outcome =>
      some (s.spawn moduleName pluginPath authToken outcome)
  | .stop => s.alone .stop
  | .ret => s.alone .ret
  | .stranger m => (s.enter m none).map fun s => (s, [])
  | .connect n => (s.connect n).map fun s => (s, [])
  | .newConnection m => s.newConnection m
  | .readyRead k => s.readyRead k
  | .finished => s.finished
  | .move n move =>
      match s.child n with
      | some c => (c.move move).map fun done => (s.setChild n done.1, done.2.map (.child n))
      | none => none

/-- A host that has spawned nothing. -/
def machine : Reactive.Machine System Action Obs where
  init := {}
  step := step

/-! ### The command line -/

/-- What the host passes is what the child gets, whatever the names are. -/
theorem parseOptions_args (name path socket : String) :
    parseOptions ["--name", name, "--path", path, "--socket", socket] =
      some { name, path, socket } := by
  simp [parseOptions, value, values, List.lookup_cons]

end LogosViewRuntime.UiHost
