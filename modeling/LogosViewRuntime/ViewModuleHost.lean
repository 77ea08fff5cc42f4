import LogosViewRuntime.Lib.Lines
import LogosViewRuntime.Lib.Machine
import Mathlib.Algebra.Group.Int.Defs
import Mathlib.Algebra.Group.Nat.Defs
import Mathlib.Data.List.DropRight
import Mathlib.Logic.Function.Basic

/-! # `ViewModuleHost`

The host of a module's `ui-host` process: `spawn` with the server that hands out the token, the
handlers of the process, and `stop`.

* **Numbers.**  The `n`-th `QLocalServer` and the `QProcess` that is started with it are both `n`.
  `m_process` is the child that runs: a start that fails sets it back before `spawn` returns, and a
  finished one is the one it points to.
* **Environment.**  Whether the binary is found, the server listens and the process starts is
  decided outside and comes in with the label, as does the unique part of the socket name.  Any
  process may connect to a listening server; `newConnection` is the event loop's turn to tell.
* **Sizes.**  Indices into a `QByteArray` have 64 bits, which no buffer exhausts, and those that are
  kept in an `int` are cut to 32 bits, as is a sum of two `int`s.
* **Slots.**  `ready()` is emitted in the middle of the loop that parses the output: `parsing`
  counts the calls of the handler whose slots have not returned (`ret`).  `processExited()` is the
  last thing its handler does, so what its slots call comes as steps of its own. -/

namespace LogosViewRuntime.ViewModuleHost

abbrev QByteArray := List UInt8

/-- A byte string literal. -/
def bytes (s : String) : QByteArray := s.toList.map fun c => UInt8.ofNat c.toNat

def newline : UInt8 := 10

def isSpace (c : UInt8) : Bool := c == 32 || (9 ≤ c && c ≤ 13)

/-- `QByteArray::trimmed`. -/
def trimmed (line : QByteArray) : QByteArray := (line.dropWhile isSpace).rdropWhile isSpace

/-- What is left of a number in an `int`. -/
def toInt (i : ℤ) : ℤ := i.bmod (2 ^ 32)

/-- `QByteArray::indexOf('\n')` -/
def indexOfNewline (buffer : QByteArray) : ℤ :=
  if newline ∈ buffer then buffer.idxOf newline else -1

/-- `QByteArray::left`: a negative number of bytes is none. -/
def left (n : ℤ) (buffer : QByteArray) : QByteArray := buffer.take n.toNat

/-- `QByteArray::remove` at the front: a negative number of bytes is none. -/
def remove (n : ℤ) (buffer : QByteArray) : QByteArray := buffer.drop n.toNat

/-- A `QLocalServer` with its connections nobody has taken yet. -/
structure TokenServer where
  name : String := ""
  token : String := ""
  listening : Bool := false
  pending : ℕ := 0

structure Host where
  process : Option ℕ := none
  tokenServer : Option ℕ := none
  moduleName : String := ""
  socketName : String := ""
  stdoutBuffer : QByteArray := []
  readyEmitted : Bool := false
  server : ℕ → TokenServer := fun _ => {}
  created : ℕ := 0
  parsing : ℕ := 0

inductive Obs where
  /-- a `spawn` that is not refused has reset the buffer -/
  | spawning (moduleName : String)
  | started (n : ℕ) (args : List String)
  | spawnReturned (ok : Bool)
  | tokenWritten (n : ℕ) (token : String)
  | read (chunk : QByteArray)
  | ready
  | processExited (exitCode : ℤ)
  | stopping (n : ℕ)
deriving DecidableEq

/-- What `spawn` finds. -/
structure Outcome where
  uniqueId : String
  found : Bool
  listens : Bool
  starts : Bool

/-- A start at which nothing fails. -/
def succeeds : Outcome := { uniqueId := "0a1b2c3d", found := true, listens := true, starts := true }

namespace Host

def setServer (n : ℕ) (server : TokenServer) (s : Host) : Host :=
  { s with server := Function.update s.server n server }

/-- `spawn` from the server on; `n` is the number of server and process. -/
def launch (pluginPath authToken : String) (outcome : Outcome) (s : Host) : Host × List Obs :=
  let n := s.created
  let s := { s with created := n + 1 }
  -- a server that does not listen is deleted
  if !outcome.listens then ({ s with tokenServer := none }, [.spawnReturned false])
  else
    let server : TokenServer :=
      { name := s.socketName ++ "_token", token := authToken, listening := true }
    -- a process that does not start is deleted, and its server is closed
    if !outcome.starts then
      ({ s with process := none, tokenServer := none }.setServer n { server with listening := false },
        [.spawnReturned false])
    else
      ({ s with process := some n, tokenServer := some n }.setServer n server,
        [.started n ["--name", s.moduleName, "--path", pluginPath, "--socket", s.socketName],
          .spawnReturned true])

def spawn (moduleName pluginPath authToken : String) (outcome : Outcome) (s : Host) :
    Host × List Obs :=
  if s.process.isSome then (s, [.spawnReturned false])
  else if authToken = "" then (s, [.spawnReturned false])
  else
    let s := { s with
      moduleName
      stdoutBuffer := []
      readyEmitted := false
      socketName := "logos_view_" ++ moduleName ++ "_" ++ outcome.uniqueId }
    if !outcome.found then (s, [.spawning moduleName, .spawnReturned false])
    else
      let launched := s.launch pluginPath authToken outcome
      (launched.1, .spawning moduleName :: launched.2)

/-- The handler of `newConnection`. -/
def newConnection (n : ℕ) (s : Host) : Host × List Obs :=
  let server := s.server n
  match server.pending with
  | 0 => (s, [])
  | pending + 1 =>
      (s.setServer n { server with pending, listening := false }, [.tokenWritten n server.token])

/-- The loop over the complete lines of the buffer, up to the slots of `ready()`; `fuel` rounds are
run at most. -/
def parse : ℕ → Host → Option (Host × List Obs)
  | 0, s => if toInt (indexOfNewline s.stdoutBuffer) ≠ -1 then none else some (s, [])
  | fuel + 1, s =>
      let newlineIdx := toInt (indexOfNewline s.stdoutBuffer)
      if newlineIdx ≠ -1 then
        let line := left newlineIdx s.stdoutBuffer
        let s := { s with stdoutBuffer := remove (toInt (newlineIdx + 1)) s.stdoutBuffer }
        if !s.readyEmitted && trimmed line == bytes "READY" then
          some ({ s with readyEmitted := true, parsing := s.parsing + 1 }, [.ready])
        else parse fuel s
      else some (s, [])

/-- The handler of `readyReadStandardOutput`.  A round takes a byte at least, or it comes again and
again. -/
def readyRead (chunk : QByteArray) (s : Host) : Option (Host × List Obs) :=
  let s := { s with stdoutBuffer := s.stdoutBuffer ++ chunk }
  (s.parse s.stdoutBuffer.length).map fun parsed => (parsed.1, .read chunk :: parsed.2)

/-- The slots of `ready()` return into the loop. -/
def ret (s : Host) : Option (Host × List Obs) :=
  match s.parsing with
  | 0 => none
  | parsing + 1 => { s with parsing }.parse s.stdoutBuffer.length

/-- The handler of `finished`. -/
def finished (exitCode : ℤ) (s : Host) : Host × List Obs :=
  ({ s with process := none }, [.processExited exitCode])

/-- `stop` asks the child to go and waits.  What the child does in the meantime, its end included,
comes as steps of its own. -/
def stop (s : Host) : Host × List Obs :=
  match s.process with
  | none => (s, [])
  | some n => (s, [.stopping n])

end Host

inductive Action where
  | spawn (moduleName pluginPath authToken : String) (outcome : Outcome)
  | stop
  | connect (n : ℕ)
  | newConnection (n : ℕ)
  | readyRead (chunk : QByteArray)
  | finished (exitCode : ℤ)
  | ret

def step (s : Host) : Action → Option (Host × List Obs)
  | .spawn moduleName pluginPath authToken outcome =>
      some (s.spawn moduleName pluginPath authToken outcome)
  | .stop => some s.stop
  | .connect n =>
      if (s.server n).listening then
        some (s.setServer n { s.server n with pending := (s.server n).pending + 1 }, [])
      else none
  | .newConnection n => if (s.server n).listening then some (s.newConnection n) else none
  | .readyRead chunk => if s.process ≠ none then s.readyRead chunk else none
  | .finished exitCode => if s.process ≠ none then some (s.finished exitCode) else none
  | .ret => s.ret

def machine : Reactive.Machine Host Action Obs where
  init := {}
  step := step

end LogosViewRuntime.ViewModuleHost
