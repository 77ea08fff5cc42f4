import LogosViewRuntime.Lib.Tickets
import LogosViewRuntime.PortRecovery

/-! # Announced connections

A server that takes a port queues one `newConnection` for it, and QtRO answers each of them with
one `configureNewConnection`.  The announcements are tickets: as long as `close` finds no port
pending, every ticket serves a port, in the order in which the ports were taken.  A `close` that
drops a port leaves its ticket out, and the device that QtRO is handed for it in the end is null
(`never_null_iff_closes_empty`). -/

namespace LogosViewRuntime.PortTransport

open Reactive

/-- The steps that were taken. -/
abbrev History := List (Machine.Taken Process Action Obs)

/-! ### The property and its condition -/

def Process.pendingOf (i : ℕ) (s : Process) : List PortId := (s.servers[i]?).elim [] (·.pending)

/-- What a step adds to the pending list of the server `i`. -/
def grown (i : ℕ) (m : Machine.Taken Process Action Obs) : List PortId :=
  (m.after.pendingOf i).drop (m.before.pendingOf i).length

/-- The ports that the server `i` took. -/
def took (i : ℕ) (h : History) : List PortId := h.flatMap (grown i)

def handedTo (i : ℕ) : Obs → Option PortId
  | .attached _ (.server j) port => if j = i then some port else none
  | _ => none

/-- The ports that the server `i` handed out. -/
def handed (i : ℕ) (h : History) : List PortId := h.flatMap fun m => m.os.filterMap (handedTo i)

def announced (i : ℕ) (h : History) : ℕ := (h.flatMap (·.os)).count (.newConnection i)

def isConfigure (i : ℕ) : Action → Bool
  | .configureNewConnection j => j = i
  | _ => false

def configured (i : ℕ) (h : History) : ℕ := h.countP fun m => isConfigure i m.label

/-- `configureNewConnection` is called once for each `newConnection`. -/
def Answers (h : History) (_ : Process) : Action → Prop
  | .configureNewConnection i => configured i h < announced i h
  | _ => True

instance (h : History) (s : Process) : (a : Action) → Decidable (Answers h s a)
  | .configureNewConnection i => inferInstanceAs (Decidable (configured i h < announced i h))
  | .publish .. | .withdraw _ | .closePort _ | .turn | .connectToServer _ |
    .disconnectFromServer _ | .createServer | .listen .. | .closeServer _ | .closeIo _ =>
      inferInstanceAs (Decidable True)

/-- No `configureNewConnection` of the server `i` returned null. -/
def NeverNull (i : ℕ) (h : History) : Prop := ∀ m ∈ h, .noConnection i ∉ m.os

/-- Every announcement was delivered and answered. -/
def AllAnswered (i : ℕ) (h : History) (s : Process) : Prop :=
  .newConnection i ∉ s.queue ∧ configured i h = announced i h

def isClose (i : ℕ) : Action → Bool
  | .closeServer j => j = i
  | _ => false

/-- The server `i` was closed only while no port was pending. -/
def ClosesEmpty (i : ℕ) (h : History) : Prop :=
  ∀ m ∈ h, isClose i m.label = true → m.before.pendingOf i = []

instance (i : ℕ) (h : History) : Decidable (NeverNull i h) :=
  inferInstanceAs (Decidable (∀ m ∈ h, .noConnection i ∉ m.os))

instance (i : ℕ) (h : History) : Decidable (ClosesEmpty i h) :=
  inferInstanceAs (Decidable (∀ m ∈ h, isClose i m.label = true → m.before.pendingOf i = []))

/-! ### What a step does to a server -/

variable {s s' : Process} {i j : ℕ} {server : Server} {name : String}

/-- The pending ports and the queued announcements. -/
def Process.room (i : ℕ) (s : Process) : List PortId × ℕ :=
  (s.pendingOf i, s.queue.count (.newConnection i))

theorem Spares.room (h : Spares s s') (i : ℕ) : s'.room i = s.room i := by
  rw [Process.room, Process.room, Process.pendingOf, Process.pendingOf, h.servers, h.announced]

theorem pendingOf_eq (hi : s.servers[i]? = some server) : s.pendingOf i = server.pending := by
  rw [Process.pendingOf, hi, Option.elim_some]

theorem pendingOf_setServer (hi : s.servers[i]? = some server) (server' : Server) :
    (s.setServer i server').pendingOf i = server'.pending := by
  have hlt : i < s.servers.length := (List.getElem?_eq_some_iff.mp hi).1
  exact pendingOf_eq (List.getElem?_set_self hlt)

theorem pendingOf_setServer_ne (hj : j ≠ i) (server' : Server) :
    (s.setServer j server').pendingOf i = s.pendingOf i := by
  simp only [Process.pendingOf, Process.setServer, List.getElem?_set_ne hj]

/-- Nothing, or one port with its announcement. -/
def Receives (i : ℕ) (s s' : Process) : Prop :=
  s'.room i = s.room i ∨
    ∃ port, s'.room i = ((s.room i).1 ++ [port], (s.room i).2 + 1)

theorem Receives.congr {s₁ s₁' : Process} (h : Receives i s₁ s₁') (hs : s₁.room i = s.room i)
    (hs' : s'.room i = s₁'.room i) : Receives i s s' := by
  rw [Receives, ← hs, hs']
  exact h

theorem room_onPublished_ne (hj : j ≠ i) : (s.onPublished name j server).room i = s.room i := by
  unfold Process.onPublished Process.take
  split_ifs
  · rfl
  · cases s.registry.lookup name with
    | none => rfl
    | some port =>
        have hpending := pendingOf_setServer_ne (s := s.withdraw name) hj
          { server with pending := server.pending ++ [port] }
        refine Prod.ext hpending ?_
        show (s.queue ++ [Event.newConnection j]).count (.newConnection i) = _
        rw [List.count_append, List.count_singleton, if_neg (by simpa using hj)]
        rfl

theorem receives_onPublished (hi : s.servers[i]? = some server) :
    Receives i s (s.onPublished name i server) := by
  unfold Process.onPublished Process.take
  split_ifs
  · exact .inl rfl
  · cases s.registry.lookup name with
    | none => exact .inl rfl
    | some port =>
        have hpending := pendingOf_setServer (s := s.withdraw name) hi
          { server with pending := server.pending ++ [port] }
        refine .inr ⟨port, Prod.ext ?_ ?_⟩
        · refine hpending.trans ?_
          show server.pending ++ [port] = s.pendingOf i ++ [port]
          rw [pendingOf_eq hi]
        · show (s.queue ++ [Event.newConnection i]).count (.newConnection i) = _
          rw [List.count_append, List.count_singleton_self]
          rfl

/-- The servers from the `j`-th on leave those before it alone. -/
theorem room_emitPublished {servers : List Server} (hj : i < j) :
    (s.emitPublished name j servers).room i = s.room i := by
  induction servers generalizing j s with
  | nil => rfl
  | cons server servers ih =>
      have hne : j ≠ i := by omega
      exact (ih (Nat.lt_succ_of_lt hj)).trans (room_onPublished_ne hne)

theorem receives_emitPublished {servers : List Server}
    (hservers : ∀ k server, servers[k]? = some server → s.servers[j + k]? = some server) :
    Receives i s (s.emitPublished name j servers) := by
  induction servers generalizing j s with
  | nil => exact .inl rfl
  | cons server servers ih =>
      by_cases hj : j = i
      · subst hj
        have hrest : ((s.onPublished name j server).emitPublished name (j + 1) servers).room j =
            (s.onPublished name j server).room j := room_emitPublished (Nat.lt_succ_self j)
        exact (receives_onPublished (hservers 0 server rfl)).congr rfl hrest
      · refine Receives.congr (ih fun k server' hk => ?_) (room_onPublished_ne hj) rfl
        rw [getElem?_onPublished (by omega), Nat.add_right_comm]
        exact hservers (k + 1) server' hk

theorem receives_publish (i : ℕ) (name : String) (port : PortId) (s : Process) :
    Receives i s (s.publish name port) := by
  unfold Process.publish
  split_ifs
  · exact .inl rfl
  · refine receives_emitPublished (s := { s with registry := s.registry.insert name port })
      fun k server hk => ?_
    rwa [Nat.zero_add]

theorem receives_listen (hj : s.servers[j]? = some server) (i : ℕ) (address : String) :
    Receives i s (s.listen j address server) := by
  have hlt : j < s.servers.length := (List.getElem?_eq_some_iff.mp hj).1
  have hset : ∀ server', server'.pending = server.pending →
      (s.setServer j server').room i = s.room i := by
    intro server' hpending
    refine Prod.ext ?_ rfl
    by_cases hji : j = i
    · subst hji
      exact (pendingOf_setServer hj server').trans (hpending.trans (pendingOf_eq hj).symm)
    · exact pendingOf_setServer_ne hji server'
  simp only [Process.listen]
  split_ifs
  · exact .inl (hset _ rfl)
  · have hroom := hset { server with name := portNameOf address, listening := true } rfl
    by_cases hji : j = i
    · subst hji
      exact (receives_onPublished (List.getElem?_set_self hlt)).congr hroom rfl
    · exact .inl ((room_onPublished_ne hji).trans hroom)

/-! ### Every step -/

/-- What the waiting room sees of an observation. -/
def answer (i : ℕ) : Obs → List (Tickets.Obs PortId)
  | .attached _ (.server j) port => if j = i then [.served (some port)] else []
  | .noConnection j => if j = i then [.served none] else []
  | _ => []

/-- No server is concerned. -/
def Unannounced (os : List Obs) : Prop := ∀ o ∈ os, ∀ i, answer i o = [] ∧ o ≠ .newConnection i

theorem Unannounced.append {os os' : List Obs} (h : Unannounced os) (h' : Unannounced os') :
    Unannounced (os ++ os') := fun o ho => (List.mem_append.mp ho).elim (h o) (h' o)

theorem unannounced_onPortClosed (d : ℕ) (s : Process) : Unannounced (s.onPortClosed d).2 := by
  unfold Process.onPortClosed Process.disconnected
  split
  · exact fun o ho => absurd ho List.not_mem_nil
  · rename_i device _
    dsimp only
    split
    · split_ifs
      · simp [Unannounced, answer]
      · exact fun o ho => absurd ho List.not_mem_nil
    · simp [Unannounced, answer]

theorem unannounced_emitClosed (ds : List ℕ) (s : Process) : Unannounced (s.emitClosed ds).2 := by
  induction ds generalizing s with
  | nil => exact fun o ho => absurd ho List.not_mem_nil
  | cons d ds ih => exact (unannounced_onPortClosed d s).append (ih _)

theorem unannounced_closePort (port : PortId) (s : Process) :
    Unannounced (s.closePort port).2 := by
  unfold Process.closePort
  split_ifs
  · exact fun o ho => absurd ho List.not_mem_nil
  · have hclosed : Unannounced [.closed port] := by simp [Unannounced, answer]
    exact hclosed.append (unannounced_emitClosed _ _)

/-- What a step is to the server `i`. -/
inductive Effect (i : ℕ) (s : Process) (a : Action) : Process → List Obs → Prop
  | other {s' : Process} {os : List Obs} : isConfigure i a = false → isClose i a = false →
      s'.room i = s.room i → os.flatMap (answer i) = [] → os.count (.newConnection i) = 0 →
      Effect i s a s' os
  | take {s' : Process} (port : PortId) : isConfigure i a = false → isClose i a = false →
      s'.room i = ((s.room i).1 ++ [port], (s.room i).2 + 1) → Effect i s a s' []
  | announce {s' : Process} : a = .turn → (s'.room i).1 = (s.room i).1 →
      (s'.room i).2 + 1 = (s.room i).2 → Effect i s a s' [.newConnection i]
  | configure {s' : Process} {os : List Obs} : a = .configureNewConnection i →
      s'.room i = ((s.room i).1.tail, (s.room i).2) →
      os.flatMap (answer i) = [.served (s.room i).1.head?] → os.count (.newConnection i) = 0 →
      Effect i s a s' os
  | close {s' : Process} : a = .closeServer i → s'.room i = ([], (s.room i).2) →
      Effect i s a s' []

theorem Effect.of_unannounced {a : Action} {os : List Obs} (hconfigure : isConfigure i a = false)
    (hclose : isClose i a = false) (hroom : s'.room i = s.room i) (hos : Unannounced os) :
    Effect i s a s' os := by
  refine .other hconfigure hclose hroom ?_ ?_
  · exact List.flatMap_eq_nil_iff.mpr fun o ho => (hos o ho i).1
  · exact List.count_eq_zero.mpr fun hmem => (hos _ hmem i).2 rfl

theorem Effect.of_receives {a : Action} (hconfigure : isConfigure i a = false)
    (hclose : isClose i a = false) (h : Receives i s s') : Effect i s a s' [] := by
  obtain hroom | ⟨port, hroom⟩ := h
  · exact .other hconfigure hclose hroom rfl rfl
  · exact .take port hconfigure hclose hroom

theorem effect_turn (i : ℕ) (s : Process) : Effect i s .turn s.turn.1 s.turn.2 := by
  unfold Process.turn
  cases hqueue : s.queue with
  | nil => exact .other rfl rfl rfl rfl rfl
  | cons event queue =>
      have hcount : (s.room i).2 = queue.count (.newConnection i) +
          [event].count (.newConnection i) := by
        rw [Process.room, hqueue, ← List.singleton_append, List.count_append, Nat.add_comm]
      cases event with
      | closePeer port =>
          refine .of_unannounced rfl rfl ?_ (unannounced_closePort port.peer { s with queue })
          refine ((spares_closePort port.peer { s with queue }).room i).trans (Prod.ext rfl ?_)
          exact hcount.symm
      | newConnection j =>
          by_cases hj : j = i
          · subst hj
            refine .announce rfl rfl ?_
            rw [hcount, List.count_singleton_self]
            rfl
          · rw [List.count_singleton, if_neg (by simpa using hj)] at hcount
            refine .other rfl rfl (Prod.ext rfl hcount.symm) rfl ?_
            show [Obs.newConnection j].count (.newConnection i) = 0
            exact List.count_eq_zero.mpr (by simpa using Ne.symm hj)
      | deleteDevice d => exact .other rfl rfl (Prod.ext rfl hcount.symm) rfl rfl

theorem effect_configureNewConnection (hj : s.servers[j]? = some server) (i : ℕ) :
    Effect i s (.configureNewConnection j) (s.configureNewConnection j server).1
      (s.configureNewConnection j server).2 := by
  unfold Process.configureNewConnection
  by_cases hji : j = i
  · subst hji
    have hroom : (s.room j).1 = server.pending := pendingOf_eq hj
    cases hpending : server.pending with
    | nil =>
        rw [hpending] at hroom
        refine .configure rfl (Prod.ext ?_ rfl) ?_ rfl
        · show (s.room j).1 = (s.room j).1.tail
          rw [hroom]
          rfl
        · rw [hroom]
          simp [answer]
    | cons port pending =>
        rw [hpending] at hroom
        refine .configure rfl (Prod.ext ?_ rfl) ?_ rfl
        · rw [hroom]
          exact pendingOf_setServer hj { server with pending }
        · rw [hroom]
          simp [Process.attach, answer]
  · have hconfigure : isConfigure i (.configureNewConnection j) = false := decide_eq_false hji
    cases server.pending with
    | nil =>
        refine .other hconfigure rfl rfl ?_ rfl
        simp [answer, hji]
    | cons port pending =>
        refine .other hconfigure rfl (Prod.ext (pendingOf_setServer_ne hji _) rfl) ?_ rfl
        simp [Process.attach, answer, hji]

theorem effect_connectToServer (i c : ℕ) (s : Process) :
    Effect i s (.connectToServer c) (s.connectToServer c).1 (s.connectToServer c).2 := by
  obtain ⟨-, he⟩ | ⟨-, -, s', ⟨-, hspares⟩, he⟩ | ⟨-, port, s', ⟨-, hspares⟩, -, he⟩ :=
    connectToServer_cases c s
  · rw [he]
    exact .other rfl rfl rfl rfl rfl
  · rw [he]
    exact .other rfl rfl (hspares.room i) rfl rfl
  · rw [he]
    exact .other rfl rfl (hspares.room i) rfl rfl

theorem step_effect {a : Action} {os : List Obs} (i : ℕ) (hs : step s a = some (s', os)) :
    Effect i s a s' os := by
  cases step_cases hs with
  | publish name port => exact .of_receives rfl rfl (receives_publish i name port s)
  | withdraw name => exact .other rfl rfl rfl rfl rfl
  | closePort port =>
      exact .of_unannounced rfl rfl ((spares_closePort port s).room i) (unannounced_closePort port s)
  | turn => exact effect_turn i s
  | connectToServer c => exact effect_connectToServer i c s
  | disconnectFromServer c =>
      exact .other rfl rfl ((spares_disconnectFromServer c s).room i) rfl rfl
  | createServer =>
      refine .other rfl rfl (Prod.ext ?_ rfl) rfl rfl
      simp only [Process.room, Process.pendingOf]
      obtain hlt | hge := Nat.lt_or_ge i s.servers.length
      · rw [List.getElem?_append_left hlt]
      · rw [List.getElem?_append_right hge, List.getElem?_eq_none (l := s.servers) hge]
        cases i - s.servers.length <;> rfl
  | listen j address server hj => exact .of_receives rfl rfl (receives_listen hj i address)
  | closeServer j server hj =>
      by_cases hji : j = i
      · subst hji
        exact .close rfl (Prod.ext (pendingOf_setServer hj _) rfl)
      · exact .other rfl (decide_eq_false hji) (Prod.ext (pendingOf_setServer_ne hji _) rfl) rfl rfl
  | configureNewConnection j server hj => exact effect_configureNewConnection hj i
  | closeIo d => exact .other rfl rfl ((spares_closeIo d s).room i) rfl rfl

/-! ### The waiting room -/

/-- What the waiting room sees of a step. -/
def seen (i : ℕ) (m : Machine.Taken Process Action Obs) : List (Tickets.Obs PortId) :=
  (grown i m).map .entered ++ m.os.flatMap (answer i) ++
    if isClose i m.label then [.cleared (m.before.pendingOf i)] else []

/-- What is read off what the waiting room sees. -/
theorem flatMap_seen {β : Type*} (f : Tickets.Obs PortId → List β) (i : ℕ) (h : History) :
    (h.flatMap (seen i)).flatMap f = h.flatMap fun m =>
      (grown i m).flatMap (fun port => f (.entered port)) ++
        m.os.flatMap (fun o => (answer i o).flatMap f) ++
        if isClose i m.label then f (.cleared (m.before.pendingOf i)) else [] := by
  rw [List.flatMap_assoc]
  congr 1
  funext m
  simp only [seen, List.flatMap_append, List.flatMap_map, List.flatMap_assoc]
  cases isClose i m.label <;> simp

/-- The waiting room is told of nothing but what is served. -/
theorem answer_served {o : Obs} {t : Tickets.Obs PortId} (h : t ∈ answer i o) :
    ∃ port, t = .served port := by
  unfold answer at h
  split at h
  · split_ifs at h
    · exact ⟨_, List.mem_singleton.mp h⟩
    · cases h
  · split_ifs at h
    · exact ⟨_, List.mem_singleton.mp h⟩
    · cases h
  · cases h

theorem entered_seen (i : ℕ) (h : History) : Tickets.entered (h.flatMap (seen i)) = took i h := by
  rw [Tickets.entered, flatMap_seen, took]
  congr 1
  funext m
  have hanswer : ∀ o ∈ m.os, (answer i o).flatMap Tickets.Obs.entry = [] := by
    intro o _
    refine List.flatMap_eq_nil_iff.mpr fun t ht => ?_
    obtain ⟨port, rfl⟩ := answer_served ht
    rfl
  have hgrown : (grown i m).flatMap (fun port => Tickets.Obs.entry (.entered port)) = grown i m :=
    List.flatMap_singleton' _
  rw [hgrown, List.flatMap_eq_nil_iff.mpr hanswer]
  cases isClose i m.label <;> simp [Tickets.Obs.entry]

theorem served_seen (i : ℕ) (h : History) : Tickets.served (h.flatMap (seen i)) = handed i h := by
  rw [Tickets.served, flatMap_seen, handed]
  congr 1
  funext m
  have hanswer : ∀ o, (answer i o).flatMap Tickets.Obs.service = (handedTo i o).toList := by
    intro o
    cases o with
    | attached d user port =>
        cases user with
        | client c => rfl
        | server j => by_cases hj : j = i <;> simp [answer, handedTo, hj, Tickets.Obs.service]
    | noConnection j => by_cases hj : j = i <;> simp [answer, handedTo, hj, Tickets.Obs.service]
    | _ => rfl
  rw [List.filterMap_eq_flatMap_toList]
  simp only [hanswer]
  cases isClose i m.label <;> simp [Tickets.Obs.service]

theorem vain_seen (i : ℕ) (h : History) :
    Tickets.vain (h.flatMap (seen i)) = 0 ↔ NeverNull i h := by
  have hanswer : ∀ o, .served none ∈ answer i o ↔ o = .noConnection i := by
    intro o
    cases o with
    | attached d user port =>
        cases user with
        | client c => simp [answer]
        | server j => by_cases hj : j = i <;> simp [answer, hj]
    | noConnection j => by_cases hj : j = i <;> simp [answer, hj]
    | _ => simp [answer]
  have hseen : ∀ m, .served none ∈ seen i m ↔ .noConnection i ∈ m.os := by
    intro m
    simp only [seen, List.mem_append, List.mem_map, List.mem_flatMap, hanswer]
    cases isClose i m.label <;> simp
  rw [Tickets.vain, List.countP_eq_zero, NeverNull]
  constructor
  · intro hvain m hm hnull
    exact hvain _ (List.mem_flatMap.mpr ⟨m, hm, (hseen m).mpr hnull⟩) rfl
  · intro hnever o ho hvain
    obtain ⟨m, hm, ho⟩ := List.mem_flatMap.mp ho
    have hnone : o = .served none := by
      cases o with
      | served port => rw [Option.isNone_iff_eq_none.mp hvain]
      | entered _ => cases hvain
      | cleared _ => cases hvain
    subst hnone
    exact hnever m hm ((hseen m).mp ho)

theorem lost_seen (i : ℕ) (h : History) :
    Tickets.lost (h.flatMap (seen i)) = [] ↔ ClosesEmpty i h := by
  rw [Tickets.lost, flatMap_seen, List.flatMap_eq_nil_iff, ClosesEmpty]
  refine forall₂_congr fun m _ => ?_
  have hanswer : ∀ o ∈ m.os, (answer i o).flatMap Tickets.Obs.loss = [] := by
    intro o _
    refine List.flatMap_eq_nil_iff.mpr fun t ht => ?_
    obtain ⟨port, rfl⟩ := answer_served ht
    rfl
  rw [List.flatMap_eq_nil_iff.mpr hanswer]
  cases isClose i m.label <;> simp [Tickets.Obs.loss]

/-- The tickets are the announcements that are queued or not answered. -/
structure Holds (i : ℕ) (h : History) (s : Process) (room : Tickets.Room PortId) : Prop where
  waiting : room.waiting = s.pendingOf i
  tickets : room.tickets + configured i h = s.queue.count (.newConnection i) + announced i h

theorem configured_snoc (i : ℕ) (h : History) (m : Machine.Taken Process Action Obs) :
    configured i (h ++ [m]) = configured i h + if isConfigure i m.label then 1 else 0 := by
  simp [configured, List.countP_append, List.countP_singleton]

theorem announced_snoc (i : ℕ) (h : History) (m : Machine.Taken Process Action Obs) :
    announced i (h ++ [m]) = announced i h + m.os.count (.newConnection i) := by
  simp [announced]

/-- What the waiting room sees of a step, and what becomes of the pending ports and of the
announcements that are queued or made. -/
inductive Shows (i : ℕ) (m : Machine.Taken Process Action Obs) : Prop
  | nothing : seen i m = [] → m.after.pendingOf i = m.before.pendingOf i →
      (m.after.room i).2 + m.os.count (.newConnection i) = (m.before.room i).2 →
      isConfigure i m.label = false → Shows i m
  | entered (port : PortId) : seen i m = [.entered port] →
      m.after.pendingOf i = m.before.pendingOf i ++ [port] →
      (m.after.room i).2 + m.os.count (.newConnection i) = (m.before.room i).2 + 1 →
      isConfigure i m.label = false → Shows i m
  | served : seen i m = [.served (m.before.pendingOf i).head?] →
      m.after.pendingOf i = (m.before.pendingOf i).tail →
      (m.after.room i).2 + m.os.count (.newConnection i) = (m.before.room i).2 →
      m.label = .configureNewConnection i → Shows i m
  | cleared : seen i m = [.cleared (m.before.pendingOf i)] → m.after.pendingOf i = [] →
      (m.after.room i).2 + m.os.count (.newConnection i) = (m.before.room i).2 →
      isConfigure i m.label = false → Shows i m

theorem grown_append {m : Machine.Taken Process Action Obs} {ports : List PortId}
    (h : m.after.pendingOf i = m.before.pendingOf i ++ ports) : grown i m = ports := by
  rw [grown, h, List.drop_left]

theorem Effect.shows {a : Action} {os : List Obs} (h : Effect i s a s' os) :
    Shows i ⟨s, a, os, s'⟩ := by
  cases h with
  | other hconfigure hclose hroom hanswer hcount =>
      obtain ⟨hpending, hqueue⟩ := Prod.mk.inj hroom
      refine .nothing ?_ hpending ?_ hconfigure
      · simp [seen, grown, hpending, hanswer, hclose]
      · dsimp only
        rw [hcount, Nat.add_zero]
        exact hqueue
  | take port hconfigure hclose hroom =>
      obtain ⟨hpending, hqueue⟩ := Prod.mk.inj hroom
      refine .entered port ?_ hpending hqueue hconfigure
      rw [seen, grown_append hpending]
      simp [hclose]
  | announce ha hpending hqueue =>
      subst ha
      refine .nothing ?_ hpending ?_ rfl
      · have hgrown : grown i ⟨s, .turn, [.newConnection i], s'⟩ = [] :=
          grown_append (hpending.trans (List.append_nil _).symm)
        rw [seen, hgrown]
        rfl
      · dsimp only
        rw [List.count_singleton_self]
        exact hqueue
  | configure ha hroom hanswer hcount =>
      subst ha
      obtain ⟨hpending, hqueue⟩ := Prod.mk.inj hroom
      refine .served ?_ hpending ?_ rfl
      · have hgrown : grown i ⟨s, .configureNewConnection i, os, s'⟩ = [] := by
          rw [grown, hpending, List.drop_eq_nil_iff, Process.room, List.length_tail]
          exact Nat.sub_le _ _
        rw [seen, hgrown, hanswer]
        rfl
      · dsimp only
        rw [hcount, Nat.add_zero]
        exact hqueue
  | close ha hroom =>
      subst ha
      obtain ⟨hpending, hqueue⟩ := Prod.mk.inj hroom
      refine .cleared ?_ hpending hqueue rfl
      have hgrown : grown i ⟨s, .closeServer i, [], s'⟩ = [] := by
        rw [grown, hpending]
        exact List.drop_nil
      have hclose : isClose i (.closeServer i) = true := decide_eq_true rfl
      rw [seen, hgrown, hclose]
      rfl

theorem Holds.step {h : History} {room : Tickets.Room PortId} {a : Action} {os : List Obs}
    (hr : Holds i h s room) (hg : Answers h s a) (hs : step s a = some (s', os)) :
    ∃ room', (Tickets.machine PortId).Moves room (seen i ⟨s, a, os, s'⟩) room' ∧
      Holds i (h ++ [⟨s, a, os, s'⟩]) s' room' := by
  obtain ⟨hwaiting, htickets⟩ := hr
  have hconfigured := configured_snoc i h ⟨s, a, os, s'⟩
  have hannounced := announced_snoc i h ⟨s, a, os, s'⟩
  dsimp only at hconfigured hannounced
  cases (step_effect i hs).shows with
  | nothing hseen hpending hqueue hconfigure =>
      rw [hconfigure, if_neg Bool.false_ne_true] at hconfigured
      refine ⟨room, .inl ⟨rfl, hseen⟩, hwaiting.trans hpending.symm, ?_⟩
      dsimp only [Process.room] at hqueue
      omega
  | entered port hseen hpending hqueue hconfigure =>
      rw [hconfigure, if_neg Bool.false_ne_true] at hconfigured
      refine ⟨⟨room.waiting ++ [port], room.tickets + 1⟩, .inr ⟨.enter port, ?_⟩, ?_, ?_⟩
      · rw [hseen]
        rfl
      · rw [hpending, hwaiting]
      · dsimp only [Process.room] at hqueue ⊢
        omega
  | served hseen hpending hqueue ha =>
      obtain rfl : a = .configureNewConnection i := ha
      have hconfigure : isConfigure i (.configureNewConnection i) = true := decide_eq_true rfl
      rw [hconfigure, if_pos rfl] at hconfigured
      dsimp only [Process.room] at hqueue
      have hopen : configured i h < announced i h := hg
      refine ⟨⟨room.waiting.tail, room.tickets - 1⟩, .inr ⟨.serve, ?_⟩, ?_, ?_⟩
      · -- an announcement that is not answered is a ticket
        have hout : room.tickets ≠ 0 := by omega
        show Tickets.step room .serve = _
        rw [Tickets.step, if_neg hout, hseen, hwaiting]
      · rw [hpending, hwaiting]
      · dsimp only
        omega
  | cleared hseen hpending hqueue hconfigure =>
      rw [hconfigure, if_neg Bool.false_ne_true] at hconfigured
      refine ⟨{ room with waiting := [] }, .inr ⟨.clear, ?_⟩, hpending.symm, ?_⟩
      · rw [hseen, ← hwaiting]
        rfl
      · dsimp only [Process.room] at hqueue ⊢
        omega

/-! ### Runs -/

section run

variable {url : ℕ → String} {h : History}

theorem run_holds (i : ℕ) (hrun : (machine url).shown.Run Answers h s) :
    ∃ room, (Tickets.machine PortId).Run Machine.always (h.flatMap (seen i)) room ∧
      Holds i h s room := by
  refine Machine.Run.simulates (N := Tickets.machine PortId) (R := Holds i) ⟨rfl, rfl⟩
    (fun {_ _ _ _ _ _} hr hg hs => ?_) hrun
  obtain ⟨os, hos, rfl⟩ := Machine.shown_step.mp hs
  obtain ⟨room', hmoves, hr'⟩ := hr.step hg hos
  refine ⟨room', ?_, hr'⟩
  rwa [List.flatMap_singleton]

/-- Only the event loop announces. -/
theorem turn_of_announced {a : Action} {os : List Obs} (hs : step s a = some (s', os))
    (hmem : .newConnection j ∈ os) : a = .turn := by
  have hpos := List.count_pos_iff.mpr hmem
  cases step_effect j hs with
  | other _ _ _ _ hcount => omega
  | take port _ _ _ => cases hmem
  | announce ha _ _ => exact ha
  | configure _ _ _ hcount => omega
  | close _ _ => cases hmem

/-- What a server does for the ports it took, in whatever order things happen to it. -/
structure Orderly (i : ℕ) (h : History) (s : Process) : Prop where
  queued : ∀ m ∈ h, ∀ j, .newConnection j ∈ m.os → m.label = .turn
  order : (handed i h ++ s.pendingOf i).Sublist (took i h)

/-- What it does for them when none is dropped. -/
structure Connects (i : ℕ) (h : History) (s : Process) : Prop where
  device : NeverNull i h
  order : handed i h ++ s.pendingOf i = took i h
  once : AllAnswered i h s → handed i h = took i h

/-- **Every announcement has its connection**: `newConnection` is emitted by the event loop only and
ports are handed out in the order in which they were taken, whatever happens; `configureNewConnection`
never returns null, and hands every port out once, in the runs in which the server is closed only
while no port is pending; and in the others it does return null, by the time that the last
announcement is answered. -/
theorem never_null_iff_closes_empty (url : ℕ → String) (i : ℕ) :
    ∀ h s, (machine url).shown.Run Answers h s →
      Orderly i h s ∧ (ClosesEmpty i h → Connects i h s) ∧
        (AllAnswered i h s → (NeverNull i h ↔ ClosesEmpty i h)) := by
  intro h s hrun
  obtain ⟨room, hroom, hwaiting, htickets⟩ := run_holds i hrun
  have hdrained : AllAnswered i h s → room.waiting = [] ∧
      Tickets.vain (h.flatMap (seen i)) = (Tickets.lost (h.flatMap (seen i))).length := by
    rintro ⟨hqueue, hanswered⟩
    rw [List.count_eq_zero.mpr hqueue, hanswered] at htickets
    exact Tickets.run_drained hroom (by omega)
  refine ⟨⟨fun m hm j hj => ?_, ?_⟩, fun hclosed => ?_, fun hanswered => ?_⟩
  · exact turn_of_announced (hrun.taken m hm) hj
  · rw [← served_seen, ← entered_seen, ← hwaiting]
    exact (Tickets.run_balanced hroom).order
  · obtain ⟨hvain, hserved⟩ := Tickets.run_kept hroom ((lost_seen i h).mpr hclosed)
    rw [served_seen, entered_seen, hwaiting] at hserved
    refine ⟨(vain_seen i h).mp hvain, hserved, fun hanswered => ?_⟩
    rw [← hwaiting, (hdrained hanswered).1, List.append_nil] at hserved
    exact hserved
  · rw [← vain_seen, ← lost_seen, (hdrained hanswered).2, List.length_eq_zero_iff]

end run

/-- A port that was published before the server listened and two that came after, one of them while
it listened a second time; it is closed when all are handed out. -/
theorem three_connections : ∃ h s, (machine fun _ => "runtime").shown.Run Answers h s ∧
    Connects 0 h s ∧ AllAnswered 0 h s ∧ handed 0 h = [(0, .b), (1, .b), (2, .b)] := by
  have hrun := Machine.exec_run (M := (machine fun _ => "runtime").shown) (G := Answers)
    [.publish "backend" (0, .b), .createServer, .createServer, .listen 0 "backend",
      .listen 1 "backend", .publish "backend" (1, .b), .turn, .configureNewConnection 0,
      .listen 0 "/backend", .publish "backend" (2, .b), .turn, .turn, .configureNewConnection 0,
      .configureNewConnection 0, .closeServer 0] rfl
  obtain ⟨-, hconnects, -⟩ := never_null_iff_closes_empty _ 0 _ _ hrun
  exact ⟨_, _, hrun, hconnects (of_decide_eq_true rfl), ⟨List.not_mem_nil, rfl⟩, rfl⟩

/-- A server is closed between the announcement of a port and the event loop. -/
theorem closed_with_a_port_pending : ∃ h s, (machine fun _ => "runtime").shown.Run Answers h s ∧
    ¬ NeverNull 0 h := by
  have hrun := Machine.exec_run (M := (machine fun _ => "runtime").shown) (G := Answers)
    [.createServer, .listen 0 "backend", .publish "backend" (0, .b), .closeServer 0, .turn,
      .configureNewConnection 0] rfl
  exact ⟨_, _, hrun, of_decide_eq_false rfl⟩

end LogosViewRuntime.PortTransport
