import LogosViewRuntime.Lib.Slots
import LogosViewRuntime.Lib.Stock
import LogosViewRuntime.ServerAnnounce

/-! # A port name means that name

`publish` files a port under the name that it is given; who connects to `url(name)` or listens on it
looks for that name without its leading slashes.  The ledger of a run keeps the names as they were
given, to `publish` and to `url`, and holds whoever asks for one to what was published under that
very name.  Names that begin with a slash are the ones that do not mean themselves
(`mean_themselves_iff`). -/

namespace LogosViewRuntime.PortTransport

open Reactive Slots

/-! ### The property and its condition -/

/-- What was published, withdrawn and asked for, by the names that were given, and the address that
each server listens on. -/
structure Ledger where
  address : ℕ → Option String := fun _ => none
  ops : List (Op String PortId) := []

/-- The ports that the client `c` is handed. -/
def handedToClient (c : ℕ) : Obs → Option PortId
  | .attached _ (.client c') port => if c' = c then some port else none
  | _ => none

/-- Each server that listens asks for its address whenever a port is published. -/
def Ledger.answers (l : Ledger) (m : Machine.Taken Process Action Obs) (i : ℕ) :
    List (Op String PortId) :=
  (l.address i).toList.map fun name => .asked name (grown i m)

def Ledger.enter (l : Ledger) (m : Machine.Taken Process Action Obs) : Ledger :=
  match m.label with
  | .publish name port =>
      if name = "" then l
      else
        { l with
          ops := l.ops ++ [.put name port] ++
            (List.range m.before.servers.length).flatMap (l.answers m) }
  | .withdraw name => { l with ops := l.ops ++ [.clear name] }
  | .connectToServer c =>
      if m.before.deviceIsOpen c then l
      else
        { l with
          ops := l.ops ++ [.asked (m.before.clients c).url (m.os.filterMap (handedToClient c))] }
  | .listen i address =>
      { address := Function.update l.address i (some address)
        ops := l.ops ++ [.asked address (grown i m)] }
  | .closeServer i => { l with address := Function.update l.address i none }
  | _ => l

def ledger (h : History) : Ledger := h.foldl Ledger.enter {}

/-- Only names in `N` are connected to and listened on. -/
def Asks (N : String → Prop) (_ : History) (s : Process) : Action → Prop
  | .connectToServer c => N (s.clients c).url
  | .listen _ address => N address
  | _ => True

instance (N : String → Prop) [DecidablePred N] (h : History) (s : Process) :
    (a : Action) → Decidable (Asks N h s a)
  | .connectToServer c => inferInstanceAs (Decidable (N (s.clients c).url))
  | .listen _ address => inferInstanceAs (Decidable (N address))
  | .publish .. | .withdraw _ | .closePort _ | .turn | .disconnectFromServer _ | .createServer |
    .closeServer _ | .configureNewConnection _ | .closeIo _ => inferInstanceAs (Decidable True)

/-- A name that begins with a slash. -/
def Slashed (name : String) : Prop := name.toList.head? = some '/'

instance : DecidablePred Slashed := fun name =>
  inferInstanceAs (Decidable (name.toList.head? = some '/'))

theorem ledger_snoc (h : History) (m : Machine.Taken Process Action Obs) :
    ledger (h ++ [m]) = (ledger h).enter m := by
  simp [ledger]

/-- The names that begin with a slash are those that `url` does not lead back to. -/
theorem portNameOf_eq_iff (name : String) : portNameOf name = name ↔ ¬ Slashed name := by
  rw [portNameOf, Slashed, ← String.toList_inj, String.toList_ofList]
  cases name.toList with
  | nil => simp
  | cons c cs =>
      by_cases hc : c = '/'
      · subst hc
        have hne : cs.dropWhile (· = '/') ≠ '/' :: cs := by
          intro he
          have hle := (List.dropWhile_suffix (l := cs) (· = '/')).length_le
          rw [he, List.length_cons] at hle
          omega
        simpa using hne
      · simp [hc]

/-! ### What a server that listens is given -/

variable {s s' : Process} {l : Ledger} {i j : ℕ} {server : Server} {name : String}

/-- The name of a server and whether it listens. -/
def Process.face (i : ℕ) (s : Process) : Option (String × Bool) :=
  (s.servers[i]?).map fun server => (server.name, server.listening)

/-- A server that listens on an address has it for its name. -/
def Fits : Option (String × Bool) → Option String → Prop
  | none, address => address = none
  | some (_, listening), none => listening = false
  | some (name, listening), some address =>
      name = address ∧ (address ≠ "" → listening = true)

/-- The operations are honest and the registry has what they leave. -/
structure Files (ops : List (Op String PortId)) (s : Process) : Prop where
  honest : Honest ops
  slots : ∀ name, latest ops name = s.registry.lookup name

/-- Nothing is left in the registry for a server that listens. -/
structure Agrees (l : Ledger) (s : Process) : Prop extends Files l.ops s where
  unnamed : s.registry.lookup "" = none
  drained : ∀ i, ∀ name ∈ l.address i, s.registry.lookup name = none
  fits : ∀ i, Fits (s.face i) (l.address i)

theorem face_eq (hi : s.servers[i]? = some server) :
    s.face i = some (server.name, server.listening) := by
  rw [Process.face, hi, Option.map_some]

theorem face_setServer (hi : s.servers[i]? = some server) (server' : Server) :
    (s.setServer i server').face i = some (server'.name, server'.listening) := by
  have hlt : i < s.servers.length := (List.getElem?_eq_some_iff.mp hi).1
  exact face_eq (List.getElem?_set_self hlt)

theorem face_setServer_ne (hj : j ≠ i) (server' : Server) :
    (s.setServer j server').face i = s.face i := by
  simp only [Process.face, Process.setServer, List.getElem?_set_ne hj]

/-- A server changes its pending ports only. -/
theorem face_setServer_pending (hi : s.servers[i]? = some server) (pending : List PortId) (j : ℕ) :
    (s.setServer i { server with pending }).face j = s.face j := by
  by_cases hj : i = j
  · subst hj
    rw [face_setServer hi, face_eq hi]
  · exact face_setServer_ne hj _

theorem face_onPublished (hi : s.servers[i]? = some server) (name : String) (j : ℕ) :
    (s.onPublished name i server).face j = s.face j := by
  unfold Process.onPublished Process.take
  split_ifs
  · rfl
  · cases s.registry.lookup name with
    | none => rfl
    | some port => exact face_setServer_pending hi (server.pending ++ [port]) j

theorem onPublished_of_not (h : ¬ (server.listening = true ∧ name = server.name)) :
    s.onPublished name i server = s := by
  unfold Process.onPublished
  rw [if_pos]
  cases hlistening : server.listening with
  | false => rfl
  | true => exact decide_eq_true fun hname => h ⟨hlistening, hname⟩

/-- A server that listens on the name takes what is published under it. -/
theorem onPublished_of_listening (hi : s.servers[i]? = some server)
    (hlistening : server.listening = true) :
    (s.onPublished server.name i server).registry = s.registry.erase server.name ∧
      (s.onPublished server.name i server).pendingOf i =
        s.pendingOf i ++ (s.registry.lookup server.name).toList := by
  unfold Process.onPublished Process.take
  rw [if_neg (by simp [hlistening]), pendingOf_eq hi]
  cases hlookup : s.registry.lookup server.name with
  | none => exact ⟨(Stock.erase_of_lookup_none hlookup).symm, by simp [pendingOf_eq hi]⟩
  | some port =>
      have hpending := pendingOf_setServer (s := s.withdraw server.name) hi
        { server with pending := server.pending ++ [port] }
      exact ⟨rfl, hpending⟩

theorem Files.of_registry {ops : List (Op String PortId)} (h : Files ops s)
    (hregistry : s'.registry = s.registry) : Files ops s' :=
  ⟨h.honest, by rw [hregistry]; exact h.slots⟩

theorem Files.asked {ops : List (Op String PortId)} {got : List PortId} (h : Files ops s)
    (hgot : got = (s.registry.lookup name).toList)
    (hregistry : s'.registry = s.registry.erase name) : Files (ops ++ [.asked name got]) s' := by
  have hlatest : got = (latest ops name).toList := by rw [hgot, h.slots]
  refine ⟨honest_asked.mpr ⟨h.honest, hlatest⟩, fun n => ?_⟩
  rw [latest_asked hlatest, hregistry]
  by_cases hn : n = name
  · subst hn
    rw [Function.update_self, AList.lookup_erase]
  · rw [Function.update_of_ne hn, h.slots, AList.lookup_erase_ne hn]

theorem Files.asked_none {ops : List (Op String PortId)} (h : Files ops s)
    (hnone : s.registry.lookup name = none) : Files (ops ++ [.asked name []]) s :=
  h.asked (by simp [hnone]) (Stock.erase_of_lookup_none hnone).symm

theorem lookup_erase_none {n : String} (h : s.registry.lookup n = none) (name : String) :
    (s.registry.erase name).lookup n = none := by
  by_cases hn : n = name
  · subst hn
    exact AList.lookup_erase n s.registry
  · rw [AList.lookup_erase_ne hn, h]

/-- What a server that listens on `address` is given between two states. -/
def answered (address : Option String) (i : ℕ) (s s' : Process) : List (Op String PortId) :=
  address.toList.map fun name => .asked name ((s'.pendingOf i).drop (s.pendingOf i).length)

/-- What a server is given when a port is published, if nothing else is left for it. -/
theorem Files.onPublished {ops : List (Op String PortId)} {address : Option String}
    (h : Files ops s) (hi : s.servers[i]? = some server) (hfits : Fits (s.face i) address)
    (hname : name ≠ "") (hdrained : ∀ n ∈ address, n ≠ name → s.registry.lookup n = none) :
    Files (ops ++ answered address i s (s.onPublished name i server))
      (s.onPublished name i server) ∧
    (∀ n ∈ address, (s.onPublished name i server).registry.lookup n = none) ∧
    ∀ n, s.registry.lookup n = none → (s.onPublished name i server).registry.lookup n = none := by
  rw [face_eq hi] at hfits
  cases address with
  | none =>
      rw [onPublished_of_not fun hon => by simp [hon.1, Fits] at hfits]
      exact ⟨by simpa [answered] using h, by simp, fun _ => id⟩
  | some n =>
      obtain ⟨rfl, hlistening⟩ := hfits
      by_cases hn : server.name = name
      · subst hn
        obtain ⟨hregistry, hpending⟩ := onPublished_of_listening hi (hlistening hname)
        refine ⟨h.asked ?_ hregistry, ?_, fun n hnone => ?_⟩
        · rw [hpending, List.drop_left]
        · simp [hregistry]
        · rw [hregistry]
          exact lookup_erase_none hnone _
      · have hnone := hdrained server.name rfl hn
        rw [onPublished_of_not fun hon => hn hon.2.symm]
        refine ⟨?_, by simpa using hnone, fun _ => id⟩
        simpa [answered] using h.asked_none hnone

/-- The servers from the `j`-th on are asked one after another. -/
theorem Files.emitPublished {ops : List (Op String PortId)} {address : ℕ → Option String}
    {servers : List Server} (h : Files ops s)
    (hservers : ∀ k server, servers[k]? = some server → s.servers[j + k]? = some server)
    (hfits : ∀ i, Fits (s.face i) (address i)) (hname : name ≠ "")
    (hdrained : ∀ i, ∀ n ∈ address i, n ≠ name → s.registry.lookup n = none) :
    Files (ops ++ (List.range' j servers.length).flatMap fun i =>
      answered (address i) i s (s.emitPublished name j servers)) (s.emitPublished name j servers) ∧
    (∀ i, (s.emitPublished name j servers).face i = s.face i) ∧
    (∀ n, s.registry.lookup n = none →
      (s.emitPublished name j servers).registry.lookup n = none) ∧
    ∀ k < servers.length, ∀ n ∈ address (j + k),
      (s.emitPublished name j servers).registry.lookup n = none := by
  induction servers generalizing j s ops with
  | nil =>
      have hnil : ops ++ [] = ops := List.append_nil ops
      refine ⟨?_, fun _ => rfl, fun _ => id, by simp⟩
      rw [List.length_nil, List.range'_zero, List.flatMap_nil, hnil]
      exact h
  | cons server servers ih =>
      have hj : s.servers[j]? = some server := hservers 0 server rfl
      obtain ⟨hfiles, hself, hkept⟩ := h.onPublished hj (hfits j) hname (hdrained j)
      have hface := face_onPublished hj name
      obtain ⟨hrest, hfaces, hrestKept, hothers⟩ := ih (j := j + 1) hfiles
        (fun k server' hk => by
          rw [getElem?_onPublished (by omega), Nat.add_right_comm]
          exact hservers (k + 1) server' hk)
        (fun i => by rw [hface]; exact hfits i)
        (fun i n hn hne => hkept n (hdrained i n hn hne))
      refine ⟨?_, fun i => (hfaces i).trans (hface i), fun n hn => hrestKept n (hkept n hn), ?_⟩
      · -- the others neither see nor change what is pending at the `j`-th
        have hself : answered (address j) j s (s.emitPublished name j (server :: servers)) =
            answered (address j) j s (s.onPublished name j server) := by
          have hpending : (s.emitPublished name j (server :: servers)).pendingOf j =
              (s.onPublished name j server).pendingOf j :=
            congrArg Prod.fst (room_emitPublished (Nat.lt_succ_self j))
          rw [answered, hpending]
          rfl
        have hothers : ∀ i ∈ List.range' (j + 1) servers.length,
            answered (address i) i s (s.emitPublished name j (server :: servers)) =
              answered (address i) i (s.onPublished name j server)
                (s.emitPublished name j (server :: servers)) := by
          intro i hi
          have hlt := (List.mem_range'_1.mp hi).1
          have hpending : (s.onPublished name j server).pendingOf i = s.pendingOf i :=
            congrArg Prod.fst (room_onPublished_ne (by omega))
          rw [answered, answered, hpending]
        rw [List.length_cons, List.range'_succ, List.flatMap_cons, hself,
          List.flatMap_congr hothers, ← List.append_assoc]
        exact hrest
      · intro k hk n hn
        cases k with
        | zero => exact hrestKept n (hself n hn)
        | succ k =>
            have hk' : k < servers.length := Nat.lt_of_succ_lt_succ hk
            rw [← Nat.add_assoc, Nat.add_right_comm] at hn
            exact hothers k hk' n hn

/-! ### Every step -/

theorem Agrees.of_same (h : Agrees l s) (hregistry : s'.registry = s.registry)
    (hface : ∀ i, s'.face i = s.face i) : Agrees l s' where
  honest := h.honest
  slots := by rw [hregistry]; exact h.slots
  unnamed := by rw [hregistry]; exact h.unnamed
  drained := by rw [hregistry]; exact h.drained
  fits i := by rw [hface]; exact h.fits i

theorem Spares.face (h : Spares s s') (i : ℕ) : s'.face i = s.face i := by
  rw [Process.face, Process.face, h.servers]

theorem Agrees.of_spares (h : Agrees l s) (hspares : Spares s s') : Agrees l s' :=
  h.of_same hspares.registry hspares.face

/-- A client asks, and the servers that listen are left as they are. -/
theorem Agrees.asked {got : List PortId} (h : Agrees l s)
    (hgot : got = (s.registry.lookup name).toList)
    (hregistry : s'.registry = s.registry.erase name) (hface : ∀ i, s'.face i = s.face i) :
    Agrees { l with ops := l.ops ++ [.asked name got] } s' where
  toFiles := h.toFiles.asked hgot hregistry
  unnamed := by rw [hregistry]; exact lookup_erase_none h.unnamed name
  drained i n hn := by rw [hregistry]; exact lookup_erase_none (h.drained i n hn) name
  fits i := by rw [hface]; exact h.fits i

/-- An address belongs to a server. -/
theorem Agrees.lt (h : Agrees l s) (hname : name ∈ l.address i) : i < s.servers.length := by
  by_contra hge
  have hfits := h.fits i
  rw [Process.face, List.getElem?_eq_none (by omega), hname] at hfits
  cases hfits

theorem Agrees.publish (h : Agrees l s) (hname : name ≠ "") (port : PortId) :
    Agrees { l with
      ops := l.ops ++ [.put name port] ++ (List.range s.servers.length).flatMap fun i =>
        answered (l.address i) i s (s.publish name port) } (s.publish name port) := by
  have hlookup : ∀ n ≠ name, (s.registry.insert name port).lookup n = s.registry.lookup n :=
    fun n hn => AList.lookup_insert_ne hn
  have hput : Files (l.ops ++ [.put name port])
      { s with registry := s.registry.insert name port } := by
    refine ⟨honest_put.mpr h.honest, fun n => ?_⟩
    rw [latest_snoc, Op.apply]
    by_cases hn : n = name
    · subst hn
      rw [Function.update_self]
      exact (AList.lookup_insert s.registry).symm
    · rw [Function.update_of_ne hn, h.slots]
      exact (hlookup n hn).symm
  have hservers : ∀ k server, s.servers[k]? = some server → s.servers[0 + k]? = some server := by
    intro k server hk
    rwa [Nat.zero_add]
  obtain ⟨hfiles, hface, hkept, hothers⟩ := hput.emitPublished hservers h.fits hname
    (fun i n hn hne => (hlookup n hne).trans (h.drained i n hn))
  rw [List.range_eq_range', Process.publish, if_neg hname]
  refine ⟨hfiles, hkept "" ((hlookup "" hname.symm).trans h.unnamed), fun i n hn => ?_,
    fun i => ?_⟩
  · by_cases hne : n = name
    · have hempty := hothers i (h.lt hn) n
      rw [Nat.zero_add] at hempty
      exact hempty hn
    · exact hkept n ((hlookup n hne).trans (h.drained i n hn))
  · rw [hface]
    exact h.fits i

theorem Agrees.withdraw (h : Agrees l s) (name : String) :
    Agrees { l with ops := l.ops ++ [.clear name] } (s.withdraw name) where
  honest := honest_clear.mpr h.honest
  slots n := by
    rw [latest_snoc, Op.apply, Process.withdraw]
    by_cases hn : n = name
    · subst hn
      rw [Function.update_self, AList.lookup_erase]
    · rw [Function.update_of_ne hn, h.slots, AList.lookup_erase_ne hn]
  unnamed := lookup_erase_none h.unnamed name
  drained i n hn := lookup_erase_none (h.drained i n hn) name
  fits := h.fits

theorem Agrees.connectToServer {c : ℕ} (h : Agrees l s)
    (hurl : portNameOf (s.clients c).url = (s.clients c).url) :
    Agrees (l.enter ⟨s, .connectToServer c, (s.connectToServer c).2, (s.connectToServer c).1⟩)
      (s.connectToServer c).1 := by
  obtain ⟨hopen, he⟩ | ⟨hopen, hlookup, s', ⟨-, hspares⟩, he⟩ |
    ⟨hopen, port, s', ⟨-, hspares⟩, hlookup, he⟩ := connectToServer_cases c s
  · simpa [he, Ledger.enter, hopen] using h
  · rw [hurl] at hlookup
    have hnone := Stock.erase_of_lookup_none hlookup
    have hasked : Agrees { l with ops := l.ops ++ [.asked (s.clients c).url []] } s' :=
      h.asked (by simp [hlookup]) (hspares.registry.trans hnone.symm) hspares.face
    simp only [he, Ledger.enter, hopen, Bool.false_eq_true, if_false]
    exact hasked
  · rw [hurl] at hlookup hspares
    have hasked : Agrees { l with ops := l.ops ++ [.asked (s.clients c).url [port]] } s' :=
      h.asked (by simp [hlookup]) hspares.registry hspares.face
    have hattached : Agrees { l with ops := l.ops ++ [.asked (s.clients c).url [port]] }
        (s.connectToServer c).1 :=
      hasked.of_same (by rw [he]; rfl) fun i => by rw [he]; rfl
    simpa [he, Ledger.enter, hopen, handedToClient, Process.attach] using hattached

/-- The server `i` listens on an address, or on none any more. -/
theorem Agrees.bound {address : Option String} {ops : List (Op String PortId)} (h : Agrees l s)
    (hops : Files ops s') (hkept : ∀ n, s.registry.lookup n = none → s'.registry.lookup n = none)
    (hdrained : ∀ n ∈ address, s'.registry.lookup n = none)
    (hothers : ∀ j, i ≠ j → s'.face j = s.face j) (hself : Fits (s'.face i) address) :
    Agrees ⟨Function.update l.address i address, ops⟩ s' where
  toFiles := hops
  unnamed := hkept "" h.unnamed
  drained j n hn := by
    dsimp only at hn
    by_cases hj : j = i
    · subst hj
      rw [Function.update_self] at hn
      exact hdrained n hn
    · rw [Function.update_of_ne hj] at hn
      exact hkept n (h.drained j n hn)
  fits j := by
    dsimp only
    by_cases hj : j = i
    · subst hj
      rw [Function.update_self]
      exact hself
    · rw [Function.update_of_ne hj, hothers j (Ne.symm hj)]
      exact h.fits j

theorem Agrees.listen {address : String} (h : Agrees l s) (hi : s.servers[i]? = some server)
    (haddress : portNameOf address = address) :
    Agrees (l.enter ⟨s, .listen i address, [], s.listen i address server⟩)
      (s.listen i address server) := by
  have hlt : i < s.servers.length := (List.getElem?_eq_some_iff.mp hi).1
  unfold Process.listen
  rw [haddress]
  by_cases hempty : address = ""
  · subst hempty
    have hpending := (pendingOf_setServer hi { server with name := "" }).trans
      (pendingOf_eq hi).symm
    have hgrown : grown i ⟨s, .listen i "", [], s.setServer i { server with name := "" }⟩ = [] := by
      simp [grown, hpending]
    have hasked : Files (l.ops ++ [.asked "" []]) (s.setServer i { server with name := "" }) :=
      (h.toFiles.asked_none h.unnamed).of_registry rfl
    rw [← hgrown] at hasked
    refine h.bound hasked (fun _ => id) ?_ (fun j hj => face_setServer_ne hj _) ?_
    · rintro n ⟨⟩
      exact h.unnamed
    · rw [if_pos rfl, face_setServer hi]
      exact ⟨rfl, absurd rfl⟩
  · -- the server asks as soon as it listens
    dsimp only
    rw [if_neg hempty]
    set server' : Server := { server with name := address, listening := true }
    have hi' : (s.setServer i server').servers[i]? = some server' := List.getElem?_set_self hlt
    obtain ⟨hregistry, hpending⟩ := onPublished_of_listening hi' rfl
    have hface := face_onPublished hi' address
    rw [pendingOf_setServer hi, ← pendingOf_eq hi] at hpending
    have hgrown := grown_append (m := ⟨s, .listen i address, [], _⟩) hpending
    have hasked := h.toFiles.asked hgrown hregistry
    refine h.bound hasked (fun n hn => ?_) ?_ (fun j hj => ?_) ?_
    · rw [hregistry]
      exact lookup_erase_none hn _
    · rintro n ⟨⟩
      rw [hregistry]
      exact AList.lookup_erase ..
    · rw [hface, face_setServer_ne hj]
    · rw [hface, face_setServer hi]
      exact ⟨rfl, fun _ => rfl⟩

theorem Agrees.closeServer (h : Agrees l s) (hi : s.servers[i]? = some server) :
    Agrees (l.enter ⟨s, .closeServer i, [], s.closeServer i server⟩) (s.closeServer i server) := by
  refine h.bound (h.toFiles.of_registry rfl) (fun _ => id) (by simp)
    (fun j hj => face_setServer_ne hj _) ?_
  rw [Process.closeServer, face_setServer hi]
  rfl

theorem Agrees.createServer (h : Agrees l s) :
    Agrees l { s with servers := s.servers ++ [{}] } where
  toFiles := h.toFiles.of_registry rfl
  unnamed := h.unnamed
  drained := h.drained
  fits i := by
    have hfits := h.fits i
    rw [Process.face] at hfits ⊢
    obtain hlt | rfl | hgt := Nat.lt_trichotomy i s.servers.length
    · rwa [List.getElem?_append_left hlt]
    · rw [List.getElem?_eq_none (Nat.le_refl _)] at hfits
      rw [List.getElem?_concat_length, hfits]
      rfl
    · rw [List.getElem?_eq_none (by omega)] at hfits
      rwa [List.getElem?_eq_none (by rw [List.length_append]; exact hgt)]

theorem turn_servers (s : Process) : s.turn.1.servers = s.servers := by
  unfold Process.turn
  cases s.queue with
  | nil => rfl
  | cons event queue =>
      cases event with
      | closePeer port => exact (spares_closePort port.peer { s with queue }).servers
      | newConnection i => rfl
      | deleteDevice d => rfl

/-- A step keeps the ledger honest as long as only names that mean themselves are asked for. -/
theorem Agrees.step {a : Action} {os : List Obs} {h : History} (hl : Agrees l s)
    (hasks : Asks (¬ Slashed ·) h s a) (hs : step s a = some (s', os)) :
    Agrees (l.enter ⟨s, a, os, s'⟩) s' := by
  cases step_cases hs with
  | publish name port =>
      by_cases hname : name = ""
      · simpa [Ledger.enter, Process.publish, hname] using hl
      · have hpublish := hl.publish hname port
        simp only [Ledger.enter, if_neg hname]
        exact hpublish
  | withdraw name => exact hl.withdraw name
  | closePort port => exact hl.of_spares (spares_closePort port s)
  | turn =>
      refine hl.of_same (turn_registry s) fun i => ?_
      rw [Process.face, Process.face, turn_servers]
  | connectToServer c => exact hl.connectToServer ((portNameOf_eq_iff _).mpr hasks)
  | disconnectFromServer c => exact hl.of_spares (spares_disconnectFromServer c s)
  | createServer => exact hl.createServer
  | listen i address server hi =>
      exact hl.listen hi ((portNameOf_eq_iff address).mpr hasks)
  | closeServer i server hi => exact hl.closeServer hi
  | configureNewConnection i server hi =>
      unfold Process.configureNewConnection
      cases server.pending with
      | nil => exact hl
      | cons port pending => exact hl.of_same rfl (face_setServer_pending hi pending)
  | closeIo d => exact hl.of_spares (spares_closeIo d s)

/-! ### Runs -/

theorem Asks.mono {N N' : String → Prop} (hN : ∀ name, N name → N' name) {h : History} {a : Action}
    (hasks : Asks N h s a) : Asks N' h s a := by
  cases a with
  | connectToServer c => exact hN _ hasks
  | listen i address => exact hN _ hasks
  | _ => trivial

theorem run_agrees {url : ℕ → String} {h : History}
    (hrun : (machine url).shown.Run (Asks (¬ Slashed ·)) h s) : Agrees (ledger h) s := by
  have hinit : Agrees (ledger []) (machine url).init :=
    ⟨⟨honest_nil, fun _ => rfl⟩, rfl, by simp [ledger], fun _ => rfl⟩
  refine hrun.invariant (I := fun h s => Agrees (ledger h) s) hinit
    fun {_ _ _ _ _} hl hasks hs => ?_
  obtain ⟨os, hos, rfl⟩ := Machine.shown_step.mp hs
  rw [ledger_snoc]
  exact hl.step hasks hos

/-- What is published under a name that begins with a slash is not found there. -/
theorem slashed_not_found (hslashed : Slashed name) (port : PortId) :
    ∃ h s, (machine fun _ => name).shown.Run (Asks (· = name)) h s ∧
      (ledger h).ops = [.put name port] ++ [.asked name []] := by
  have hne : portNameOf name ≠ name := fun he => (portNameOf_eq_iff name).mp he hslashed
  have hname : name ≠ "" := by
    rintro rfl
    cases hslashed
  set M := machine fun _ => name
  let s : Process := { M.init with registry := AList.insert name port ∅ }
  have hpublish : M.step M.init (.publish name port) = some (s, []) := by
    show some (M.init.publish name port, []) = _
    rw [Process.publish, if_neg hname]
    rfl
  have hnone : s.registry.lookup (portNameOf name) = none := AList.lookup_insert_ne hne
  obtain ⟨s', hconnect⟩ :
      ∃ s', M.step s (.connectToServer 0) = some (s', [.shouldReconnect 0]) := by
    obtain ⟨hopen, -⟩ | ⟨-, -, s', -, he⟩ | ⟨-, port, -, -, hport, -⟩ := connectToServer_cases 0 s
    · cases hopen
    · exact ⟨s', congrArg some he⟩
    · exact absurd (hnone.symm.trans hport) (by simp)
  have hfirst : M.shown.Run (Asks (· = name)) [⟨M.init, .publish name port, [], s⟩] s :=
    .step (a := Action.publish name port) .start trivial
      (Machine.shown_step.mpr ⟨_, hpublish, rfl⟩)
  have hsecond := hfirst.step (a := Action.connectToServer 0) rfl
    (Machine.shown_step.mpr ⟨_, hconnect, rfl⟩)
  refine ⟨_, _, hsecond, ?_⟩
  have hpublished : (ledger [⟨M.init, .publish name port, [], s⟩]).ops = [.put name port] := by
    simp only [ledger, List.foldl_cons, List.foldl_nil, Ledger.enter, if_neg hname]
    rfl
  rw [ledger_snoc, ← hpublished]
  rfl

/-- **A port name means that name**: in every run in which only names in `N` are connected to and
listened on, everyone receives exactly the port that was published last under the name that was
asked for and not taken or withdrawn since, if and only if no name in `N` begins with a slash. -/
theorem mean_themselves_iff (N : String → Prop) :
    (∀ url h s, (machine url).shown.Run (Asks N) h s → Honest (ledger h).ops) ↔
      ∀ name, N name → ¬ Slashed name := by
  constructor
  · intro hhonest name hN hslashed
    obtain ⟨h, s, hrun, hops⟩ := slashed_not_found hslashed (0, .b)
    have hasked := hhonest _ h s (hrun.mono fun _ _ _ => Asks.mono fun n hn => hn ▸ hN)
    rw [hops, honest_asked] at hasked
    simp [latest, Op.apply] at hasked
  · intro hN url h s hrun
    exact (run_agrees (hrun.mono fun _ _ _ => Asks.mono hN)).honest

/-- A client takes the port that replaced another one, and a server one that was there before it and
one that came after. -/
theorem names_without_slashes :
    ∃ h s, (machine fun _ => "runtime").shown.Run (Asks (¬ Slashed ·)) h s ∧
      Honest (ledger h).ops ∧
      (ledger h).ops = [.put "runtime" (0, .b), .put "runtime" (1, .b), .put "backend" (2, .b),
        .asked "runtime" [(1, .b)], .asked "backend" [(2, .b)], .put "backend" (3, .b),
        .asked "backend" [(3, .b)], .put "runtime" (4, .b), .asked "backend" [], .clear "runtime",
        .asked "runtime" []] := by
  have hrun := Machine.exec_run (M := (machine fun _ => "runtime").shown)
    (G := Asks (¬ Slashed ·))
    [.publish "runtime" (0, .b), .publish "runtime" (1, .b), .publish "backend" (2, .b),
      .connectToServer 0, .createServer, .listen 0 "backend", .publish "backend" (3, .b),
      .publish "runtime" (4, .b), .withdraw "runtime", .disconnectFromServer 0, .connectToServer 0]
    rfl
  exact ⟨_, _, hrun, (mean_themselves_iff (¬ Slashed ·)).mpr (fun _ => id) _ _ _ hrun, rfl⟩

/-- A client of `/runtime` does not find what was published under that name, and takes what was
published under `runtime`. -/
theorem slashed_finds_another :
    ∃ h s, (machine fun _ => "/runtime").shown.Run Machine.always h s ∧
      ¬ Honest (ledger h).ops := by
  obtain ⟨h, s, hrun, hops⟩ := Machine.exec_any (M := (machine fun _ => "/runtime").shown)
    (G := Machine.always)
    [.publish "/runtime" (0, .b), .connectToServer 0, .publish "runtime" (1, .b),
      .connectToServer 0]
    (p := fun h _ => (ledger h).ops = [.put "/runtime" (0, .b), .asked "/runtime" [],
      .put "runtime" (1, .b)] ++ [.asked "/runtime" [(1, .b)]]) (by decide +kernel)
  refine ⟨h, s, hrun, fun hhonest => ?_⟩
  rw [hops, honest_asked] at hhonest
  exact absurd hhonest.2 (by decide)

end LogosViewRuntime.PortTransport
