import LogosViewRuntime.EventSubscriptions
import Mathlib.Data.List.Perm.Basic

/-! # Subscriptions that have not armed

`pendingEventSubscriptions` asks the client of each module that has a subscription on record, and
each once.  What it lists is what waits in these modules.

* `pending` is what `LogosAPIClient` says of a module: `<module>::<event>` for each subscription it
  tracks there that has not armed, in some order.
* A late `armed(false)` can take a module off the record whose subscription still waits; the list is
  complete unless this happens (`pending_events_listed`). -/

namespace LogosViewRuntime.ModuleEvents

open Reactive

def Subscription.label (sub : Subscription) : String := sub.module ++ "::" ++ sub.event

/-- The subscriptions that have not armed. -/
def Client.waiting (client : Client) : List Subscription :=
  client.tracked.filter fun sub => !sub.armed

/-- The loop of `pendingEventSubscriptions` over the keys of the record. -/
def collect (getClient : String → Bool) (pending : String → List String) :
    List (String × String) → List String → List String → List String
  | [], _, out => out
  | (module, _) :: keys, seen, out =>
      if seen.contains module then collect getClient pending keys seen out
      else
        let seen := module :: seen
        if getClient module then collect getClient pending keys seen (out ++ pending module)
        else collect getClient pending keys seen out

/-- `keys` is the order in which the hash hands out its keys. -/
def Bridge.pendingEventSubscriptions (getClient : String → Bool)
    (pending : Client → String → List String) (keys : List (String × String)) (s : Bridge) :
    List String :=
  if !s.logosAPI then [] else collect getClient (pending s.client) keys [] []

/-- A subscription to some event of the module is on record. -/
def Bridge.Knows (module : String) (s : Bridge) : Prop :=
  ∃ event, (module, event) ∈ s.eventSubscriptions

instance (module : String) (s : Bridge) : Decidable (s.Knows module) :=
  decidable_of_iff (∃ key ∈ s.eventSubscriptions.keys, key.1 = module) (by
    constructor
    · rintro ⟨⟨_, event⟩, hmem, rfl⟩
      exact ⟨event, hmem⟩
    · rintro ⟨event, hmem⟩
      exact ⟨(module, event), hmem, rfl⟩)

/-- What the clients are asked to tell. -/
def Reports (pending : Client → String → List String) : Prop :=
  ∀ client module, (pending client module).Perm
    ((client.waiting.filter (·.module = module)).map Subscription.label)

variable {getClient : String → Bool} {pending : Client → String → List String} {logosAPI : Bool}
  {tr os : List Obs} {s s' : Bridge} {keys : List (String × String)}

/-! ### Each module is asked once -/

/-- The modules that are asked, in order. -/
def asked : List (String × String) → List String → List String
  | [], _ => []
  | (module, _) :: keys, seen =>
      if seen.contains module then asked keys seen else module :: asked keys (module :: seen)

theorem collect_eq (report : String → List String) : ∀ (keys : List (String × String))
    (seen out : List String), collect getClient report keys seen out =
      out ++ ((asked keys seen).filter fun module => getClient module).flatMap report
  | [], seen, out => by simp [collect, asked]
  | (module, event) :: keys, seen, out => by
      rw [collect, asked]
      split_ifs with hseen hclient
      · exact collect_eq report keys seen out
      · rw [collect_eq report keys (module :: seen), List.filter_cons_of_pos hclient,
          List.flatMap_cons, List.append_assoc]
      · rw [collect_eq report keys (module :: seen), List.filter_cons_of_neg hclient]

theorem mem_asked {module : String} : ∀ {keys : List (String × String)} {seen : List String},
    module ∈ asked keys seen ↔ module ∉ seen ∧ ∃ event, (module, event) ∈ keys
  | [], seen => by simp [asked]
  | (first, event) :: keys, seen => by
      rw [asked]
      split_ifs with hseen
      · rw [mem_asked]
        constructor
        · rintro ⟨hnot, event', hmem⟩
          exact ⟨hnot, event', List.mem_cons_of_mem _ hmem⟩
        · rintro ⟨hnot, event', hmem⟩
          obtain he | hmem := List.mem_cons.mp hmem
          · obtain ⟨rfl, -⟩ := Prod.mk.inj he
            exact absurd (List.contains_iff_mem.mp hseen) hnot
          · exact ⟨hnot, event', hmem⟩
      · rw [List.mem_cons, mem_asked]
        constructor
        · rintro (rfl | ⟨hnot, event', hmem⟩)
          · exact ⟨fun hmem => hseen (List.contains_iff_mem.mpr hmem), event, List.mem_cons_self⟩
          · exact ⟨fun hmem => hnot (List.mem_cons_of_mem _ hmem), event',
              List.mem_cons_of_mem _ hmem⟩
        · rintro ⟨hnot, event', hmem⟩
          by_cases he : module = first
          · exact .inl he
          · obtain hpair | hmem := List.mem_cons.mp hmem
            · exact absurd (Prod.mk.inj hpair).1 he
            · exact .inr ⟨by simp [he, hnot], event', hmem⟩

theorem nodup_asked : ∀ (keys : List (String × String)) (seen : List String),
    (asked keys seen).Nodup
  | [], seen => List.nodup_nil
  | (first, event) :: keys, seen => by
      rw [asked]
      split_ifs
      · exact nodup_asked keys seen
      · refine List.nodup_cons.mpr ⟨fun hmem => ?_, nodup_asked keys _⟩
        exact (mem_asked.mp hmem).1 List.mem_cons_self

/-- What is gathered module by module is what is there of these modules. -/
theorem gathered (subs : List Subscription) : ∀ {modules : List String}, modules.Nodup →
    (modules.flatMap fun module => subs.filter (·.module = module)).Perm
      (subs.filter fun sub => decide (sub.module ∈ modules))
  | [], _ => by simp
  | module :: modules, h => by
      obtain ⟨hnot, hnodup⟩ := List.nodup_cons.mp h
      have hsplit := List.filter_append_perm (fun sub => decide (sub.module = module))
        (subs.filter fun sub => decide (sub.module ∈ module :: modules))
      have hfirst : (subs.filter fun sub => decide (sub.module ∈ module :: modules)).filter
          (fun sub => decide (sub.module = module)) = subs.filter (·.module = module) := by
        rw [List.filter_filter]
        refine List.filter_congr fun sub _ => ?_
        by_cases he : sub.module = module <;> simp [he]
      have hrest : (subs.filter fun sub => decide (sub.module ∈ module :: modules)).filter
          (fun sub => !decide (sub.module = module)) =
            subs.filter fun sub => decide (sub.module ∈ modules) := by
        rw [List.filter_filter]
        refine List.filter_congr fun sub _ => ?_
        by_cases he : sub.module = module
        · simp [he, hnot]
        · simp [he]
      rw [hfirst, hrest] at hsplit
      rw [List.flatMap_cons]
      exact ((gathered subs hnodup).append_left _).trans hsplit

/-! ### Modules on record have clients -/

structure Served (getClient : String → Bool) (s : Bridge) : Prop where
  record : ∀ key ∈ s.eventSubscriptions, s.logosAPI = true ∧ getClient key.1 = true
  calling : ∀ sub ∈ s.calling, s.logosAPI = true ∧ getClient sub.module = true

theorem Served.onModuleEvent (h : Served getClient s) (module event : String) (id : ℕ) :
    Served getClient (s.onModuleEvent getClient module event id).1 := by
  obtain ⟨-, he⟩ | ⟨known, -, -, he⟩ | ⟨haccepts, -, he⟩ :=
    onModuleEvent_cases getClient module event id s
  · rwa [he]
  · rwa [he]
  · have hrecord : ∀ key ∈ s.eventSubscriptions.erase (module, event),
        s.logosAPI = true ∧ getClient key.1 = true := by
      intro key hkey
      exact h.record key (AList.mem_erase.mp hkey).2
    rw [he, Bridge.subscribe]
    split_ifs
    · exact ⟨hrecord, h.calling⟩
    · refine ⟨hrecord, fun sub hsub => ?_⟩
      obtain rfl := Option.some.inj hsub
      exact ⟨haccepts.1, haccepts.2.2.2.2⟩

theorem Served.step {a : Action} (h : Served getClient s)
    (hs : step getClient s a = some (s', os)) : Served getClient s' := by
  cases a with
  | onModuleEvent module event id =>
      obtain ⟨-, rfl, -⟩ := Machine.taken_unless hs
      exact h.onModuleEvent module event id
  | subscribed =>
      obtain ⟨sub, hcalling, he⟩ := Option.map_eq_some_iff.mp hs
      obtain ⟨rfl, -⟩ := Prod.mk.inj he
      refine ⟨fun key hkey => ?_, by simp⟩
      obtain rfl | hkey := (AList.mem_insert _).mp hkey
      · exact h.calling sub hcalling
      · exact h.record key hkey
  | arm module id =>
      obtain ⟨rfl, -⟩ := Prod.mk.inj (Option.some.inj hs)
      exact ⟨h.record, h.calling⟩
  | drop sub =>
      obtain ⟨-, rfl, -⟩ := Machine.taken_if hs
      exact ⟨h.record, h.calling⟩
  | abandoned sub =>
      obtain ⟨-, rfl, -⟩ := Machine.taken_if hs
      exact ⟨fun key hkey => h.record key (AList.mem_erase.mp hkey).2, h.calling⟩
  | event module event data =>
      obtain ⟨rfl, -⟩ := Prod.mk.inj (Option.some.inj hs)
      exact h
  | setViewModuleSocket module =>
      obtain ⟨rfl, -⟩ := Prod.mk.inj (Option.some.inj hs)
      exact ⟨h.record, h.calling⟩

theorem run_served {G : List Obs → Bridge → Action → Prop}
    (h : (machine getClient logosAPI).Run G tr s) : Served getClient s :=
  h.invariant (I := fun _ => Served getClient) ⟨by simp [machine], by simp [machine]⟩
    fun hi _ hs => hi.step hs

/-! ### The list -/

/-- What waits in the modules that are on record. -/
def Bridge.waitingKnown (s : Bridge) : List Subscription :=
  s.client.waiting.filter fun sub => decide (s.Knows sub.module)

theorem listed (hpending : Reports pending) (h : Served getClient s)
    (hkeys : keys.Perm s.eventSubscriptions.keys) :
    (s.pendingEventSubscriptions getClient pending keys).Perm
      (s.waitingKnown.map Subscription.label) := by
  have hmem : ∀ module, module ∈ asked keys [] ↔ s.Knows module := by
    intro module
    rw [mem_asked, and_iff_right List.not_mem_nil]
    exact exists_congr fun event => hkeys.mem_iff
  have hasked : (asked keys []).filter (fun module => getClient module) = asked keys [] := by
    refine List.filter_eq_self.mpr fun module hmodule => ?_
    obtain ⟨event, hrecord⟩ := (hmem module).mp hmodule
    exact (h.record _ hrecord).2
  have hknown : s.waitingKnown =
      s.client.waiting.filter fun sub => decide (sub.module ∈ asked keys []) := by
    refine List.filter_congr fun sub _ => ?_
    rw [decide_eq_decide]
    exact (hmem sub.module).symm
  cases hapi : s.logosAPI with
  | false =>
      have hnone : s.waitingKnown = [] := by
        refine List.filter_eq_nil_iff.mpr fun sub _ hsub => ?_
        obtain ⟨event, hrecord⟩ := of_decide_eq_true hsub
        exact absurd (h.record _ hrecord).1 (by simp [hapi])
      simp [Bridge.pendingEventSubscriptions, hapi, hnone]
  | true =>
      have hlist : s.pendingEventSubscriptions getClient pending keys =
          (asked keys []).flatMap (pending s.client) := by
        simp [Bridge.pendingEventSubscriptions, hapi, collect_eq, hasked]
      rw [hlist, hknown]
      have hreports : ((asked keys []).flatMap (pending s.client)).Perm
          ((asked keys []).flatMap fun module =>
            (s.client.waiting.filter (·.module = module)).map Subscription.label) :=
        List.Perm.flatMap_left _ fun module _ => hpending s.client module
      refine hreports.trans ?_
      rw [← List.map_flatMap]
      exact (gathered s.client.waiting (nodup_asked keys [])).map _

/-- All is listed that waits, if every module where something waits is on record. -/
theorem complete_iff (hpending : Reports pending) (h : Served getClient s)
    (hkeys : keys.Perm s.eventSubscriptions.keys) :
    (s.pendingEventSubscriptions getClient pending keys).Perm
      (s.client.waiting.map Subscription.label) ↔ ∀ sub ∈ s.client.waiting, s.Knows sub.module := by
  have hlisted := listed hpending h hkeys
  constructor
  · intro hall
    have hlength := (hlisted.symm.trans hall).length_eq
    rw [List.length_map, List.length_map] at hlength
    intro sub hsub
    exact of_decide_eq_true (List.length_filter_eq_length_iff.mp hlength sub hsub)
  · intro hknown
    have hsame : s.waitingKnown = s.client.waiting :=
      List.filter_eq_self.mpr fun sub hsub => decide_eq_true (hknown sub hsub)
    rwa [hsame] at hlisted

/-- **What is pending.**  The list names each subscription that has not armed in the modules on
record, once for each, however the hash orders the record; it is complete exactly while every
module where one waits is on record.  This is so between any two calls unless an `armed(false)` came
late, and then the list is empty exactly when every subscription is live. -/
theorem pending_events_listed (getClient : String → Bool) (logosAPI : Bool)
    (hpending : Reports pending) :
    (∀ tr s, (machine getClient logosAPI).Run Machine.always tr s →
      ∀ keys, keys.Perm s.eventSubscriptions.keys →
        (s.pendingEventSubscriptions getClient pending keys).Perm
          (s.waitingKnown.map Subscription.label) ∧
        ((s.pendingEventSubscriptions getClient pending keys).Perm
          (s.client.waiting.map Subscription.label) ↔
            ∀ sub ∈ s.client.waiting, s.Knows sub.module)) ∧
    ∀ tr s, (machine getClient logosAPI).Run Timely tr s → s.calling = none →
      ∀ keys, keys.Perm s.eventSubscriptions.keys →
        (s.pendingEventSubscriptions getClient pending keys).Perm
          (s.client.waiting.map Subscription.label) ∧
        (s.pendingEventSubscriptions getClient pending keys = [] ↔
          ∀ sub ∈ s.client.tracked, sub.armed = true) := by
  refine ⟨fun tr s h keys hkeys => ?_, fun tr s h hcalling keys hkeys => ?_⟩
  · have hserved := run_served h
    exact ⟨listed hpending hserved hkeys, complete_iff hpending hserved hkeys⟩
  · have hknown : ∀ sub ∈ s.client.waiting, s.Knows sub.module := by
      intro sub hsub
      have hrecorded := (run_onRecord h).recorded hcalling sub (List.mem_of_mem_filter hsub)
      exact ⟨sub.event, AList.lookup_isSome.mp (Option.isSome_of_eq_some hrecorded)⟩
    have hall := (complete_iff hpending (run_served h) hkeys).mpr hknown
    refine ⟨hall, ?_⟩
    rw [← List.length_eq_zero_iff, hall.length_eq, List.length_map, List.length_eq_zero_iff,
      Client.waiting, List.filter_eq_nil_iff]
    simp

/-- A late `armed(false)` takes the module of a subscription that waits off the record. -/
theorem waits_unlisted : ∃ tr s, (machine (fun _ => true) true).Run Machine.always tr s ∧
    s.client.waiting = [⟨"wallet", "sent", 2, false⟩, ⟨"chat", "message", 3, false⟩] ∧
    (s.pendingEventSubscriptions (fun _ => true)
      (fun client module => (client.waiting.filter (·.module = module)).map Subscription.label)
      [("chat", "message")]).Perm ["chat::message"] ∧ ¬ s.Knows "wallet" := by
  have h := Machine.exec_run (M := machine (fun _ => true) true) (G := Machine.always)
    [.onModuleEvent "wallet" "sent" 1, .subscribed, .drop ⟨"wallet", "sent", 1, false⟩,
      .onModuleEvent "wallet" "sent" 2, .subscribed, .onModuleEvent "chat" "message" 3, .subscribed,
      .abandoned ⟨"wallet", "sent", 1, false⟩] rfl
  have hreports : Reports fun client module =>
      (client.waiting.filter (·.module = module)).map Subscription.label :=
    fun client module => List.Perm.refl _
  have hlisted := ((pending_events_listed (fun _ => true) true hreports).1 _ _ h
    [("chat", "message")] (by decide)).1
  exact ⟨_, _, h, rfl, hlisted, by decide⟩

end LogosViewRuntime.ModuleEvents
